import DreamSso.Library.Interleaving
import Mathlib.Data.Fintype.Defs

/-!
Records that are read, changed in memory and written back by separate commands.
In a run in which nobody reads the record while another request that has read it
may still write it, the requests on the record behave as if they ran one after
the other: what holds between two of them and what holds while one of them has
the record is invariant, however the other commands interleave.
-/
namespace Interleaving

open Transitions

variable {ι C : Type} {R : C → Type} {σ α ω ε γ : Type}

/-- The program can still issue one of these commands. -/
inductive Prog.MayIssue (E : C → Prop) : Prog C R α → Prop
  | now {c : C} {k : Option (R c) → Prog C R α} (h : E c) : MayIssue E (.call c k)
  | later {c : C} {k : Option (R c) → Prog C R α} (r : Option (R c)) (h : MayIssue E (k r)) :
      MayIssue E (.call c k)

theorem Prog.MayIssue.not_ended {E : C → Prop} {p : Prog C R α} (h : p.MayIssue E) :
    p.ended ≠ true := by
  cases h <;> exact Bool.false_ne_true

/-- The request has issued one of the commands that read the record. -/
def Config.HasRead (reads : C → Prop) (cfg : Config ι C R σ α) (i : ι) : Prop :=
  ∃ e ∈ cfg.log, e.who = i ∧ reads e.command

/-- A step that reads the record is taken only when no other request that has
read it may still write it. -/
def Undisturbed (reads : C → Prop) (writes : ι → C → Prop) (cfg : Config ι C R σ α) :
    Move ι ω ε → Prop
  | .act i _ => ∀ c k, cfg.requests i = .call c k → reads c →
      ∀ j, j ≠ i → cfg.HasRead reads j → ¬ (cfg.requests j).MayIssue (writes j)
  | .drift _ => True

/-- A step issues its command only in stores that admit it. -/
def Admitted (admits : σ → C → Prop) (cfg : Config ι C R σ α) : Move ι ω ε → Prop
  | .act i _ => ∀ c k, cfg.requests i = .call c k → admits cfg.store c
  | .drift _ => True

theorem admitted_always (cfg : Config ι C R σ α) (m : Move ι ω ε) :
    Admitted (fun _ _ => True) cfg m := by
  cases m with
  | act i w => exact fun _ _ _ => trivial
  | drift e => trivial

theorem Admitted.imp {admits admits' : σ → C → Prop} {cfg : Config ι C R σ α} {m : Move ι ω ε}
    (h : Admitted admits cfg m) (himp : ∀ s c, admits s c → admits' s c) :
    Admitted admits' cfg m := by
  cases m with
  | act i w => exact fun c k hcall => himp _ _ (h c k hcall)
  | drift e => trivial

variable [DecidableEq ι]

/-- Every other request has ended or has not issued a command yet. -/
def Config.alone [Fintype ι] (cfg : Config ι C R σ α) (i : ι) : Bool :=
  decide (∀ j, j ≠ i → (cfg.requests j).ended = true ∨
    (cfg.log.all fun e => decide (e.who ≠ j)) = true)

/-- A step of a request that is alone; the store moves freely. -/
def Server.stepAlone [Fintype ι] (S : Server C R σ ω ε) (cfg : Config ι C R σ α)
    (m : Move ι ω ε) : Option (Config ι C R σ α) :=
  match m with
  | .act i _ => if cfg.alone i then S.step cfg m else none
  | .drift _ => S.step cfg m

theorem undisturbed_of_stepAlone [Fintype ι] {S : Server C R σ ω ε}
    {cfg cfg' : Config ι C R σ α} {m : Move ι ω ε} (h : S.stepAlone cfg m = some cfg')
    (reads : C → Prop) (writes : ι → C → Prop) :
    S.step cfg m = some cfg' ∧ Undisturbed reads writes cfg m := by
  cases m with
  | drift e => exact ⟨h, trivial⟩
  | act i w =>
    simp only [Server.stepAlone, Option.ite_none_right_eq_some] at h
    obtain ⟨halone, hstep⟩ := h
    refine ⟨hstep, fun c k _ _ j hj hread hmay => ?_⟩
    rcases of_decide_eq_true halone j hj with hended | hunstarted
    · exact hmay.not_ended hended
    · obtain ⟨e, he, hwho, -⟩ := hread
      exact of_decide_eq_true (List.all_eq_true.mp hunstarted e he) hwho

/-- Moves of requests that are alone are an undisturbed run. -/
theorem Server.exec_of_moves_alone [Fintype ι] {S : Server C R σ ω ε}
    {start cfg : Config ι C R σ α} {moves : List (Move ι ω ε)}
    (h : moves.foldlM S.stepAlone start = some cfg) (initial : σ → Prop)
    (programs : ι → Prog C R α) (reads : C → Prop) (writes : ι → C → Prop) :
    ∃ trace, Exec (S.system initial programs) start trace cfg ∧
      ∀ e ∈ trace, Undisturbed reads writes e.before e.label :=
  exec_of_foldlM_where (fun _ _ _ hstep => undisturbed_of_stepAlone hstep reads writes) moves h

/-- A step of a request that is alone, in a store that passes a check. -/
def Server.stepChecked [Fintype ι] (S : Server C R σ ω ε) (check : σ → C → Bool)
    (cfg : Config ι C R σ α) (m : Move ι ω ε) : Option (Config ι C R σ α) :=
  match m with
  | .act i _ =>
    match cfg.requests i with
    | .call c _ => if check cfg.store c then S.stepAlone cfg m else none
    | _ => none
  | .drift _ => S.stepAlone cfg m

theorem admitted_of_stepChecked [Fintype ι] {S : Server C R σ ω ε} {check : σ → C → Bool}
    {cfg cfg' : Config ι C R σ α} {m : Move ι ω ε} (h : S.stepChecked check cfg m = some cfg') :
    S.stepAlone cfg m = some cfg' ∧ Admitted (fun s c => check s c = true) cfg m := by
  cases m with
  | drift e => exact ⟨h, trivial⟩
  | act i w =>
    unfold Server.stepChecked at h
    cases hprog : cfg.requests i with
    | done a => simp [hprog] at h
    | thrown => simp [hprog] at h
    | call c k =>
      simp only [hprog, Option.ite_none_right_eq_some] at h
      refine ⟨h.2, fun c' k' hcall => ?_⟩
      rw [hprog] at hcall
      cases hcall
      exact h.1

/-- Such moves are an undisturbed run of admitted steps. -/
theorem Server.exec_of_moves_checked [Fintype ι] {S : Server C R σ ω ε} {check : σ → C → Bool}
    {start cfg : Config ι C R σ α} {moves : List (Move ι ω ε)}
    (h : moves.foldlM (S.stepChecked check) start = some cfg) (initial : σ → Prop)
    (programs : ι → Prog C R α) (reads : C → Prop) (writes : ι → C → Prop) :
    ∃ trace, Exec (S.system initial programs) start trace cfg ∧ ∀ e ∈ trace,
      Undisturbed reads writes e.before e.label ∧
        Admitted (fun s c => check s c = true) e.before e.label := by
  have hstep : ∀ (cfg : Config ι C R σ α) m cfg', S.stepChecked check cfg m = some cfg' →
      (S.system initial programs).step cfg m cfg' ∧
        (Undisturbed reads writes cfg m ∧ Admitted (fun s c => check s c = true) cfg m) := by
    intro cfg m cfg' h
    obtain ⟨halone, hadmits⟩ := admitted_of_stepChecked h
    obtain ⟨hstep, hundisturbed⟩ := undisturbed_of_stepAlone halone reads writes
    exact ⟨hstep, hundisturbed, hadmits⟩
  exact exec_of_foldlM_where hstep moves h

/-- How requests that keep to their protocols treat one record. `quiet` holds
between requests, `held` while one of them has read the record and may still
write it. A critical phase is one that has to end with a write; a command is
issued only in stores that admit it. -/
structure Discipline (S : Server C R σ ω ε) (P : ι → Protocol C R γ) (start : ι → γ)
    (post : ι → γ → Option α → Prop) where
  reads : C → Prop
  writes : ι → C → Prop
  holding : γ → Prop
  critical : γ → Prop
  admits : σ → C → Prop
  quiet : σ → List (Entry ι C R) → Prop
  held : ι → γ → σ → List (Entry ι C R) → Prop
  unread_writes : ∀ i g c, ¬ holding g → (P i).ok g c → ¬ writes i c
  enters : ∀ i g c r, ¬ holding g → (P i).ok g c → holding ((P i).next g c r) → reads c
  keeps : ∀ i g c r, holding g → (P i).ok g c → holding ((P i).next g c r)
  critical_writes : ∀ i g c, critical g → (P i).ok g c → writes i c
  critical_post : ∀ i g a, critical g → ¬ post i g a
  release : ∀ i g s log, holding g → ¬ critical g → held i g s log → quiet s log
  enter : ∀ i g c w s log, (P i).view (start i) i log = g → ¬ holding g → (P i).ok g c →
    holding ((P i).next g c (S.perform w c s).1) → quiet s log →
    held i ((P i).next g c (S.perform w c s).1) (S.perform w c s).2
      (log ++ [⟨i, c, (S.perform w c s).1⟩])
  advance : ∀ i g c w s log, (P i).view (start i) i log = g → holding g → (P i).ok g c →
    admits s c → held i g s log → held i ((P i).next g c (S.perform w c s).1) (S.perform w c s).2
      (log ++ [⟨i, c, (S.perform w c s).1⟩])
  frame_quiet : ∀ i g c w s log, (P i).view (start i) i log = g → (P i).ok g c →
    ¬ writes i c → (holding ((P i).next g c (S.perform w c s).1) → holding g) →
    quiet s log → quiet (S.perform w c s).2 (log ++ [⟨i, c, (S.perform w c s).1⟩])
  frame_held : ∀ i j g h c w s log, i ≠ j → (P i).view (start i) i log = g →
    (P i).ok g c → ¬ writes i c → (holding ((P i).next g c (S.perform w c s).1) → holding g) →
    holding h → held j h s log →
    held j h (S.perform w c s).2 (log ++ [⟨i, c, (S.perform w c s).1⟩])
  drift_quiet : ∀ e s s' log, S.drift e s = some s' → quiet s log → quiet s' log
  drift_held : ∀ i g e s s' log, S.drift e s = some s' → holding g → held i g s log →
    held i g s' log

namespace Discipline

variable {S : Server C R σ ω ε} {P : ι → Protocol C R γ} {start : ι → γ}
  {post : ι → γ → Option α → Prop} (D : Discipline S P start post)

abbrev view (P : ι → Protocol C R γ) (start : ι → γ) (cfg : Config ι C R σ α) (i : ι) : γ :=
  (P i).view (start i) i cfg.log

/-- The request has read the record and may still write it. -/
def Engaged (cfg : Config ι C R σ α) (i : ι) : Prop :=
  D.holding (view P start cfg i) ∧ (cfg.requests i).MayIssue (D.writes i)

/-- At most one request is engaged; it finds the record as it left it. -/
structure Serial (cfg : Config ι C R σ α) : Prop where
  obeys : ∀ i, (P i).Obeys (post i) (view P start cfg i) (cfg.requests i)
  hasRead : ∀ i, D.holding (view P start cfg i) → cfg.HasRead D.reads i
  alone : ∀ i j, D.Engaged cfg i → D.Engaged cfg j → i = j
  held : ∀ i, D.Engaged cfg i → D.held i (view P start cfg i) cfg.store cfg.log
  quiet : (∀ i, ¬ D.Engaged cfg i) → D.quiet cfg.store cfg.log

/-- A request that can write no more is not in a critical phase. -/
theorem not_critical {cfg : Config ι C R σ α} {i : ι}
    (hobeys : (P i).Obeys (post i) (view P start cfg i) (cfg.requests i))
    (hwrites : ¬ (cfg.requests i).MayIssue (D.writes i)) :
    ¬ D.critical (view P start cfg i) := by
  intro hcritical
  cases hprog : cfg.requests i with
  | done a =>
    rw [hprog] at hobeys
    exact D.critical_post i _ _ hcritical hobeys
  | thrown =>
    rw [hprog] at hobeys
    exact D.critical_post i _ _ hcritical hobeys
  | call c k =>
    rw [hprog] at hobeys hwrites
    exact hwrites (.now (D.critical_writes i _ c hcritical hobeys.1))

theorem view_resume_self (cfg : Config ι C R σ α) (i : ι) (c : C)
    (k : Option (R c) → Prog C R α) (answer : Option (R c) × σ) :
    view P start (cfg.resume i c k answer) i =
      (P i).next (view P start cfg i) c answer.1 := Protocol.view_self ..

theorem view_resume_other (cfg : Config ι C R σ α) {i j : ι} (hj : j ≠ i) (c : C)
    (k : Option (R c) → Prog C R α) (answer : Option (R c) × σ) :
    view P start (cfg.resume i c k answer) j = view P start cfg j :=
  Protocol.view_other _ _ _ _ _ (Ne.symm hj)

/-- A step of one request does not engage another. -/
theorem engaged_resume_other (cfg : Config ι C R σ α) {i j : ι} (hj : j ≠ i) (c : C)
    (k : Option (R c) → Prog C R α) (answer : Option (R c) × σ) :
    D.Engaged (cfg.resume i c k answer) j ↔ D.Engaged cfg j := by
  rw [Engaged, Engaged, view_resume_other cfg hj, Config.resume_other cfg hj]

variable {D}

section Step

variable {cfg : Config ι C R σ α} {i : ι} {c : C} {k : Option (R c) → Prog C R α} {w : ω}

theorem Serial.hasRead_resume (h : D.Serial cfg)
    (hok : (P i).ok (view P start cfg i) c) (answer : Option (R c) × σ) (j : ι)
    (hj : D.holding (view P start (cfg.resume i c k answer) j)) :
    (cfg.resume i c k answer).HasRead D.reads j := by
  have hkept : ∀ j, cfg.HasRead D.reads j → (cfg.resume i c k answer).HasRead D.reads j := by
    rintro j ⟨e, he, hrest⟩
    exact ⟨e, List.mem_append_left _ he, hrest⟩
  by_cases hji : j = i
  · subst hji
    by_cases hbefore : D.holding (view P start cfg j)
    · exact hkept j (h.hasRead j hbefore)
    · rw [view_resume_self] at hj
      exact ⟨_, List.mem_append_right _ (List.mem_singleton_self _), rfl,
        D.enters j _ c _ hbefore hok hj⟩
  · rw [view_resume_other cfg hji] at hj
    exact hkept j (h.hasRead j hj)

/-- The step of a request that has the record afterwards while nobody else is
engaged. -/
theorem Serial.taken (h : D.Serial cfg)
    (hok : (P i).ok (view P start cfg i) c)
    (hobeys : ∀ j, (P j).Obeys (post j)
      (view P start (cfg.resume i c k (S.perform w c cfg.store)) j)
      ((cfg.resume i c k (S.perform w c cfg.store)).requests j))
    (hothers : ∀ j, j ≠ i → ¬ D.Engaged cfg j)
    (hholding : D.holding (view P start (cfg.resume i c k (S.perform w c cfg.store)) i))
    (hheld : D.held i (view P start (cfg.resume i c k (S.perform w c cfg.store)) i)
      (S.perform w c cfg.store).2 (cfg.log ++ [⟨i, c, (S.perform w c cfg.store).1⟩])) :
    D.Serial (cfg.resume i c k (S.perform w c cfg.store)) := by
  have honly : ∀ j, D.Engaged (cfg.resume i c k (S.perform w c cfg.store)) j → j = i := by
    intro j hj
    by_contra hji
    exact hothers j hji ((D.engaged_resume_other cfg hji _ _ _).mp hj)
  refine ⟨hobeys, h.hasRead_resume hok _, ?_, ?_, ?_⟩
  · intro j l hj hl
    rw [honly j hj, honly l hl]
  · intro j hj
    rw [honly j hj]
    exact hheld
  · intro hnone
    have hdone := fun hm => hnone i ⟨hholding, hm⟩
    exact D.release i _ _ _ hholding (D.not_critical (hobeys i) hdone) hheld

/-- The step of a request that is engaged neither before nor after it. -/
theorem Serial.passed (h : D.Serial cfg)
    (hok : (P i).ok (view P start cfg i) c) (hnowrite : ¬ D.writes i c)
    (hobeys : ∀ j, (P j).Obeys (post j)
      (view P start (cfg.resume i c k (S.perform w c cfg.store)) j)
      ((cfg.resume i c k (S.perform w c cfg.store)).requests j))
    (hread : D.holding ((P i).next (view P start cfg i) c (S.perform w c cfg.store).1) →
      D.holding (view P start cfg i))
    (hbefore : ¬ D.Engaged cfg i)
    (hafter : ¬ D.Engaged (cfg.resume i c k (S.perform w c cfg.store)) i) :
    D.Serial (cfg.resume i c k (S.perform w c cfg.store)) := by
  have hother : ∀ j, D.Engaged (cfg.resume i c k (S.perform w c cfg.store)) j →
      j ≠ i ∧ D.Engaged cfg j := by
    intro j hj
    have hji : j ≠ i := fun hji => hafter (hji ▸ hj)
    exact ⟨hji, (D.engaged_resume_other cfg hji _ _ _).mp hj⟩
  refine ⟨hobeys, h.hasRead_resume hok _, ?_, ?_, ?_⟩
  · intro j l hj hl
    exact h.alone j l (hother j hj).2 (hother l hl).2
  · intro j hj
    obtain ⟨hji, hej⟩ := hother j hj
    rw [view_resume_other cfg hji]
    exact D.frame_held i j _ _ c w _ _ (Ne.symm hji) rfl hok hnowrite hread hej.1 (h.held j hej)
  · intro hnone
    refine D.frame_quiet i _ c w _ _ rfl hok hnowrite hread (h.quiet fun j hej => ?_)
    by_cases hji : j = i
    · exact hbefore (hji ▸ hej)
    · exact hnone j ((D.engaged_resume_other cfg hji _ _ _).mpr hej)

theorem Serial.act (h : D.Serial cfg) (hprog : cfg.requests i = .call c k)
    (hstep : S.step cfg (.act i w) = some (cfg.resume i c k (S.perform w c cfg.store)))
    (hguard : Undisturbed D.reads D.writes cfg (.act i w : Move ι ω ε))
    (hadmits : Admitted D.admits cfg (.act i w : Move ι ω ε)) :
    D.Serial (cfg.resume i c k (S.perform w c cfg.store)) := by
  have hobeys := Server.obeys_step hstep h.obeys
  have hok : (P i).ok (view P start cfg i) c := by
    have hi := h.obeys i
    rw [hprog] at hi
    exact hi.1
  have hview := @view_resume_self _ _ _ _ _ _ _ P start cfg i c k (S.perform w c cfg.store)
  by_cases hholding : D.holding (view P start cfg i)
  · by_cases hmay : (cfg.requests i).MayIssue (D.writes i)
    · have hengaged : D.Engaged cfg i := ⟨hholding, hmay⟩
      refine h.taken hok hobeys (fun j hj hej => hj (h.alone j i hej hengaged)) ?_ ?_
      · rw [hview]
        exact D.keeps i _ c _ hholding hok
      · rw [hview]
        exact D.advance i _ c w _ _ rfl hholding hok (hadmits c k hprog) (h.held i hengaged)
    · -- the request has let go of the record
      have hnowrite : ¬ D.writes i c := fun hc => hmay (hprog ▸ .now hc)
      refine h.passed hok hnowrite hobeys (fun _ => hholding) (fun hi => hmay hi.2) ?_
      rintro ⟨-, hm⟩
      rw [Config.resume_self] at hm
      exact hmay (hprog ▸ .later _ hm)
  · have hnowrite : ¬ D.writes i c := D.unread_writes i _ c hholding hok
    by_cases hholding' : D.holding (view P start (cfg.resume i c k (S.perform w c cfg.store)) i)
    · -- the request reads the record, and by the guard nobody else is engaged
      have hreads : D.reads c := D.enters i _ c _ hholding hok (hview ▸ hholding')
      have hothers : ∀ j, j ≠ i → ¬ D.Engaged cfg j := fun j hj hej =>
        hguard c k hprog hreads j hj (h.hasRead j hej.1) hej.2
      have hquiet : D.quiet cfg.store cfg.log := by
        refine h.quiet fun j hej => ?_
        by_cases hji : j = i
        · exact hholding (hji ▸ hej.1)
        · exact hothers j hji hej
      refine h.taken hok hobeys hothers hholding' ?_
      rw [hview] at hholding' ⊢
      exact D.enter i _ c w _ _ rfl hholding hok hholding' hquiet
    · exact h.passed hok hnowrite hobeys (fun hi => absurd (hview ▸ hi) hholding')
        (fun hi => hholding hi.1) (fun hi => hholding' hi.1)

end Step

theorem Serial.drift {cfg : Config ι C R σ α} {e : ε} {s : σ} (h : D.Serial cfg)
    (hs : S.drift e cfg.store = some s) : D.Serial { cfg with store := s } where
  obeys := h.obeys
  hasRead := h.hasRead
  alone := h.alone
  held i hi := D.drift_held i _ e _ _ _ hs hi.1 (h.held i hi)
  quiet hnone := D.drift_quiet e _ _ _ hs (h.quiet hnone)

theorem Serial.step {cfg cfg' : Config ι C R σ α} {m : Move ι ω ε} (h : D.Serial cfg)
    (hstep : S.step cfg m = some cfg') (hguard : Undisturbed D.reads D.writes cfg m)
    (hadmits : Admitted D.admits cfg m) : D.Serial cfg' := by
  cases m with
  | act i w =>
    obtain ⟨c, k, hprog, rfl⟩ := Server.step_act hstep
    exact h.act hprog hstep hguard hadmits
  | drift e =>
    obtain ⟨s, hs, rfl⟩ := Server.step_drift hstep
    exact h.drift hs

/-- Requests that have not started are quiet. -/
theorem serial_start {cfg : Config ι C R σ α} (hlog : cfg.log = [])
    (hobeys : ∀ i, (P i).Obeys (post i) (start i) (cfg.requests i))
    (hstart : ∀ i, ¬ D.holding (start i)) (hquiet : D.quiet cfg.store []) :
    D.Serial cfg := by
  have hview : ∀ i, view P start cfg i = start i := fun i => by rw [view, hlog, Protocol.view_nil]
  have hidle : ∀ i, ¬ D.Engaged cfg i := fun i hi => hstart i (hview i ▸ hi.1)
  refine ⟨fun i => (hview i).symm ▸ hobeys i, fun i hi => absurd (hview i ▸ hi) (hstart i),
    fun i _ hi => absurd hi (hidle i), fun i hi => absurd hi (hidle i), fun _ => ?_⟩
  rw [hlog]
  exact hquiet

/-- A run in which every read of the record is undisturbed stays serial. -/
theorem Serial.run {initial : σ → Prop} {programs : ι → Prog C R α}
    {cfg cfg' : Config ι C R σ α} {trace : List (Event (Config ι C R σ α) (Move ι ω ε))}
    (hrun : Exec (S.system initial programs) cfg trace cfg')
    (hguard : ∀ e ∈ trace, Undisturbed D.reads D.writes e.before e.label)
    (hadmits : ∀ e ∈ trace, Admitted D.admits e.before e.label)
    (h : D.Serial cfg) : D.Serial cfg' := by
  have hboth : ∀ e ∈ trace, Undisturbed D.reads D.writes e.before e.label ∧
      Admitted D.admits e.before e.label := fun e he => ⟨hguard e he, hadmits e he⟩
  refine @Exec.preserves_where _ _ _ D.Serial
    (fun cfg m => Undisturbed D.reads D.writes cfg m ∧ Admitted D.admits cfg m) ?_ _ _ _ hrun hboth h
  intro cfg m cfg' hs hg hstep
  exact hs.step hstep hg.1 hg.2

/-- In a serial state the record is as the last request left it or as the one
that has it keeps it. -/
theorem Serial.quiet_or_held {cfg : Config ι C R σ α} (h : D.Serial cfg) :
    D.quiet cfg.store cfg.log ∨
      ∃ i, D.holding (view P start cfg i) ∧ D.held i (view P start cfg i) cfg.store cfg.log := by
  by_cases hsome : ∃ i, D.Engaged cfg i
  · obtain ⟨i, hi⟩ := hsome
    exact .inr ⟨i, hi.1, h.held i hi⟩
  · exact .inl (h.quiet fun i hi => hsome ⟨i, hi⟩)

end Discipline

end Interleaving
