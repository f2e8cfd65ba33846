import DreamSso.Library.Interleaving

/-!
Runs whose steps meet a condition. The condition looks at the store, at the
commands executed so far and at the step that comes next. A property of store
and commands that every such step keeps, taken by requests that follow their
protocols, holds in every state such a run reaches.
-/
namespace Interleaving

open Transitions

variable {ι C : Type} {R : C → Type} {σ α ω ε γ : Type}

/-- What may come next: a command of a request, or a move of the store. -/
structure Condition (ι C : Type) (R : C → Type) (σ ε : Type) where
  act : σ → List (Entry ι C R) → ι → C → Prop
  drift : σ → List (Entry ι C R) → ε → Prop

/-- The step meets the condition in the state it is taken in. -/
def Condition.Meets (G : Condition ι C R σ ε) (cfg : Config ι C R σ α) : Move ι ω ε → Prop
  | .act i _ => ∀ c k, cfg.requests i = .call c k → G.act cfg.store cfg.log i c
  | .drift e => G.drift cfg.store cfg.log e

theorem Condition.Meets.act {G : Condition ι C R σ ε} {cfg : Config ι C R σ α} {i : ι} {w : ω}
    {c : C} {k : Option (R c) → Prog C R α} (h : G.Meets cfg (.act i w : Move ι ω ε))
    (hcall : cfg.requests i = .call c k) : G.act cfg.store cfg.log i c := h c k hcall

theorem Prog.eq_done {p : Prog C R α} {a : α} (h : p.result? = some a) : p = .done a := by
  cases p with
  | done b => exact congrArg Prog.done (Option.some.inj h)
  | thrown => cases h
  | call c k => cases h

variable [DecidableEq ι]

section Invariants

variable {S : Server C R σ ω ε} {P : ι → Protocol C R γ} {start : ι → γ}
  {post : ι → γ → Option α → Prop} {G : Condition ι C R σ ε}
  {I : σ → List (Entry ι C R) → Prop}

/-- The phases all requests have reached. -/
abbrev phases (P : ι → Protocol C R γ) (start : ι → γ) (log : List (Entry ι C R)) (i : ι) : γ :=
  (P i).view (start i) i log

/-- A request's own step moves its own phase. -/
theorem phases_self (log : List (Entry ι C R)) (i : ι) (c : C) (r : Option (R c)) :
    phases P start (log ++ [⟨i, c, r⟩]) i = (P i).next (phases P start log i) c r :=
  Protocol.view_self ..

/-- And no other. -/
theorem phases_other {i j : ι} (hij : i ≠ j) (log : List (Entry ι C R)) (c : C)
    (r : Option (R c)) : phases P start (log ++ [⟨i, c, r⟩]) j = phases P start log j :=
  Protocol.view_other _ _ _ _ _ hij

theorem phases_append (log : List (Entry ι C R)) (i : ι) (c : C) (r : Option (R c)) :
    phases P start (log ++ [⟨i, c, r⟩]) =
      Function.update (phases P start log) i ((P i).next (phases P start log i) c r) := by
  funext j
  by_cases hij : i = j
  · subst hij
    rw [phases_self, Function.update_self]
  · rw [phases_other hij, Function.update_of_ne (Ne.symm hij)]

/-- What the commands of a log have brought about, by the phase each was executed
in. -/
def milestones {β : Type} (P : ι → Protocol C R γ) (start : ι → γ)
    (reached : γ → (c : C) → Option (R c) → Option β) (log : List (Entry ι C R)) : List β :=
  (log.foldl (fun so e => (so.1 ++ [e],
    so.2 ++ (reached (phases P start so.1 e.who) e.command e.reply).toList)) ([], [])).2

theorem milestones_append {β : Type} (P : ι → Protocol C R γ) (start : ι → γ)
    (reached : γ → (c : C) → Option (R c) → Option β) (log : List (Entry ι C R))
    (e : Entry ι C R) : milestones P start reached (log ++ [e]) = milestones P start reached log ++
      (reached (phases P start log e.who) e.command e.reply).toList := by
  have hread : ∀ (log before : List (Entry ι C R)) (found : List β), (log.foldl (fun so e =>
      (so.1 ++ [e], so.2 ++ (reached (phases P start so.1 e.who) e.command e.reply).toList))
        (before, found)).1 = before ++ log := by
    intro log
    induction log with
    | nil => exact fun before _ => (List.append_nil before).symm
    | cons e rest ih =>
      intro before found
      rw [List.foldl_cons, ih, List.append_assoc]
      rfl
  rw [milestones, List.foldl_append, List.foldl_cons, List.foldl_nil, hread, List.nil_append]
  rfl

/-- A phase after a step is the one it led to or the one there was before. -/
theorem phases_cases (P : ι → Protocol C R γ) (start : ι → γ) (log : List (Entry ι C R)) (i : ι)
    (c : C) (r : Option (R c)) (j : ι) :
    (j = i ∧ phases P start (log ++ [⟨i, c, r⟩]) j = (P i).next (phases P start log i) c r) ∨
      (j ≠ i ∧ phases P start (log ++ [⟨i, c, r⟩]) j = phases P start log j) := by
  by_cases hij : i = j
  · subst hij
    exact .inl ⟨rfl, phases_self ..⟩
  · exact .inr ⟨Ne.symm hij, phases_other hij ..⟩

/-- What is kept by each step that meets the condition holds after a run of such
steps, and every request is still where its protocol says. -/
theorem Server.run_meeting
    (hact : ∀ s log i c w, I s log → (P i).ok (phases P start log i) c → G.act s log i c →
      I (S.perform w c s).2 (log ++ [⟨i, c, (S.perform w c s).1⟩]))
    (hdrift : ∀ s s' log e, I s log → G.drift s log e → S.drift e s = some s' → I s' log)
    {initial : σ → Prop} {programs : ι → Prog C R α} {cfg cfg' : Config ι C R σ α}
    {trace : List (Event (Config ι C R σ α) (Move ι ω ε))}
    (hrun : Exec (S.system initial programs) cfg trace cfg')
    (hguard : ∀ e ∈ trace, G.Meets e.before e.label)
    (hobeys : ∀ i, (P i).Obeys (post i) (phases P start cfg.log i) (cfg.requests i))
    (h : I cfg.store cfg.log) :
    I cfg'.store cfg'.log ∧
      ∀ i, (P i).Obeys (post i) (phases P start cfg'.log i) (cfg'.requests i) := by
  refine @Exec.preserves_where _ _ _ (fun cfg => I cfg.store cfg.log ∧
    ∀ i, (P i).Obeys (post i) (phases P start cfg.log i) (cfg.requests i)) (fun cfg m => G.Meets cfg m)
    ?_ _ _ _ hrun hguard ⟨h, hobeys⟩
  intro cfg m cfg' hboth hmeets hstep
  refine ⟨?_, Server.obeys_step hstep hboth.2⟩
  cases m with
  | act i w =>
    obtain ⟨c, k, hprog, rfl⟩ := Server.step_act hstep
    have hobey := hboth.2 i
    rw [hprog] at hobey
    exact hact _ _ _ _ _ hboth.1 hobey.1 (hmeets.act hprog)
  | drift e =>
    obtain ⟨s, hs, rfl⟩ := Server.step_drift hstep
    exact hdrift _ _ _ _ hboth.1 hmeets hs

/-- The commands executed in a run, each with the store it was executed on. -/
def recorded (trace : List (Event (Config ι C R σ α) (Move ι ω ε))) : List (σ × Entry ι C R) :=
  trace.filterMap fun e => match e.label with
    | .act _ _ => e.after.log.getLast?.map fun entry => (e.before.store, entry)
    | .drift _ => none

/-- The commands of such a record. -/
abbrev entries (hist : List (σ × Entry ι C R)) : List (Entry ι C R) := hist.map Prod.snd

omit [DecidableEq ι] in
theorem entries_append (hist : List (σ × Entry ι C R)) (x : σ × Entry ι C R) :
    entries (hist ++ [x]) = entries hist ++ [x.2] := List.map_append

omit [DecidableEq ι] in
theorem recorded_append (first second : List (Event (Config ι C R σ α) (Move ι ω ε))) :
    recorded (first ++ second) = recorded first ++ recorded second := List.filterMap_append

/-- The same for what is kept of the store and of the record of the run so far. -/
theorem Server.run_recorded {J : List (σ × Entry ι C R) → σ → Prop}
    (hact : ∀ hist s i c w, J hist s → (P i).ok (phases P start (entries hist) i) c →
      G.act s (entries hist) i c →
      J (hist ++ [(s, ⟨i, c, (S.perform w c s).1⟩)]) (S.perform w c s).2)
    (hdrift : ∀ hist s s' e, J hist s → G.drift s (entries hist) e → S.drift e s = some s' →
      J hist s')
    {initial : σ → Prop} {programs : ι → Prog C R α} {cfg cfg' : Config ι C R σ α}
    {trace : List (Event (Config ι C R σ α) (Move ι ω ε))}
    (hrun : Exec (S.system initial programs) cfg trace cfg')
    (hguard : ∀ e ∈ trace, G.Meets e.before e.label) (hlog : cfg.log = [])
    (hobeys : ∀ i, (P i).Obeys (post i) (start i) (cfg.requests i)) (h : J [] cfg.store) :
    (J (recorded trace) cfg'.store ∧ cfg'.log = entries (recorded trace)) ∧
      ∀ i, (P i).Obeys (post i) (phases P start cfg'.log i) (cfg'.requests i) := by
  have hkept := hrun.history (fun trace cfg' => (∀ e ∈ trace, G.Meets e.before e.label) →
    (J (recorded trace) cfg'.store ∧ cfg'.log = entries (recorded trace)) ∧
      ∀ i, (P i).Obeys (post i) (phases P start cfg'.log i) (cfg'.requests i)) ?_ ?_
  · exact hkept hguard
  · intro _
    rw [hlog]
    exact ⟨⟨h, rfl⟩, hobeys⟩
  · intro trace cfg m cfg' _ ih hstep hguard
    obtain ⟨⟨hJ, hentries⟩, hobeys⟩ := ih fun e he => hguard e (List.mem_append_left _ he)
    have hmeets := hguard ⟨cfg, m, cfg'⟩ (List.mem_append_right _ (List.mem_singleton_self _))
    refine ⟨?_, Server.obeys_step hstep hobeys⟩
    rw [recorded_append]
    cases m with
    | act i w =>
      obtain ⟨c, k, hprog, rfl⟩ := Server.step_act hstep
      have hobey := hobeys i
      rw [hprog, hentries] at hobey
      have hguards := Condition.Meets.act hmeets hprog
      rw [hentries] at hguards
      have hlast : recorded [(⟨cfg, .act i w, cfg.resume i c k (S.perform w c cfg.store)⟩ :
          Event (Config ι C R σ α) (Move ι ω ε))] =
            [(cfg.store, ⟨i, c, (S.perform w c cfg.store).1⟩)] := by
        simp [recorded, Config.resume]
      rw [hlast]
      refine ⟨hact _ _ _ _ _ hJ hobey.1 hguards, ?_⟩
      rw [entries, List.map_append, ← entries, ← hentries]
      rfl
    | drift e =>
      obtain ⟨s, hs, rfl⟩ := Server.step_drift hstep
      have hguards : G.drift cfg.store cfg.log e := hmeets
      rw [hentries] at hguards
      have hlast : recorded [(⟨cfg, .drift e, { cfg with store := s }⟩ :
          Event (Config ι C R σ α) (Move ι ω ε))] = [] := rfl
      rw [hlast, List.append_nil]
      exact ⟨hdrift _ _ _ _ hJ hguards hs, hentries⟩

end Invariants

section Answers

/-- Some replies to its commands bring the program to this result. -/
inductive Prog.MayReturn (a : α) : Prog C R α → Prop
  | done : MayReturn a (.done a)
  | call {c : C} {k : Option (R c) → Prog C R α} (r : Option (R c)) (h : MayReturn a (k r)) :
      MayReturn a (.call c k)

theorem Prog.MayReturn.of_done {a b : α} (h : (.done b : Prog C R α).MayReturn a) : a = b := by
  cases h
  rfl

/-- A request that has returned stays as it is. -/
theorem Server.done_kept {S : Server C R σ ω ε} {initial : σ → Prop}
    {programs : ι → Prog C R α} {cfg cfg' : Config ι C R σ α}
    {trace : List (Event (Config ι C R σ α) (Move ι ω ε))}
    (hrun : Exec (S.system initial programs) cfg trace cfg') {i : ι} {a : α}
    (hdone : cfg.requests i = .done a) : cfg'.requests i = .done a := by
  refine hrun.preserves (I := fun cfg => cfg.requests i = .done a) ?_ hdone
  intro cfg m cfg' hdone step
  cases m with
  | drift e =>
    obtain ⟨s, -, rfl⟩ := Server.step_drift step
    exact hdone
  | act j w =>
    obtain ⟨c, k, hprog, rfl⟩ := Server.step_act step
    have hj : i ≠ j := by
      rintro rfl
      rw [hdone] at hprog
      cases hprog
    rw [Config.resume_other _ hj]
    exact hdone

/-- A request that has executed no command is where it started. -/
theorem Server.not_begun {S : Server C R σ ω ε} {initial : σ → Prop}
    {programs : ι → Prog C R α} {cfg cfg' : Config ι C R σ α}
    {trace : List (Event (Config ι C R σ α) (Move ι ω ε))}
    (hrun : Exec (S.system initial programs) cfg trace cfg') {i : ι}
    (hnone : ∀ e ∈ cfg'.log, e.who ≠ i) : cfg'.requests i = cfg.requests i := by
  induction hrun with
  | nil => rfl
  | @snoc cfg₁ cfg₂ trace m run step ih =>
    cases m with
    | drift e =>
      obtain ⟨s, -, rfl⟩ := Server.step_drift step
      exact ih hnone
    | act j w =>
      obtain ⟨c, k, hprog, rfl⟩ := Server.step_act step
      have hj : j ≠ i := hnone ⟨j, c, _⟩ (List.mem_append_right _ (List.mem_singleton_self _))
      rw [Config.resume_other _ (Ne.symm hj)]
      exact ih fun e he => hnone e (List.mem_append_left _ he)

/-- The commands executed since one of the requests returned are those of others. -/
theorem Server.log_after_done {S : Server C R σ ω ε} {initial : σ → Prop}
    {programs : ι → Prog C R α} {cfg cfg' : Config ι C R σ α}
    {trace : List (Event (Config ι C R σ α) (Move ι ω ε))}
    (hrun : Exec (S.system initial programs) cfg trace cfg') {i : ι} {a : α}
    (hdone : cfg.requests i = .done a) :
    ∃ later, cfg'.log = cfg.log ++ later ∧ ∀ e ∈ later, e.who ≠ i := by
  induction hrun with
  | nil => exact ⟨[], (List.append_nil _).symm, by simp⟩
  | @snoc cfg₁ cfg₂ trace m run step ih =>
    obtain ⟨later, hlog, hothers⟩ := ih
    cases m with
    | drift e =>
      obtain ⟨s, -, rfl⟩ := Server.step_drift step
      exact ⟨later, hlog, hothers⟩
    | act j w =>
      obtain ⟨c, k, hprog, rfl⟩ := Server.step_act step
      refine ⟨later ++ [⟨j, c, (S.perform w c cfg₁.store).1⟩], ?_, ?_⟩
      · rw [← List.append_assoc, ← hlog]
        rfl
      · intro e he
        rcases List.mem_append.mp he with hold | hnew
        · exact hothers e hold
        · rw [List.mem_singleton.mp hnew]
          rintro rfl
          rw [Server.done_kept run hdone] at hprog
          cases hprog

/-- A request without a command in the log is in its first phase. -/
theorem Protocol.view_unbegun (P : Protocol C R γ) (start : γ) {i : ι} {log : List (Entry ι C R)}
    (h : ∀ e ∈ log, e.who ≠ i) : P.view start i log = start := by
  have hnone : log.filter (fun e => decide (e.who = i)) = [] :=
    List.filter_eq_nil_iff.mpr fun e he => by simpa using h e he
  rw [Protocol.view, hnone]
  rfl

/-- A request that has returned has had its next command answered in some step of the
run. -/
theorem Server.first_answer {S : Server C R σ ω ε} {initial : σ → Prop}
    {programs : ι → Prog C R α} {cfg cfg' : Config ι C R σ α}
    {trace : List (Event (Config ι C R σ α) (Move ι ω ε))}
    (hrun : Exec (S.system initial programs) cfg trace cfg') {i : ι} {c : C}
    {k : Option (R c) → Prog C R α} (hbegin : cfg.requests i = .call c k) {a : α}
    (hdone : cfg'.requests i = .done a) :
    ∃ e ∈ trace, ∃ w, e.label = .act i w ∧
      e.after.requests i = k (S.perform w c e.before.store).1 ∧
      (k (S.perform w c e.before.store).1).MayReturn a := by
  have hreached : cfg'.requests i = .call c k ∨ ∃ e ∈ trace, ∃ w, e.label = .act i w ∧
      e.after.requests i = k (S.perform w c e.before.store).1 ∧
      ∀ a, (cfg'.requests i).MayReturn a →
        (k (S.perform w c e.before.store).1).MayReturn a := by
    clear hdone
    induction hrun with
    | nil => exact .inl hbegin
    | @snoc cfg₁ cfg₂ trace m run step ih =>
      rcases ih with hsame | ⟨e, he, w, hlabel, hbefore, hreturns⟩
      · cases m with
        | drift e =>
          obtain ⟨s, -, rfl⟩ := Server.step_drift step
          exact .inl hsame
        | act j w =>
          obtain ⟨c', k', hprog, hcfg⟩ := Server.step_act step
          by_cases hj : i = j
          · subst hj
            rw [hsame] at hprog
            cases hprog
            refine .inr ⟨_, List.mem_append_right _ (List.mem_singleton_self _), w, rfl, ?_, ?_⟩
            · rw [hcfg, Config.resume_self]
            · intro a ha
              rw [hcfg, Config.resume_self] at ha
              exact ha
          · refine .inl ?_
            rw [hcfg, Config.resume_other _ hj]
            exact hsame
      · refine .inr ⟨e, List.mem_append_left _ he, w, hlabel, hbefore, fun a ha => hreturns a ?_⟩
        cases m with
        | drift e =>
          obtain ⟨s, -, rfl⟩ := Server.step_drift step
          exact ha
        | act j w =>
          obtain ⟨c', k', hprog, rfl⟩ := Server.step_act step
          by_cases hj : i = j
          · subst hj
            rw [hprog]
            rw [Config.resume_self] at ha
            exact .call _ ha
          · rw [Config.resume_other _ hj] at ha
            exact ha
  rw [hdone] at hreached
  rcases hreached with hcall | ⟨e, he, w, hlabel, hbefore, hreturns⟩
  · cases hcall
  · exact ⟨e, he, w, hlabel, hbefore, hreturns a .done⟩

end Answers

section Computed

variable (G : Condition ι C R σ ε) [∀ s log i c, Decidable (G.act s log i c)]
  [∀ s log e, Decidable (G.drift s log e)]

/-- A step that is taken only where it meets the condition. -/
def Server.stepMeeting (S : Server C R σ ω ε) (cfg : Config ι C R σ α) (m : Move ι ω ε) :
    Option (Config ι C R σ α) :=
  match m with
  | .act i _ =>
    match cfg.requests i with
    | .call c _ => if G.act cfg.store cfg.log i c then S.step cfg m else none
    | _ => none
  | .drift e => if G.drift cfg.store cfg.log e then S.step cfg m else none

variable {G}

theorem Server.meets_of_stepMeeting {S : Server C R σ ω ε} {cfg cfg' : Config ι C R σ α}
    {m : Move ι ω ε} (h : S.stepMeeting G cfg m = some cfg') :
    S.step cfg m = some cfg' ∧ G.Meets cfg m := by
  cases m with
  | drift e =>
    simp only [Server.stepMeeting, Option.ite_none_right_eq_some] at h
    exact ⟨h.2, h.1⟩
  | act i w =>
    unfold Server.stepMeeting at h
    cases hprog : cfg.requests i with
    | done a => simp [hprog] at h
    | thrown => simp [hprog] at h
    | call c k =>
      simp only [hprog, Option.ite_none_right_eq_some] at h
      refine ⟨h.2, fun c' k' hcall => ?_⟩
      rw [hprog] at hcall
      cases hcall
      exact h.1

/-- Such steps computed one after another are a run that meets the condition. -/
theorem Server.exec_of_moves_meeting {S : Server C R σ ω ε} {begin cfg : Config ι C R σ α}
    {moves : List (Move ι ω ε)} (h : moves.foldlM (S.stepMeeting G) begin = some cfg)
    (initial : σ → Prop) (programs : ι → Prog C R α) :
    ∃ trace, Exec (S.system initial programs) begin trace cfg ∧
      ∀ e ∈ trace, G.Meets e.before e.label :=
  exec_of_foldlM_where (fun _ _ _ hstep => Server.meets_of_stepMeeting hstep) moves h

/-- A step together with what it adds to the record. -/
def Server.stepRecorded (S : Server C R σ ω ε)
    (so : Config ι C R σ α × List (σ × Entry ι C R)) (m : Move ι ω ε) :
    Option (Config ι C R σ α × List (σ × Entry ι C R)) :=
  (S.step so.1 m).map fun cfg => (cfg, so.2 ++ recorded [⟨so.1, m, cfg⟩])

/-- Such steps computed one after another are a run with this record. -/
theorem Server.exec_of_moves_recorded {S : Server C R σ ω ε} {begin cfg : Config ι C R σ α}
    {moves : List (Move ι ω ε)} {hist : List (σ × Entry ι C R)}
    (h : moves.foldlM S.stepRecorded (begin, []) = some (cfg, hist))
    (initial : σ → Prop) (programs : ι → Prog C R α) :
    ∃ trace, Exec (S.system initial programs) begin trace cfg ∧ recorded trace = hist := by
  have hgeneral : ∀ (moves : List (Move ι ω ε)) (begin : Config ι C R σ α)
      (before : List (σ × Entry ι C R)),
      moves.foldlM S.stepRecorded (begin, before) = some (cfg, hist) →
      ∃ trace, Exec (S.system initial programs) begin trace cfg ∧
        before ++ recorded trace = hist := by
    intro moves
    induction moves with
    | nil =>
      intro begin before h
      rw [List.foldlM_nil] at h
      cases h
      exact ⟨[], Exec.nil _, List.append_nil _⟩
    | cons m rest ih =>
      intro begin before h
      rw [List.foldlM_cons, Option.bind_eq_bind, Option.bind_eq_some_iff] at h
      obtain ⟨next, hnext, hrest⟩ := h
      obtain ⟨cfg', hstep, rfl⟩ := Option.map_eq_some_iff.mp hnext
      obtain ⟨trace, hexec, hhist⟩ := ih _ _ hrest
      have hfirst : (S.system initial programs).step begin m cfg' := hstep
      refine ⟨[⟨begin, m, cfg'⟩] ++ trace, (Exec.single hfirst).append hexec, ?_⟩
      rw [recorded_append, ← List.append_assoc]
      exact hhist
  exact hgeneral moves begin [] h

end Computed

end Interleaving
