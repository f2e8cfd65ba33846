import Mathlib.Algebra.GroupWithZero.Nat
import Mathlib.Data.List.Induction
import Mathlib.Tactic.TypeStar

/-!
Labelled transition systems with recorded executions. An execution keeps every
step it took with the states around it, so that a property of a run may speak
about the steps already taken as well as about the state reached.
-/
namespace Transitions

/-- Initial states and labelled steps. -/
structure System (σ ℓ : Type*) where
  initial : σ → Prop
  step : σ → ℓ → σ → Prop

structure Event (σ ℓ : Type*) where
  before : σ
  label : ℓ
  after : σ

variable {σ ℓ : Type*}

/-- The steps taken from one state to another, oldest first. -/
inductive Exec (T : System σ ℓ) : σ → List (Event σ ℓ) → σ → Prop
  | nil (s : σ) : Exec T s [] s
  | snoc {s t u : σ} {trace : List (Event σ ℓ)} {l : ℓ} (run : Exec T s trace t)
      (step : T.step t l u) : Exec T s (trace ++ [⟨t, l, u⟩]) u

/-- Some step of the run is of this kind. -/
def Occurs (kind : σ → ℓ → Bool) (trace : List (Event σ ℓ)) : Prop :=
  ∃ e ∈ trace, kind e.before e.label = true

instance (kind : σ → ℓ → Bool) (trace : List (Event σ ℓ)) : Decidable (Occurs kind trace) :=
  inferInstanceAs (Decidable (∃ e ∈ trace, kind e.before e.label = true))

theorem occurs_nil (kind : σ → ℓ → Bool) : ¬ Occurs kind [] := by
  rintro ⟨e, he, -⟩
  cases he

theorem occurs_snoc {kind : σ → ℓ → Bool} {trace : List (Event σ ℓ)} {e : Event σ ℓ} :
    Occurs kind (trace ++ [e]) ↔ Occurs kind trace ∨ kind e.before e.label = true := by
  simp [Occurs, or_and_right, exists_or]

theorem Exec.single {T : System σ ℓ} {s t : σ} {l : ℓ} (step : T.step s l t) :
    Exec T s [⟨s, l, t⟩] t := Exec.snoc (Exec.nil s) step

theorem Exec.append {T : System σ ℓ} {s t u : σ} {first second : List (Event σ ℓ)}
    (h : Exec T s first t) (h' : Exec T t second u) : Exec T s (first ++ second) u := by
  induction h' with
  | nil => simpa using h
  | snoc run step ih =>
    rw [← List.append_assoc]
    exact Exec.snoc ih step

/-- A property that every step keeps holds after every execution. -/
theorem Exec.preserves {T : System σ ℓ} {I : σ → Prop}
    (hstep : ∀ s l t, I s → T.step s l t → I t)
    {s t : σ} {trace : List (Event σ ℓ)} (run : Exec T s trace t) (h : I s) : I t := by
  induction run with
  | nil => exact h
  | snoc run step ih => exact hstep _ _ _ ih step

/-- The same when only the steps of this run that meet a condition keep it. -/
theorem Exec.preserves_where {T : System σ ℓ} {I : σ → Prop} {G : σ → ℓ → Prop}
    (hstep : ∀ s l t, I s → G s l → T.step s l t → I t)
    {s t : σ} {trace : List (Event σ ℓ)} (run : Exec T s trace t)
    (hguard : ∀ e ∈ trace, G e.before e.label) (h : I s) : I t := by
  induction run with
  | nil => exact h
  | @snoc t u trace l run step ih =>
    have hlast := hguard ⟨t, l, u⟩ (List.mem_append_right _ (List.mem_singleton_self _))
    exact hstep _ _ _ (ih fun e he => hguard e (List.mem_append_left _ he)) hlast step

/-- The same for a property of the steps taken so far and the state reached. -/
theorem Exec.history {T : System σ ℓ} {s : σ} (J : List (Event σ ℓ) → σ → Prop)
    (hnil : J [] s)
    (hstep : ∀ trace t l u, Exec T s trace t → J trace t → T.step t l u →
      J (trace ++ [⟨t, l, u⟩]) u)
    {t : σ} {trace : List (Event σ ℓ)} (run : Exec T s trace t) : J trace t := by
  induction run with
  | nil => exact hnil
  | snoc run step ih => exact hstep _ _ _ _ run ih step

/-- A relation that is reflexive, transitive and kept by steps from good states
holds between the two ends of an execution. -/
theorem Exec.relates {T : System σ ℓ} {I : σ → Prop} {R : σ → σ → Prop}
    (hstep : ∀ s l t, I s → T.step s l t → I t)
    (hrefl : ∀ s, R s s) (htrans : ∀ s t u, R s t → R t u → R s u)
    (hrel : ∀ s l t, I s → T.step s l t → R s t)
    {s t : σ} {trace : List (Event σ ℓ)} (run : Exec T s trace t) (h : I s) : R s t := by
  induction run with
  | nil => exact hrefl _
  | snoc run step ih => exact htrans _ _ _ ih (hrel _ _ _ (run.preserves hstep h) step)

/-- What does not hold at first and holds at last begins to hold in some step. -/
theorem Exec.enters {T : System σ ℓ} {Q : σ → Prop} {s t : σ} {trace : List (Event σ ℓ)}
    (run : Exec T s trace t) (hs : ¬ Q s) (ht : Q t) :
    ∃ e ∈ trace, ¬ Q e.before ∧ Q e.after := by
  induction run with
  | nil => exact (hs ht).elim
  | @snoc t u trace l run step ih =>
    by_cases hmid : Q t
    · obtain ⟨e, he, hboth⟩ := ih hmid
      exact ⟨e, List.mem_append_left _ he, hboth⟩
    · exact ⟨⟨t, l, u⟩, List.mem_append_right _ (List.mem_singleton_self _), hmid, ht⟩

/-- Every recorded step was taken between the states recorded with it. -/
theorem Exec.split {T : System σ ℓ} {s t : σ} {trace : List (Event σ ℓ)}
    (run : Exec T s trace t) {e : Event σ ℓ} (he : e ∈ trace) :
    ∃ first second, trace = first ++ e :: second ∧ Exec T s first e.before ∧
      T.step e.before e.label e.after ∧ Exec T e.after second t := by
  induction run with
  | nil => simp at he
  | @snoc t u trace l run step ih =>
    rcases List.mem_append.mp he with hold | hnew
    · obtain ⟨first, second, htrace, hfirst, hstep, hsecond⟩ := ih hold
      refine ⟨first, second ++ [⟨t, l, u⟩], ?_, hfirst, hstep, Exec.snoc hsecond step⟩
      simp [htrace]
    · rw [List.mem_singleton] at hnew
      subst hnew
      exact ⟨trace, [], rfl, run, step, Exec.nil u⟩

/-- What lies past a point of a list with one more element at its end. -/
theorem split_append {α : Type*} {history first later : List α} {a b : α}
    (h : history ++ [b] = first ++ a :: later) :
    (∃ rest, history = first ++ a :: rest ∧ later = rest ++ [b]) ∨
      (history = first ∧ b = a ∧ later = []) := by
  rcases List.eq_nil_or_concat later with rfl | ⟨rest, last, rfl⟩
  · obtain ⟨hfirst, hlast⟩ := List.append_inj' h rfl
    exact .inr ⟨hfirst, List.singleton_inj.mp hlast, rfl⟩
  · rw [List.concat_eq_append, ← List.cons_append, ← List.append_assoc] at h
    obtain ⟨hrest, hlast⟩ := List.append_inj' h rfl
    exact .inl ⟨rest, hrest, by rw [List.concat_eq_append, List.singleton_inj.mp hlast]⟩

/-- An execution can be cut anywhere. -/
theorem Exec.of_append {T : System σ ℓ} {s t : σ} {first second : List (Event σ ℓ)}
    (run : Exec T s (first ++ second) t) : ∃ u, Exec T s first u ∧ Exec T u second t := by
  induction second using List.reverseRecOn generalizing t with
  | nil =>
    rw [List.append_nil] at run
    exact ⟨t, run, Exec.nil t⟩
  | append_singleton rest e ih =>
    rw [← List.append_assoc] at run
    generalize htrace : first ++ rest ++ [e] = trace at run
    cases run with
    | nil => simp at htrace
    | snoc run step =>
      obtain ⟨hfirst, rfl⟩ := List.append_inj' htrace rfl |>.imp_right List.singleton_inj.mp
      obtain ⟨u, hbefore, hrest⟩ := ih (hfirst ▸ run)
      exact ⟨u, hbefore, Exec.snoc hrest step⟩

theorem Exec.of_nil {T : System σ ℓ} {s t : σ} {trace : List (Event σ ℓ)}
    (run : Exec T s trace t) (h : trace = []) : t = s := by
  cases run with
  | nil => rfl
  | snoc => simp at h

theorem Exec.of_cons {T : System σ ℓ} {s t : σ} {e : Event σ ℓ} {rest : List (Event σ ℓ)}
    (run : Exec T s (e :: rest) t) :
    e.before = s ∧ T.step s e.label e.after ∧ Exec T e.after rest t := by
  have hcut : Exec T s ([e] ++ rest) t := run
  obtain ⟨u, hfirst, hrest⟩ := hcut.of_append
  generalize htrace : [e] = trace at hfirst
  cases hfirst with
  | nil => cases htrace
  | snoc before step =>
    have hends : [] ++ [e] = _ ++ [_] := htrace
    obtain ⟨hnil, hlast⟩ := List.append_inj' hends rfl
    obtain rfl := List.singleton_inj.mp hlast
    obtain rfl := before.of_nil hnil.symm
    exact ⟨rfl, step, hrest⟩

/-- A simulation of the steps carries over to executions, label by label. -/
theorem Exec.simulates {T : System σ ℓ} {τ μ : Type*} {U : System τ μ} {R : σ → τ → Prop}
    {f : ℓ → μ}
    (hstep : ∀ s l t a, R s a → T.step s l t → ∃ b, R t b ∧ U.step a (f l) b)
    {s t : σ} {trace : List (Event σ ℓ)} (run : Exec T s trace t) {a : τ} (h : R s a) :
    ∃ b simulated, R t b ∧ Exec U a simulated b ∧
      simulated.map Event.label = trace.map fun event => f event.label := by
  induction run with
  | nil => exact ⟨a, [], h, Exec.nil a, rfl⟩
  | @snoc t u trace l run step ih =>
    obtain ⟨b, simulated, hb, hrun, hlabels⟩ := ih
    obtain ⟨c, hc, hlast⟩ := hstep t l u b hb step
    refine ⟨c, simulated ++ [⟨b, f l, c⟩], hc, Exec.snoc hrun hlast, ?_⟩
    simp [hlabels]

/-- A run on fixed inputs numbers its parties; three show most races. -/
instance instNeZeroThree : NeZero 3 := ⟨by decide⟩

/-- Steps that are computed one after another from shorter labels are an execution, and
what holds of each computed step holds of each recorded one. -/
theorem exec_of_foldlM_via {T : System σ ℓ} {μ : Type*} {label : μ → ℓ} {G : σ → ℓ → Prop}
    {f : σ → μ → Option σ}
    (hstep : ∀ s m t, f s m = some t → T.step s (label m) t ∧ G s (label m)) (moves : List μ)
    {s t : σ} (h : moves.foldlM f s = some t) :
    ∃ trace, Exec T s trace t ∧ ∀ e ∈ trace, G e.before e.label := by
  induction moves generalizing s with
  | nil =>
    rw [List.foldlM_nil] at h
    exact ⟨[], Option.some.inj h ▸ Exec.nil s, by simp⟩
  | cons m rest ih =>
    rw [List.foldlM_cons, Option.bind_eq_bind, Option.bind_eq_some_iff] at h
    obtain ⟨u, hu, hrest⟩ := h
    obtain ⟨trace, run, hguard⟩ := ih hrest
    obtain ⟨hfirst, hholds⟩ := hstep s m u hu
    refine ⟨_, (Exec.single hfirst).append run, fun e he => ?_⟩
    rcases List.mem_cons.mp he with rfl | he
    · exact hholds
    · exact hguard e he

/-- A list of labels whose steps are computed one after another is an execution,
and what holds of each computed step holds of each recorded one. -/
theorem exec_of_foldlM_where {T : System σ ℓ} {G : σ → ℓ → Prop} {f : σ → ℓ → Option σ}
    (hstep : ∀ s l t, f s l = some t → T.step s l t ∧ G s l) (labels : List ℓ) {s t : σ}
    (h : labels.foldlM f s = some t) :
    ∃ trace, Exec T s trace t ∧ ∀ e ∈ trace, G e.before e.label :=
  @exec_of_foldlM_via σ ℓ T ℓ id G f hstep labels s t h

/-- The steps that labels lead to one after another, as far as they can be taken. -/
def eventsOf (f : σ → ℓ → Option σ) : σ → List ℓ → List (Event σ ℓ)
  | _, [] => []
  | s, l :: rest =>
    match f s l with
    | none => []
    | some t => ⟨s, l, t⟩ :: eventsOf f t rest

theorem exec_eventsOf {T : System σ ℓ} {f : σ → ℓ → Option σ}
    (hstep : ∀ s l t, f s l = some t → T.step s l t) (labels : List ℓ) {s t : σ}
    (h : labels.foldlM f s = some t) : Exec T s (eventsOf f s labels) t := by
  induction labels generalizing s with
  | nil =>
    rw [List.foldlM_nil] at h
    exact Option.some.inj h ▸ Exec.nil s
  | cons l rest ih =>
    rw [List.foldlM_cons, Option.bind_eq_bind, Option.bind_eq_some_iff] at h
    obtain ⟨u, hu, hrest⟩ := h
    rw [eventsOf, hu]
    exact (Exec.single (hstep s l u hu)).append (ih hrest)

theorem exec_of_foldlM {T : System σ ℓ} {f : σ → ℓ → Option σ}
    (hstep : ∀ s l t, f s l = some t → T.step s l t) (labels : List ℓ) {s t : σ}
    (h : labels.foldlM f s = some t) : ∃ trace, Exec T s trace t :=
  ⟨_, exec_eventsOf hstep labels h⟩

end Transitions
