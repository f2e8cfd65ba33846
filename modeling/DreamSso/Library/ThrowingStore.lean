import Mathlib.Data.List.Basic

/-!
One item of a storage whose calls may throw, and the rules for what a script of such calls
does to it. A script keeps the calls it made when it throws.
-/
namespace ThrowingStore

/-- The item, and which of the next calls throw; calls behind the list do not. -/
structure Store (α : Type) where
  item : Option α
  faults : List Bool

/-- A script over the store; what it throws carries no value. -/
abbrev Script (α β : Type) := EStateM Unit (Store α) β

variable {α β γ : Type}

/-- A call throws and leaves the item, or does its work. -/
def call (work : Option α → β × Option α) : Script α β := fun s =>
  if s.faults.head? = some true then .error () ⟨s.item, s.faults.tail⟩
  else .ok (work s.item).1 ⟨(work s.item).2, s.faults.tail⟩

/-- A call that only asks for the storage itself. -/
def access : Script α Unit := call fun item => ((), item)

def getItem : Script α (Option α) := call fun item => (item, item)

def setItem (v : α) : Script α Unit := call fun _ => ((), some v)

def removeItem : Script α Unit := call fun _ => ((), none)

theorem tryCatch_run (m : Script α β) (handler : Unit → Script α β) (s : Store α) :
    tryCatch m handler s =
      match m s with
      | .ok b s' => .ok b s'
      | .error e s' => handler e s' := by
  change EStateM.tryCatch m handler s = _
  rw [EStateM.tryCatch]
  cases m s with
  | ok b s' => rfl
  | error e s' => rfl

theorem bind_run (m : Script α γ) (f : γ → Script α β) (s : Store α) :
    (m >>= f) s =
      match m s with
      | .ok c s' => f c s'
      | .error e s' => .error e s' := by
  change EStateM.bind m f s = _
  rw [EStateM.bind]
  cases m s with
  | ok c s' => rfl
  | error e s' => rfl

/-- The store a script leaves, whether it returned or threw. -/
def after (m : Script α β) (s : Store α) : Store α :=
  match m s with
  | .ok _ s' => s'
  | .error _ s' => s'

/-- What a script returned, unless it threw. -/
def result? (m : Script α β) (s : Store α) : Option β :=
  match m s with
  | .ok b _ => some b
  | .error _ _ => none

/-- From a store of `pre`, what the script returns and leaves is in `post`, and what it leaves
when it throws is in `thrown`. -/
def Triple (pre : Store α → Prop) (m : Script α β) (post : β → Store α → Prop)
    (thrown : Store α → Prop) : Prop :=
  ∀ s, pre s → match m s with
    | .ok b s' => post b s'
    | .error _ s' => thrown s'

section Rules

variable {pre pre' thrown thrown' : Store α → Prop} {post post' : β → Store α → Prop}

theorem Triple.weaken {m : Script α β} (h : Triple pre m post thrown) (hpre : ∀ s, pre' s → pre s)
    (hpost : ∀ b s, post b s → post' b s) (hthrown : ∀ s, thrown s → thrown' s) :
    Triple pre' m post' thrown' := by
  intro s hs
  have hm := h s (hpre s hs)
  split
  · next b s' heq =>
    rw [heq] at hm
    exact hpost b s' hm
  · next heq =>
    rw [heq] at hm
    exact hthrown _ hm

theorem Triple.pure {b : β} (h : ∀ s, pre s → post b s) :
    Triple pre (Pure.pure b : Script α β) post thrown := h

theorem Triple.throw (h : ∀ s, pre s → thrown s) :
    Triple pre (MonadExcept.throw () : Script α β) post thrown := h

theorem Triple.bind {m : Script α γ} {f : γ → Script α β} {mid : γ → Store α → Prop}
    (hm : Triple pre m mid thrown) (hf : ∀ c, Triple (mid c) (f c) post thrown) :
    Triple pre (m >>= f) post thrown := by
  intro s hs
  have hfirst := hm s hs
  rw [bind_run]
  cases hrun : m s with
  | ok c s' =>
    rw [hrun] at hfirst
    exact hf c s' hfirst
  | error e s' =>
    rw [hrun] at hfirst
    exact hfirst

theorem Triple.tryCatch {m : Script α β} {handler : Unit → Script α β} {caught : Store α → Prop}
    (hm : Triple pre m post caught) (hhandler : Triple caught (handler ()) post thrown) :
    Triple pre (tryCatch m handler) post thrown := by
  intro s hs
  have hfirst := hm s hs
  rw [tryCatch_run]
  cases hrun : m s with
  | ok c s' =>
    rw [hrun] at hfirst
    exact hfirst
  | error e s' =>
    rw [hrun] at hfirst
    exact hhandler s' hfirst

theorem Triple.ite {c : Prop} [Decidable c] {m n : Script α β}
    (hm : c → Triple pre m post thrown) (hn : ¬ c → Triple pre n post thrown) :
    Triple pre (if c then m else n) post thrown := by
  by_cases hc : c
  · rw [if_pos hc]
    exact hm hc
  · rw [if_neg hc]
    exact hn hc

theorem Triple.call {work : Option α → β × Option α}
    (hdone : ∀ s faults, pre s → post (work s.item).1 ⟨(work s.item).2, faults⟩)
    (hthrown : ∀ s faults, pre s → thrown ⟨s.item, faults⟩) :
    Triple pre (call work) post thrown := by
  intro s hs
  rw [ThrowingStore.call]
  by_cases hfault : s.faults.head? = some true
  · rw [if_pos hfault]
    exact hthrown s _ hs
  · rw [if_neg hfault]
    exact hdone s _ hs

theorem Triple.access {P : Option α → Prop} :
    Triple (fun s => P s.item) (ThrowingStore.access : Script α Unit) (fun _ s => P s.item)
      fun s => P s.item :=
  Triple.call (fun _ _ h => h) fun _ _ h => h

/-- The storage was asked for: one of the faults is used up. -/
theorem Triple.access_exact (item : Option α) (faults : List Bool) :
    Triple (· = ⟨item, faults⟩) (ThrowingStore.access : Script α Unit)
      (fun _ s => s = ⟨item, faults.tail⟩) fun s => s = ⟨item, faults.tail⟩ := by
  rintro _ rfl
  rw [ThrowingStore.access, ThrowingStore.call]
  by_cases hfault : faults.head? = some true
  · rw [if_pos hfault]
  · rw [if_neg hfault]

theorem Triple.getItem {P : Option α → Prop} :
    Triple (fun s => P s.item) (ThrowingStore.getItem : Script α (Option α))
      (fun raw s => P raw ∧ s.item = raw)
      fun s => P s.item :=
  Triple.call (fun _ _ h => ⟨h, rfl⟩) fun _ _ h => h

/-- The item is read, and the rest runs on what was read. -/
theorem Triple.bind_getItem {P : Option α → Prop} {f : Option α → Script α β}
    (hf : ∀ raw, P raw → Triple (fun s => s.item = raw) (f raw) post thrown)
    (hthrown : ∀ s, P s.item → thrown s) :
    Triple (fun s => P s.item) (ThrowingStore.getItem >>= f) post thrown := by
  have hget := Triple.weaken Triple.getItem (fun s h => h) (fun _ _ h => h) hthrown
  refine hget.bind fun raw s hs => ?_
  exact hf raw hs.1 s hs.2

theorem Triple.removeItem {P Q : Option α → Prop} (hnone : Q none)
    (hkeep : ∀ item, P item → Q item) :
    Triple (fun s => P s.item) (ThrowingStore.removeItem : Script α Unit) (fun _ s => Q s.item)
      fun s => Q s.item :=
  Triple.call (fun _ _ _ => hnone) fun s _ h => hkeep s.item h

theorem Triple.setItem {P Q R : Option α → Prop} {v : α} (hnew : Q (some v))
    (hkeep : ∀ item, P item → R item) :
    Triple (fun s => P s.item) (ThrowingStore.setItem v) (fun _ s => Q s.item) fun s => R s.item :=
  Triple.call (fun _ _ _ => hnew) fun s _ h => hkeep s.item h

/-- A triple without throws says what the script leaves. -/
theorem Triple.after {m : Script α β} (h : Triple pre m post fun _ => False) {s : Store α}
    (hs : pre s) : ∃ b, result? m s = some b ∧ post b (after m s) := by
  have hm := h s hs
  rw [result?, ThrowingStore.after]
  cases hrun : m s with
  | ok b s' =>
    rw [hrun] at hm
    exact ⟨b, rfl, hm⟩
  | error e s' =>
    rw [hrun] at hm
    exact absurd hm id

end Rules

@[simp] theorem getItem_working {item : Option α} : getItem ⟨item, []⟩ = .ok item ⟨item, []⟩ :=
  rfl

end ThrowingStore
