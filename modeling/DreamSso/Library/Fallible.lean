import Mathlib.Data.List.Forall2
import Mathlib.Tactic.TypeStar

/-!
Fallible computations in `Except`. A computation that succeeds is taken apart
into the values its steps returned, without unfolding the bind.
-/
namespace Fallible

universe u v

variable {ε : Type u} {α β σ : Type v}

theorem bind_eq_ok {x : Except ε α} {f : α → Except ε β} {b : β} :
    (x >>= f) = .ok b ↔ ∃ a, x = .ok a ∧ f a = .ok b := by
  cases x with
  | error e => simp [bind, Except.bind]
  | ok a => simp [bind, Except.bind]

theorem bind_eq_error {x : Except ε α} {f : α → Except ε β} {e : ε} :
    (x >>= f) = .error e ↔ x = .error e ∨ ∃ a, x = .ok a ∧ f a = .error e := by
  cases x with
  | error e' => simp [bind, Except.bind]
  | ok a => simp [bind, Except.bind]

theorem ok_bind (a : α) (f : α → Except ε β) : (Except.ok a >>= f) = f a := rfl

theorem error_bind (e : ε) (f : α → Except ε β) :
    ((Except.error e : Except ε α) >>= f) = .error e := rfl

/-- A guard that throws when its condition holds. -/
def failIf (c : Bool) (e : ε) : Except ε Unit := if c then .error e else .ok ()

@[simp] theorem failIf_eq_ok {c : Bool} {e : ε} {u : Unit} :
    failIf c e = .ok u ↔ c = false := by
  cases c <;> simp [failIf]

/-- A step that is only taken when its condition holds. -/
def onlyIf (c : Bool) (x : Except ε Unit) : Except ε Unit := if c then x else .ok ()

theorem onlyIf_eq_ok {c : Bool} {x : Except ε Unit} {u : Unit} :
    onlyIf c x = .ok u ↔ (c = true → x = .ok ()) := by
  cases c <;> simp [onlyIf]

/-- A property every step keeps survives a fallible fold. -/
theorem foldlM_preserves {f : σ → α → Except ε σ} (P : σ → Prop) {l : List α} {s t : σ}
    (hstep : ∀ a ∈ l, ∀ s t, P s → f s a = .ok t → P t)
    (h : l.foldlM f s = .ok t) (hs : P s) : P t := by
  induction l generalizing s with
  | nil =>
    simp only [List.foldlM_nil, pure, Except.pure, Except.ok.injEq] at h
    exact h ▸ hs
  | cons a rest ih =>
    rw [List.foldlM_cons, bind_eq_ok] at h
    obtain ⟨s', hs', hrest⟩ := h
    exact ih (fun b hb => hstep b (List.mem_cons_of_mem a hb)) hrest
      (hstep a List.mem_cons_self s s' hs hs')

/-- A failing fold failed at one of its steps. -/
theorem foldlM_eq_error {f : σ → α → Except ε σ} {l : List α} {s : σ} {e : ε}
    (h : l.foldlM f s = .error e) : ∃ a ∈ l, ∃ t, f t a = .error e := by
  induction l generalizing s with
  | nil => simp [pure, Except.pure] at h
  | cons a rest ih =>
    rw [List.foldlM_cons, bind_eq_error] at h
    rcases h with hfirst | ⟨t, -, hrest⟩
    · exact ⟨a, List.mem_cons_self, s, hfirst⟩
    · obtain ⟨b, hb, t', ht'⟩ := ih hrest
      exact ⟨b, List.mem_cons_of_mem a hb, t', ht'⟩

/-- A successful traversal returns the result of each element, in order. -/
theorem mapM_eq_ok {f : α → Except ε β} {l : List α} {r : List β} :
    l.mapM f = .ok r ↔ List.Forall₂ (fun a b => f a = .ok b) l r := by
  induction l generalizing r with
  | nil =>
    rw [List.forall₂_nil_left_iff]
    simp [pure, Except.pure, eq_comm]
  | cons a rest ih =>
    rw [List.mapM_cons, bind_eq_ok]
    constructor
    · rintro ⟨b, hb, h⟩
      obtain ⟨bs, hbs, h⟩ := bind_eq_ok.mp h
      rw [← Except.ok.inj h]
      exact .cons hb (ih.mp hbs)
    · rintro (_ | ⟨hb, hbs⟩)
      exact ⟨_, hb, bind_eq_ok.mpr ⟨_, ih.mpr hbs, rfl⟩⟩

section Forall₂

variable {R : α → β → Prop} {l : List α} {l' : List β}

theorem forall₂_mem_left (h : List.Forall₂ R l l') {a : α} (ha : a ∈ l) : ∃ b ∈ l', R a b := by
  induction h with
  | nil => simp at ha
  | cons hab _ ih =>
    rcases List.mem_cons.mp ha with rfl | hrest
    · exact ⟨_, List.mem_cons_self, hab⟩
    · obtain ⟨b, hb, hab'⟩ := ih hrest
      exact ⟨b, List.mem_cons_of_mem _ hb, hab'⟩

theorem forall₂_mem_right (h : List.Forall₂ R l l') {b : β} (hb : b ∈ l') : ∃ a ∈ l, R a b := by
  obtain ⟨a, ha, hab⟩ := forall₂_mem_left h.flip hb
  exact ⟨a, ha, hab⟩

theorem forall₂_getLast? (h : List.Forall₂ R l l') {b : β} (hb : l'.getLast? = some b) :
    ∃ a, l.getLast? = some a ∧ R a b := by
  rw [List.getLast?_eq_head?_reverse] at hb ⊢
  have hreverse := List.forall₂_reverse_iff.mpr h
  generalize l.reverse = m at *
  generalize l'.reverse = m' at *
  cases hreverse with
  | nil => simp at hb
  | cons hab _ =>
    rw [List.head?_cons, Option.some.injEq] at hb
    exact ⟨_, rfl, hb ▸ hab⟩

end Forall₂

theorem mapM_mem_right {f : α → Except ε β} {l : List α} {r : List β} (h : l.mapM f = .ok r)
    {b : β} (hb : b ∈ r) : ∃ a ∈ l, f a = .ok b := forall₂_mem_right (mapM_eq_ok.mp h) hb

theorem mapM_mem_left {f : α → Except ε β} {l : List α} {r : List β} (h : l.mapM f = .ok r)
    {a : α} (ha : a ∈ l) : ∃ b ∈ r, f a = .ok b := forall₂_mem_left (mapM_eq_ok.mp h) ha

/-- Check the elements in order, stopping at the first failure. -/
def checkAll (f : α → Except ε Unit) : List α → Except ε Unit
  | [] => .ok ()
  | a :: rest => f a >>= fun _ => checkAll f rest

theorem checkAll_eq_ok {f : α → Except ε Unit} {l : List α} :
    checkAll f l = .ok () ↔ ∀ a ∈ l, f a = .ok () := by
  induction l with
  | nil => simp [checkAll]
  | cons a rest ih =>
    cases ha : f a with
    | error e => simp [checkAll, ha, error_bind]
    | ok u => simp [checkAll, ha, ok_bind, ih]

end Fallible
