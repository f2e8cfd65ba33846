import Mathlib.Data.List.Induction
import Mathlib.Order.Lattice
import Mathlib.Tactic.TypeStar

/-!
Newest-wins registers. A register keeps, of the values offered to it, one of the
greatest rank. What it keeps depends on the set of values offered and not on
their order or repetition, as long as no two of them share a rank.
-/
namespace NewestWins

variable {α ρ : Type*} [LinearOrder ρ] (rank : α → ρ)

/-- Offer one value to a register that may still be empty. -/
def offer : Option α → α → Option α
  | none, incoming => some incoming
  | some kept, incoming => if rank kept < rank incoming then some incoming else some kept

def offerAll (values : List α) : Option α := values.foldl (offer rank) none

theorem offerAll_snoc (values : List α) (incoming : α) :
    offerAll rank (values ++ [incoming]) = offer rank (offerAll rank values) incoming := by
  rw [offerAll, List.foldl_append]
  rfl

theorem offerAll_eq_none {values : List α} : offerAll rank values = none ↔ values = [] := by
  constructor
  · intro h
    cases values using List.reverseRec with
    | nil => rfl
    | append_singleton rest incoming =>
      rw [offerAll_snoc] at h
      cases hrest : offerAll rank rest with
      | none => simp [hrest, offer] at h
      | some top =>
        simp only [hrest, offer] at h
        split at h <;> simp at h
  · rintro rfl
    rfl

/-- The kept value was offered and no offered value outranks it. -/
theorem offerAll_greatest {values : List α} {kept : α} (h : offerAll rank values = some kept) :
    kept ∈ values ∧ ∀ value ∈ values, rank value ≤ rank kept := by
  induction values using List.reverseRec generalizing kept with
  | nil => simp [offerAll] at h
  | append_singleton rest incoming ih =>
    rw [offerAll_snoc] at h
    cases hrest : offerAll rank rest with
    | none =>
      rw [hrest] at h
      obtain rfl : incoming = kept := Option.some.inj h
      have hnil := (offerAll_eq_none rank).mp hrest
      subst hnil
      simp
    | some top =>
      obtain ⟨hmem, hgreatest⟩ := ih hrest
      rw [hrest, offer] at h
      split at h
      · next hlt =>
        obtain rfl : incoming = kept := Option.some.inj h
        refine ⟨by simp, ?_⟩
        intro value hvalue
        rcases List.mem_append.mp hvalue with hold | hnew
        · exact (hgreatest value hold).trans hlt.le
        · rw [List.mem_singleton.mp hnew]
      · next hnot =>
        obtain rfl : top = kept := Option.some.inj h
        refine ⟨List.mem_append_left _ hmem, ?_⟩
        intro value hvalue
        rcases List.mem_append.mp hvalue with hold | hnew
        · exact hgreatest value hold
        · rw [List.mem_singleton.mp hnew]
          exact not_lt.mp hnot

/-- A value that was offered before changes nothing. -/
theorem offer_mem {values : List α} {value : α} (hvalue : value ∈ values) :
    offer rank (offerAll rank values) value = offerAll rank values := by
  cases h : offerAll rank values with
  | none =>
    rw [(offerAll_eq_none rank).mp h] at hvalue
    simp at hvalue
  | some kept =>
    have hle := (offerAll_greatest rank h).2 value hvalue
    simp [offer, not_lt.mpr hle]

end NewestWins
