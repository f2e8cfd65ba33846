import Mathlib.Data.List.Basic
import Mathlib.Data.List.Infix

/-!
Searching a text for its first occurrence of a mark. What is found depends on the text
up to the mark only.
-/
namespace TextSearch

variable {α : Type*} [DecidableEq α]

/-- What stands before and behind the first occurrence of the mark. -/
def cut (mark : List α) : List α → Option (List α × List α)
  | [] => none
  | c :: rest =>
      if mark.isPrefixOf (c :: rest) then some ([], (c :: rest).drop mark.length)
      else (cut mark rest).map fun found => (c :: found.1, found.2)

theorem cut_eq {mark s before behind : List α} (h : cut mark s = some (before, behind)) :
    s = before ++ mark ++ behind := by
  induction s generalizing before with
  | nil => cases h
  | cons c rest ih =>
    unfold cut at h
    split_ifs at h with hprefix
    · obtain ⟨rfl, rfl⟩ := Prod.mk.inj (Option.some.inj h)
      obtain ⟨behind, hbehind⟩ := List.isPrefixOf_iff_prefix.mp hprefix
      rw [← hbehind, List.drop_left, List.nil_append]
    · obtain ⟨⟨found, behind'⟩, hfound, heq⟩ := Option.map_eq_some_iff.mp h
      obtain ⟨rfl, rfl⟩ := Prod.mk.inj heq
      rw [ih hfound]
      rfl

theorem cut_mark {mark : List α} (hmark : mark ≠ []) (behind : List α) :
    cut mark (mark ++ behind) = some ([], behind) := by
  have hprefix : mark.isPrefixOf (mark ++ behind) = true :=
    List.isPrefixOf_iff_prefix.mpr (List.prefix_append ..)
  cases hs : mark ++ behind with
  | nil => exact (hmark (List.append_eq_nil_iff.mp hs).1).elim
  | cons c rest =>
    rw [hs] at hprefix
    rw [cut, if_pos hprefix, ← hs, List.drop_left]

/-- The first mark is found where it was when something else stands behind it. -/
theorem cut_same {mark s before behind : List α} (hmark : mark ≠ [])
    (h : cut mark s = some (before, behind)) (other : List α) :
    cut mark (before ++ mark ++ other) = some (before, other) := by
  induction s generalizing before with
  | nil => cases h
  | cons c rest ih =>
    have hwhole := cut_eq h
    unfold cut at h
    split_ifs at h with hprefix
    · obtain ⟨rfl, -⟩ := Prod.mk.inj (Option.some.inj h)
      rw [List.nil_append]
      exact cut_mark hmark other
    · obtain ⟨⟨found, behind'⟩, hfound, heq⟩ := Option.map_eq_some_iff.mp h
      obtain ⟨rfl, rfl⟩ := Prod.mk.inj heq
      have hother : ¬ mark.isPrefixOf (c :: (found ++ mark ++ other)) = true := by
        intro hnew
        apply hprefix
        rw [List.isPrefixOf_iff_prefix] at hnew ⊢
        -- the mark is shorter than what the two texts share
        have hshared : mark <+: c :: (found ++ mark) := by
          refine List.prefix_of_prefix_length_le hnew ?_ ?_
          · exact ⟨other, by simp⟩
          · simp only [List.length_cons, List.length_append]
            omega
        rw [hwhole]
        exact hshared.trans ⟨behind', by simp⟩
      rw [List.cons_append, List.cons_append, cut, if_neg hother, ih hfound]
      rfl

end TextSearch
