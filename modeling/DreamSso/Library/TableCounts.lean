import DreamSso.Library.KeyedTables
import Mathlib.Data.List.Count

/-!
Counting the rows of a table, and looking one up in the rows a query lists. A
DELETE that names one key takes away at most one row, and one that names no row of
a query leaves the query alone.
-/
namespace KeyedTables.Table

variable {κ α : Type*}

theorem rows_deleteWhere (t : Table κ α) (p : κ → α → Bool) :
    (t.deleteWhere p).rows = t.rows.filter fun r => !p r.1 r.2 := by
  simp only [rows, deleteWhere, List.filter_map]
  rfl

/-- A DELETE keeps a query that lists none of the rows it names. -/
theorem filter_deleteWhere (t : Table κ α) (p : κ → α → Bool) {q : κ × α → Bool}
    (h : ∀ k v, p k v = true → q (k, v) = false) :
    (t.deleteWhere p).rows.filter q = t.rows.filter q := by
  rw [rows_deleteWhere, List.filter_filter]
  refine List.filter_congr fun r _ => ?_
  cases hp : p r.1 r.2 with
  | false => simp
  | true => simp [h r.1 r.2 hp]

/-- The rows that are left and the rows that were deleted. -/
theorem countP_deleteWhere_add (t : Table κ α) (p : κ → α → Bool) (q : κ × α → Bool) :
    (t.deleteWhere p).rows.countP q + t.rows.countP (fun r => q r && p r.1 r.2) =
      t.rows.countP q := by
  rw [rows_deleteWhere, List.countP_filter]
  induction t.rows with
  | nil => rfl
  | cons r rest ih =>
    simp only [List.countP_cons]
    cases q r <;> cases p r.1 r.2 <;> simp <;> omega

theorem countP_key_le_one [DecidableEq κ] (t : Table κ α) (k : κ) {p : κ × α → Bool}
    (hp : ∀ r, p r = true → r.1 = k) : t.rows.countP p ≤ 1 := by
  have hkeys : t.rows.map Prod.fst = t.keys := by
    simp only [rows, keys, AList.keys, List.keys, List.map_map]
    rfl
  calc t.rows.countP p
      ≤ t.rows.countP fun r => decide (r.1 = k) :=
        List.countP_mono_left fun r _ h => decide_eq_true (hp r h)
    _ = t.keys.count k := by
        rw [← hkeys, List.count, List.countP_map]
        rfl
    _ ≤ 1 := List.nodup_iff_count_le_one.mp t.keys_nodup k

theorem countP_eq_zero_of_find? [DecidableEq κ] (t : Table κ α) (k : κ) {p : κ × α → Bool}
    (hp : ∀ r, p r = true → r.1 = k) (hfind : ∀ v, t.find? k = some v → p (k, v) = false) :
    t.rows.countP p = 0 := by
  refine List.countP_eq_zero.mpr fun r hr h => ?_
  obtain ⟨k', v⟩ := r
  obtain rfl : k' = k := hp _ h
  rw [hfind v ((t.mem_rows_iff _ _).mp hr)] at h
  cases h

/-- In a list that gives each key one value, the value is the one found. -/
theorem lookup_eq_of_unique [BEq κ] [LawfulBEq κ] {l : List (κ × α)} {k : κ} {found : Option α}
    (h : ∀ v, (k, v) ∈ l ↔ found = some v) : l.lookup k = found := by
  cases hlookup : l.lookup k with
  | none =>
    cases hfound : found with
    | none => rfl
    | some v =>
      have hmem := (h v).mpr hfound
      have := List.lookup_eq_none_iff.mp hlookup _ hmem
      simp at this
  | some v =>
    obtain ⟨first, second, heq, -⟩ := List.lookup_eq_some_iff.mp hlookup
    have hmem : (k, v) ∈ l := heq ▸ List.mem_append_right _ List.mem_cons_self
    exact ((h v).mp hmem).symm

end KeyedTables.Table
