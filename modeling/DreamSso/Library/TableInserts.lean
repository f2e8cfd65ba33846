import DreamSso.Library.KeyedTables

/-!
INSERT of a list of rows ON CONFLICT DO NOTHING: a key that is taken keeps its
row, and of several new rows with one key the first is stored.
-/
namespace KeyedTables.Table

variable {κ α : Type*} [DecidableEq κ]

def insertMissing (t : Table κ α) (r : κ × α) : Table κ α :=
  if t.contains r.1 then t else t.upsert r.1 r.2

def insertAll (t : Table κ α) (rows : List (κ × α)) : Table κ α := rows.foldl insertMissing t

theorem find?_insertMissing (t : Table κ α) (r : κ × α) (k : κ) :
    (t.insertMissing r).find? k = (t.find? k).or (if r.1 = k then some r.2 else none) := by
  unfold insertMissing
  by_cases htaken : t.contains r.1 = true
  · obtain ⟨v, hv⟩ := (t.contains_iff r.1).mp htaken
    rw [if_pos htaken]
    by_cases hk : r.1 = k
    · simp [← hk, hv]
    · simp [hk]
  · rw [if_neg htaken, find?_upsert]
    by_cases hk : r.1 = k
    · have hnone : t.find? k = none := by
        rw [← hk]
        simpa [contains] using htaken
      simp [hk, hnone]
    · simp [hk, Ne.symm hk]

theorem find?_insertAll (t : Table κ α) (rows : List (κ × α)) (k : κ) :
    (t.insertAll rows).find? k =
      (t.find? k).or ((rows.find? fun r => decide (r.1 = k)).map Prod.snd) := by
  induction rows generalizing t with
  | nil => simp [insertAll]
  | cons r rest ih =>
    have hrest : (t.insertAll (r :: rest)).find? k = ((t.insertMissing r).insertAll rest).find? k :=
      rfl
    rw [hrest, ih, find?_insertMissing, Option.or_assoc]
    by_cases hk : r.1 = k <;> simp [hk]

theorem insertMissing_taken {t : Table κ α} {r : κ × α} (h : t.contains r.1 = true) :
    t.insertMissing r = t := if_pos h

theorem insertAll_taken {t : Table κ α} {rows : List (κ × α)}
    (h : ∀ r ∈ rows, t.contains r.1 = true) : t.insertAll rows = t := by
  induction rows with
  | nil => rfl
  | cons r rest ih =>
    have hrest : t.insertAll (r :: rest) = (t.insertMissing r).insertAll rest := rfl
    rw [hrest, insertMissing_taken (h r List.mem_cons_self)]
    exact ih fun q hq => h q (List.mem_cons_of_mem r hq)

theorem contains_insertAll (t : Table κ α) (rows : List (κ × α)) (k : κ) :
    (t.insertAll rows).contains k = true ↔ t.contains k = true ∨ ∃ r ∈ rows, r.1 = k := by
  unfold contains
  rw [find?_insertAll, Option.isSome_or, Bool.or_eq_true, Option.isSome_map, List.find?_isSome]
  simp

/-- Into an empty table, a row whose key no other row has is stored as it is. -/
theorem find?_insertAll_of_key {rows : List (κ × α)} {r : κ × α} (hmem : r ∈ rows)
    (hkey : ∀ q ∈ rows, q.1 = r.1 → q = r) :
    ((∅ : Table κ α).insertAll rows).find? r.1 = some r.2 := by
  rw [find?_insertAll, find?_empty, Option.none_or]
  cases hfound : rows.find? fun q => decide (q.1 = r.1) with
  | none =>
    have := List.find?_eq_none.mp hfound r hmem
    simp at this
  | some q =>
    have hq : q.1 = r.1 := by simpa using List.find?_some hfound
    rw [hkey q (List.mem_of_find?_eq_some hfound) hq]
    rfl

theorem mem_of_find?_insertAll {rows : List (κ × α)} {k : κ} {v : α}
    (h : ((∅ : Table κ α).insertAll rows).find? k = some v) : (k, v) ∈ rows := by
  rw [find?_insertAll, find?_empty, Option.none_or, Option.map_eq_some_iff] at h
  obtain ⟨⟨k', v'⟩, hfound, rfl⟩ := h
  have hk : k' = k := by simpa using List.find?_some hfound
  exact hk ▸ List.mem_of_find?_eq_some hfound

end KeyedTables.Table
