import Mathlib.Data.List.AList
import Mathlib.Data.List.Sort

/-!
Relational tables with a unique key. A table is a finite association list
without repeated keys, so a unique constraint holds by construction and every
statement about a table can be made through the row stored under a key.
Row order carries no meaning; a query that orders its result sorts the keys.
-/
namespace KeyedTables

/-- A finite table holding at most one row for each key. -/
structure Table (κ : Type*) (α : Type*) where
  entries : AList (fun _ : κ => α)

namespace Table

variable {κ α : Type*}

instance : EmptyCollection (Table κ α) := ⟨⟨∅⟩⟩

instance : Inhabited (Table κ α) := ⟨∅⟩

def rows (t : Table κ α) : List (κ × α) := t.entries.entries.map fun s => (s.1, s.2)

def keys (t : Table κ α) : List κ := t.entries.keys

theorem keys_nodup (t : Table κ α) : t.keys.Nodup := t.entries.keys_nodup

/-- DELETE: drop the rows on which `p` holds. -/
def deleteWhere (t : Table κ α) (p : κ → α → Bool) : Table κ α :=
  ⟨⟨t.entries.entries.filter fun s => !p s.1 s.2,
    List.NodupKeys.sublist List.filter_sublist t.entries.nodupKeys⟩⟩

/-- UPDATE: replace the rows on which `p` holds by `f`, keeping their keys. -/
def updateWhere (t : Table κ α) (p : κ → α → Bool) (f : κ → α → α) : Table κ α :=
  ⟨⟨t.entries.entries.map fun s => ⟨s.1, if p s.1 s.2 then f s.1 s.2 else s.2⟩,
    List.NodupKeys.map₂ (fun k v => if p k v then f k v else v) _ t.entries.nodupKeys⟩⟩

/-- SELECT EXISTS over the whole table. -/
def any (t : Table κ α) (p : κ → α → Bool) : Bool := t.rows.any fun r => p r.1 r.2

section Lookup

variable [DecidableEq κ]

/-- The row stored under a key. -/
def find? (t : Table κ α) (k : κ) : Option α := t.entries.lookup k

/-- INSERT with ON CONFLICT DO UPDATE: afterwards the key holds exactly `v`. -/
def upsert (t : Table κ α) (k : κ) (v : α) : Table κ α := ⟨t.entries.insert k v⟩

/-- INSERT without a conflict clause: `none` is the unique violation. -/
def insertNew (t : Table κ α) (k : κ) (v : α) : Option (Table κ α) :=
  match t.find? k with
  | none => some (t.upsert k v)
  | some _ => none

def contains (t : Table κ α) (k : κ) : Bool := (t.find? k).isSome

instance [DecidableEq α] : DecidableEq (Table κ α) := fun s t =>
  decidable_of_iff (s.entries = t.entries) (by cases s; cases t; simp)

@[simp] theorem find?_empty (k : κ) : (∅ : Table κ α).find? k = none := AList.lookup_empty k

@[simp] theorem find?_upsert_self (t : Table κ α) (k : κ) (v : α) :
    (t.upsert k v).find? k = some v := AList.lookup_insert t.entries

theorem find?_upsert_ne (t : Table κ α) {k k' : κ} (v : α) (h : k' ≠ k) :
    (t.upsert k v).find? k' = t.find? k' := AList.lookup_insert_ne h

theorem find?_upsert (t : Table κ α) (k k' : κ) (v : α) :
    (t.upsert k v).find? k' = if k' = k then some v else t.find? k' := by
  split
  · next h => rw [h, find?_upsert_self]
  · next h => exact find?_upsert_ne t v h

/-- A row is listed exactly when its key looks it up. -/
theorem mem_rows_iff (t : Table κ α) (k : κ) (v : α) :
    (k, v) ∈ t.rows ↔ t.find? k = some v := by
  have hmem : (k, v) ∈ t.rows ↔ (⟨k, v⟩ : Σ _ : κ, α) ∈ t.entries.entries := by
    simp only [rows, List.mem_map, Prod.mk.injEq]
    constructor
    · rintro ⟨s, hs, rfl, rfl⟩
      exact hs
    · intro h
      exact ⟨_, h, rfl, rfl⟩
  rw [hmem]
  exact (List.mem_dlookup_iff t.entries.nodupKeys).symm

theorem mem_keys_iff (t : Table κ α) (k : κ) : k ∈ t.keys ↔ ∃ v, t.find? k = some v := by
  have h : k ∈ t.keys ↔ (t.entries.lookup k).isSome := AList.lookup_isSome.symm
  rw [h, Option.isSome_iff_exists]
  rfl

@[simp] theorem find?_deleteWhere (t : Table κ α) (p : κ → α → Bool) (k : κ) :
    (t.deleteWhere p).find? k = (t.find? k).filter fun v => !p k v := by
  apply Option.ext
  intro v
  have hrow : (⟨k, v⟩ : Σ _ : κ, α) ∈ t.entries.entries ↔ t.find? k = some v :=
    (List.mem_dlookup_iff t.entries.nodupKeys).symm
  have hleft : (t.deleteWhere p).find? k = some v ↔
      (⟨k, v⟩ : Σ _ : κ, α) ∈ (t.deleteWhere p).entries.entries :=
    List.mem_dlookup_iff (t.deleteWhere p).entries.nodupKeys
  rw [hleft]
  simp only [deleteWhere, List.mem_filter, Option.filter_eq_some_iff, hrow]

theorem find?_deleteWhere_kept (t : Table κ α) {p : κ → α → Bool} {k : κ}
    (h : ∀ v, t.find? k = some v → p k v = false) : (t.deleteWhere p).find? k = t.find? k := by
  rw [find?_deleteWhere]
  cases hk : t.find? k with
  | none => rfl
  | some v => simp [h v hk]

@[simp] theorem find?_updateWhere (t : Table κ α) (p : κ → α → Bool) (f : κ → α → α) (k : κ) :
    (t.updateWhere p f).find? k = (t.find? k).map fun v => if p k v then f k v else v :=
  @List.dlookup_map₂ κ _ (fun _ => α) (fun _ => α) t.entries.entries
    (fun k v => if p k v then f k v else v) k

theorem any_eq_true_iff (t : Table κ α) (p : κ → α → Bool) :
    t.any p = true ↔ ∃ k v, t.find? k = some v ∧ p k v = true := by
  simp only [any, List.any_eq_true, Prod.exists, mem_rows_iff]

theorem any_eq_false_iff (t : Table κ α) (p : κ → α → Bool) :
    t.any p = false ↔ ∀ k v, t.find? k = some v → p k v = false := by
  constructor
  · intro h k v hv
    by_contra hp
    have htrue : t.any p = true :=
      (any_eq_true_iff t p).mpr ⟨k, v, hv, by simpa using hp⟩
    simp [h] at htrue
  · intro h
    by_contra hany
    obtain ⟨k, v, hv, hp⟩ := (any_eq_true_iff t p).mp (by simpa using hany)
    simp [h k v hv] at hp

theorem insertNew_eq_some (t t' : Table κ α) (k : κ) (v : α) :
    t.insertNew k v = some t' ↔ t.find? k = none ∧ t' = t.upsert k v := by
  unfold insertNew
  cases h : t.find? k with
  | none => simp [eq_comm]
  | some w => simp

theorem contains_iff (t : Table κ α) (k : κ) : t.contains k = true ↔ ∃ v, t.find? k = some v :=
  Option.isSome_iff_exists

theorem contains_upsert (t : Table κ α) (k k' : κ) (v : α) :
    (t.upsert k v).contains k' = (decide (k' = k) || t.contains k') := by
  simp only [contains, find?_upsert]
  split <;> simp [*]

end Lookup

section Ordered

variable [DecidableEq κ] [LE κ] [DecidableLE κ]

/-- SELECT key ... ORDER BY key. -/
def orderedKeys (t : Table κ α) : List κ := t.keys.insertionSort (· ≤ ·)

omit [DecidableEq κ] in
theorem orderedKeys_nodup (t : Table κ α) : t.orderedKeys.Nodup :=
  (List.perm_insertionSort _ _).nodup_iff.mpr t.keys_nodup

theorem mem_orderedKeys_iff (t : Table κ α) (k : κ) :
    k ∈ t.orderedKeys ↔ ∃ v, t.find? k = some v := by
  rw [← mem_keys_iff]
  exact (List.perm_insertionSort _ _).mem_iff

end Ordered

end Table

end KeyedTables
