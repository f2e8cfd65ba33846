import DreamSso.Library.ExpiringStore
import Mathlib.Data.Int.DivMod

/-!
Further commands of a key-value store with deadlines: the remaining time to
live, and a write that only creates. What an entry's deadline is after each write
is stated once for the writes.
-/
namespace ExpiringStore

variable {K : Type} {V : K → Type}

/-- `TTL`: whole seconds, rounded to the nearest; -2 without an entry and -1
without a deadline. The clock counts milliseconds. -/
def ttl (s : Store K V) (now : ℤ) (k : K) : ℤ :=
  match visible? s now k with
  | none => -2
  | some e => match e.deadline with
    | none => -1
    | some d => (d - now + 500) / 1000

/-- `EXISTS` -/
def holds (s : Store K V) (now : ℤ) (k : K) : Bool := (get s now k).isSome

/-- An entry that can be seen is stored and has not reached its deadline. -/
theorem visible?_eq_some_iff {s : Store K V} {now : ℤ} {k : K} {e : Stored (V k)} :
    visible? s now k = some e ↔ s k = some e ∧ ∀ d, e.deadline = some d → now < d := by
  rw [visible?, Option.filter_eq_some_iff, Stored.live, Option.all_eq_true_iff_get]
  refine and_congr_right fun _ => ?_
  constructor
  · intro h d hd
    have := h (by rw [hd]; rfl)
    simpa [hd] using this
  · intro h hsome
    obtain ⟨d, hd⟩ := Option.isSome_iff_exists.mp hsome
    simpa [hd] using h d hd

theorem get_eq_some_iff {s : Store K V} {now : ℤ} {k : K} {v : V k} :
    get s now k = some v ↔ ∃ e, s k = some e ∧ e.value = v ∧ ∀ d, e.deadline = some d → now < d := by
  rw [get, Option.map_eq_some_iff]
  constructor
  · rintro ⟨e, he, hv⟩
    rw [visible?_eq_some_iff] at he
    exact ⟨e, he.1, hv, he.2⟩
  · rintro ⟨e, he, hv, hlive⟩
    exact ⟨e, visible?_eq_some_iff.mpr ⟨he, hlive⟩, hv⟩

variable [DecidableEq K]

theorem setEx_self (s : Store K V) (k : K) (v : V k) (deadline : ℤ) :
    setEx s k v deadline k = some ⟨v, some deadline⟩ := Function.update_self ..

theorem setKeepTtl_self (s : Store K V) (now : ℤ) (k : K) (v : V k) :
    setKeepTtl s now k v k = some ⟨v, (visible? s now k).bind Stored.deadline⟩ :=
  Function.update_self ..

theorem expire_self (s : Store K V) (now : ℤ) (k : K) (deadline : ℤ) :
    expire s now k deadline k = (visible? s now k).map fun e => ⟨e.value, some deadline⟩ :=
  Function.update_self ..

end ExpiringStore
