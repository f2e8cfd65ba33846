import Mathlib.Logic.Function.Basic
import Mathlib.Data.Int.Order.Basic

/-!
A key-value store whose entries may carry a deadline. Values are typed by their
key. An entry past its deadline is not there any more: no command sees it, and a
write that keeps the time to live of an absent entry stores one without any.
-/
namespace ExpiringStore

structure Stored (α : Type) where
  value : α
  deadline : Option ℤ

def Stored.live {α : Type} (now : ℤ) (e : Stored α) : Bool :=
  e.deadline.all fun d => decide (now < d)

/-- The entries by key. -/
abbrev Store (K : Type) (V : K → Type) := (k : K) → Option (Stored (V k))

variable {K : Type} {V : K → Type}

def visible? (s : Store K V) (now : ℤ) (k : K) : Option (Stored (V k)) :=
  (s k).filter (Stored.live now)

/-- `GET` -/
def get (s : Store K V) (now : ℤ) (k : K) : Option (V k) := (visible? s now k).map Stored.value

theorem visible?_congr {s s' : Store K V} {k : K} (h : s' k = s k) (now : ℤ) :
    visible? s' now k = visible? s now k := by rw [visible?, visible?, h]

theorem get_congr {s s' : Store K V} {k : K} (h : s' k = s k) (now : ℤ) :
    get s' now k = get s now k := by rw [get, get, visible?_congr h]

theorem visible?_of_none {s : Store K V} {k : K} (h : s k = none) (now : ℤ) :
    visible? s now k = none := by rw [visible?, h, Option.filter_none]

theorem get_of_none {s : Store K V} {k : K} (h : s k = none) (now : ℤ) : get s now k = none := by
  rw [get, visible?_of_none h, Option.map_none]

/-- What is stored at a later time was already stored before. -/
theorem visible?_later {s : Store K V} {now later : ℤ} (hle : now ≤ later) {k : K}
    {e : Stored (V k)} (h : visible? s later k = some e) : visible? s now k = some e := by
  rw [visible?, Option.filter_eq_some_iff] at h ⊢
  refine ⟨h.1, ?_⟩
  have hlive := h.2
  rw [Stored.live, Option.all_eq_true_iff_get] at hlive ⊢
  intro hsome
  have := hlive hsome
  simp only [decide_eq_true_eq] at this ⊢
  omega

theorem get_later {s : Store K V} {now later : ℤ} (hle : now ≤ later) {k : K} {v : V k}
    (h : get s later k = some v) : get s now k = some v := by
  obtain ⟨e, he, hv⟩ := Option.map_eq_some_iff.mp h
  rw [get, visible?_later hle he]
  exact congrArg some hv

theorem get_later_none {s : Store K V} {now later : ℤ} (hle : now ≤ later) {k : K}
    (h : get s now k = none) : get s later k = none := by
  cases hlater : get s later k with
  | none => rfl
  | some v => rw [get_later hle hlater] at h; cases h

variable [DecidableEq K]

/-- `SET` with `EX` -/
def setEx (s : Store K V) (k : K) (v : V k) (deadline : ℤ) : Store K V :=
  Function.update s k (some ⟨v, some deadline⟩)

/-- `SET` with `KEEPTTL` -/
def setKeepTtl (s : Store K V) (now : ℤ) (k : K) (v : V k) : Store K V :=
  Function.update s k (some ⟨v, (visible? s now k).bind Stored.deadline⟩)

/-- `DEL` -/
def del (s : Store K V) (keys : List K) : Store K V := fun k => if k ∈ keys then none else s k

/-- `EXPIRE` -/
def expire (s : Store K V) (now : ℤ) (k : K) (deadline : ℤ) : Store K V :=
  Function.update s k ((visible? s now k).map fun e => ⟨e.value, some deadline⟩)

theorem setEx_ne (s : Store K V) {k k' : K} (v : V k) (deadline : ℤ) (h : k' ≠ k) :
    setEx s k v deadline k' = s k' := Function.update_of_ne h _ _

theorem setKeepTtl_ne (s : Store K V) (now : ℤ) {k k' : K} (v : V k) (h : k' ≠ k) :
    setKeepTtl s now k v k' = s k' := Function.update_of_ne h _ _

theorem expire_ne (s : Store K V) (now : ℤ) {k k' : K} (deadline : ℤ) (h : k' ≠ k) :
    expire s now k deadline k' = s k' := Function.update_of_ne h _ _

theorem del_of_mem (s : Store K V) {keys : List K} {k : K} (h : k ∈ keys) :
    del s keys k = none := if_pos h

theorem del_of_notMem (s : Store K V) {keys : List K} {k : K} (h : k ∉ keys) :
    del s keys k = s k := if_neg h

/-- An entry whose value is read back after a write that keeps its time to live. -/
@[simp] theorem get_setKeepTtl_self (s : Store K V) (now : ℤ) (k : K) (v : V k) :
    get (setKeepTtl s now k v) now k = some v := by
  rw [get, visible?, setKeepTtl, Function.update_self]
  have hlive : Stored.live now (⟨v, (visible? s now k).bind Stored.deadline⟩ : Stored (V k)) := by
    rw [Stored.live]
    cases hentry : visible? s now k with
    | none => rfl
    | some e =>
      rw [visible?, Option.filter_eq_some_iff] at hentry
      exact hentry.2
  rw [Option.filter_some, if_pos hlive, Option.map_some]

end ExpiringStore
