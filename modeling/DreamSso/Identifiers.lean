import DreamSso.Library.JsonValues
import DreamSso.Library.KeyedTables
import DreamSso.Library.Fallible
import Mathlib.Data.List.Lex
import Mathlib.Data.Int.Order.Basic
import Mathlib.Order.WithBot

/-!
Identifiers shared by the tables: uuid values with their canonical text, client
ids and role slugs, and the ways a transaction fails. A failing transaction is
rolled back, so a failure carries no database state.
-/
namespace DreamSso

open JsStrings JsonValues KeyedTables

abbrev ClientId := JsString

abbrev Slug := JsString

abbrev PermKey := JsString

/-- Levels are compared as integers; who has none ranks last. -/
instance levelOrder : Preorder (WithTop ℤ) :=
  @WithTop.instPreorder ℤ instLatticeInt.toSemilatticeInf.toPartialOrder.toPreorder

def isHexUnit (u : ℕ) : Bool :=
  isDigitUnit u || (decide (0x61 ≤ u) && decide (u ≤ 0x66))

def lowerUnit (u : ℕ) : ℕ := if 0x41 ≤ u ∧ u ≤ 0x5a then u + 0x20 else u

/-- Eight, four, four, four and twelve lower-case hex digits joined by hyphens. -/
def isUuidText (s : JsString) : Bool :=
  decide (s.length = 36) && s.zipIdx.all fun p =>
    if p.2 ∈ [8, 13, 18, 23] then decide (p.1 = 0x2d) else isHexUnit p.1

/-- A uuid, known by its canonical text. -/
structure Uuid where
  text : JsString
  shape : isUuidText text = true
  deriving DecidableEq

namespace Uuid

theorem text_injective : Function.Injective Uuid.text := by
  intro a b h
  cases a
  cases b
  simpa using h

instance : LinearOrder Uuid := LinearOrder.lift' Uuid.text text_injective

theorem length_text (u : Uuid) : u.text.length = 36 := by
  have h := u.shape
  simp only [isUuidText, Bool.and_eq_true, decide_eq_true_eq] at h
  exact h.1

theorem ascii_text (u : Uuid) (x : ℕ) (hx : x ∈ u.text) : x < 0x80 := by
  have h := u.shape
  simp only [isUuidText, Bool.and_eq_true, List.all_eq_true] at h
  obtain ⟨i, hi⟩ := List.getElem_of_mem hx
  obtain ⟨hlt, hget⟩ := hi
  have hmem : (x, i) ∈ u.text.zipIdx := by
    rw [List.mem_zipIdx_iff_getElem?, List.getElem?_eq_getElem hlt, hget]
  have hx' := h.2 (x, i) hmem
  split at hx'
  · have : x = 0x2d := by simpa using hx'
    omega
  · simp only [isHexUnit, isDigitUnit, Bool.or_eq_true, Bool.and_eq_true,
      decide_eq_true_eq] at hx'
    omega

/-- Uuids that differ in their last digit. -/
def numbered (digit : Fin 10) : Uuid where
  text := js "00000000-0000-4000-8000-00000000000" ++ [0x30 + digit.val]
  shape := by revert digit; decide

/-- The case-insensitive UUID pattern; the database keeps the lower-case text. -/
def parse? (s : JsString) : Option Uuid :=
  if h : isUuidText (s.map lowerUnit) = true then some ⟨s.map lowerUnit, h⟩ else none

theorem parse?_text (u : Uuid) : parse? u.text = some u := by
  have hlower : u.text.map lowerUnit = u.text := by
    have h := u.shape
    simp only [isUuidText, Bool.and_eq_true, List.all_eq_true] at h
    apply List.ext_getElem (by simp)
    intro i hi hi'
    have hmem : (u.text[i], i) ∈ u.text.zipIdx := by
      rw [List.mem_zipIdx_iff_getElem?, List.getElem?_eq_getElem hi']
    have hx := h.2 _ hmem
    rw [List.getElem_map]
    split at hx
    · have : u.text[i] = 0x2d := by simpa using hx
      simp [this, lowerUnit]
    · simp only [isHexUnit, isDigitUnit, Bool.or_eq_true, Bool.and_eq_true,
        decide_eq_true_eq] at hx
      simp only [lowerUnit, ite_eq_right_iff]
      omega
  unfold parse?
  rw [dif_pos (by rw [hlower]; exact u.shape)]
  cases u
  simpa using hlower

end Uuid

/-- What a failed call throws. The body of a role-access error is the JSON the
route answers with. -/
inductive Failure
  | roleAccess (status : ℕ) (body : Json)
  | event (code : String) (status : ℕ)
  | outbox (code : String)
  | error (message : String)
  | database (condition : String)
  deriving DecidableEq

end DreamSso
