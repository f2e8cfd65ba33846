import DreamSso.Library.JsonValues
import Mathlib.Data.List.Induction

/-!
Conversions between JavaScript values: trimming, String(value) and the part of
Number(value) that tells small positive integers apart. A numeric text counts as
an integer when it rounds to it in double precision.
-/
namespace JsConversions

open JsStrings JsonValues

/-- White space and line terminators. -/
def isSpaceUnit (u : ℕ) : Bool :=
  decide (u ∈ [0x20, 0xa0, 0x1680, 0x2028, 0x2029, 0x202f, 0x205f, 0x3000, 0xfeff]) ||
    (decide (0x09 ≤ u) && decide (u ≤ 0x0d)) || (decide (0x2000 ≤ u) && decide (u ≤ 0x200a))

def trim (s : JsString) : JsString :=
  ((s.dropWhile isSpaceUnit).reverse.dropWhile isSpaceUnit).reverse

def pointUnits (p : ℕ) : JsString :=
  if p < 0x10000 then [p] else [0xd800 + (p - 0x10000) / 0x400, 0xdc00 + (p - 0x10000) % 0x400]

/-- The text of the first `n` code points. -/
def takePoints (n : ℕ) (s : JsString) : JsString := ((codePoints s).take n).flatMap pointUnits

mutual
/-- String(value). -/
def toText : Json → JsString
  | .null => js "null"
  | .bool true => js "true"
  | .bool false => js "false"
  | .num (.infinite negative) => js (if negative then "-Infinity" else "Infinity")
  | .num n => n.text
  | .str s => s
  | .arr items => List.intercalate [0x2c] (elementTexts items)
  | .obj _ => js "[object Object]"

/-- The elements of an array joined by commas; null is empty. -/
def elementTexts : List Json → List JsString
  | [] => []
  | v :: rest => (if v = .null then [] else toText v) :: elementTexts rest
end

def digitsBelow (base : ℕ) (s : JsString) : Option ℕ :=
  let digit? (u : ℕ) : Option ℕ :=
    let d := if isDigitUnit u then u - 0x30
      else if 0x41 ≤ u ∧ u ≤ 0x46 then u - 0x37
      else if 0x61 ≤ u ∧ u ≤ 0x66 then u - 0x57
      else base
    if d < base then some d else none
  if s = [] then none
  else (s.mapM digit?).map fun ds => ds.foldl (fun acc d => base * acc + d) 0

/-- The sign in front of a numeral and the units behind it. -/
def takeSign : JsString → Bool × JsString
  | 0x2b :: rest => (false, rest)
  | 0x2d :: rest => (true, rest)
  | s => (false, s)

/-- The exponent part of a decimal literal. -/
def exponent? : JsString → Option ℤ
  | [] => some 0
  | e :: rest =>
      if e = 0x65 ∨ e = 0x45 then
        let (negative, digits) := takeSign rest
        if digits ≠ [] ∧ digits.all isDigitUnit then
          some (if negative then -(digitsValue digits : ℤ) else digitsValue digits)
        else none
      else none

/-- A decimal literal as a sign, digits and a power of ten. -/
def decimalLiteral? (s : JsString) : Option (Bool × ℕ × ℤ) :=
  let (negative, s) := takeSign s
  let (whole, s) := (s.takeWhile isDigitUnit, s.dropWhile isDigitUnit)
  let (fraction, s) := match s with
    | 0x2e :: rest => (rest.takeWhile isDigitUnit, rest.dropWhile isDigitUnit)
    | _ => ([], s)
  if whole = [] ∧ fraction = [] then none
  else (exponent? s).map fun e => (negative, digitsValue (whole ++ fraction), e - fraction.length)

/-- The integer from 1 to 9999 that the double nearest to `digits · 10 ^ power`
is, if it is one. Below 2¹⁴ half a unit in the last place of `n` is
`2 ^ (log2 n - 53)`, and half of that below a power of two. -/
def nearWhole? (digits : ℕ) (power : ℤ) : Option ℕ :=
  let top := digits * 10 ^ power.toNat
  let bottom := 10 ^ (-power).toNat
  let n := (2 * top + bottom) / (2 * bottom)
  let above := 2 ^ (n.log2 + 1)
  let below := if 2 ^ n.log2 = n then 2 ^ n.log2 else above
  if 1 ≤ n ∧ n ≤ 9999 ∧ (n * 2 ^ 54 - below) * bottom ≤ top * 2 ^ 54 ∧
      top * 2 ^ 54 ≤ (n * 2 ^ 54 + above) * bottom then some n
  else none

def wholeOfText? (text : JsString) : Option ℕ :=
  let s := trim text
  let inRange (n : Option ℕ) : Option ℕ := n.bind fun n => nearWhole? n 0
  match s with
  | 0x30 :: radix :: digits =>
      if radix = 0x78 ∨ radix = 0x58 then inRange (digitsBelow 16 digits)
      else if radix = 0x6f ∨ radix = 0x4f then inRange (digitsBelow 8 digits)
      else if radix = 0x62 ∨ radix = 0x42 then inRange (digitsBelow 2 digits)
      else (decimalLiteral? s).bind fun d => if d.1 then none else nearWhole? d.2.1 d.2.2
  | _ => (decimalLiteral? s).bind fun d => if d.1 then none else nearWhole? d.2.1 d.2.2

/-- Number(value) when it is an integer from 1 to 9999. -/
def wholeNumber? : Option Json → Option ℕ
  | some (.num (.int n)) => if 1 ≤ n ∧ n ≤ 9999 then some n.toNat else none
  | some (.bool true) => some 1
  | some (.str s) => wholeOfText? s
  | some (.arr items) => wholeOfText? (toText (.arr items))
  | _ => none

example : wholeNumber? (some (.str (js " 1.2e1 "))) = some 12 := by decide +kernel

example : wholeNumber? (some (.arr [.str (js "0x10")])) = some 16 := by decide +kernel

/-- A code point that is no surrogate. -/
def isScalar (p : ℕ) : Bool :=
  decide (p < 0xd800) || (decide (0xdfff < p) && decide (p ≤ 0x10ffff))

/-- A text without NUL and without lone surrogates. -/
def validText (s : JsString) : Bool := !decide (0 ∈ s) && (codePoints s).all isScalar

theorem codePoints_cons {u : ℕ} (h : isHighSurrogate u = false) (rest : JsString) :
    codePoints (u :: rest) = u :: codePoints rest := by
  cases rest with
  | nil => rfl
  | cons v rest => simp [codePoints, h]

theorem isSpaceUnit_plain {u : ℕ} (h : isSpaceUnit u = true) :
    isHighSurrogate u = false ∧ isLowSurrogate u = false := by
  simp only [isSpaceUnit, Bool.or_eq_true, Bool.and_eq_true, decide_eq_true_eq, List.mem_cons,
    List.not_mem_nil, or_false] at h
  simp only [isHighSurrogate, isLowSurrogate, Bool.and_eq_false_iff, decide_eq_false_iff_not]
  omega

/-- A suffix that starts with no low surrogate joins no pair. -/
theorem codePoints_append {s t : JsString} (h : StartsClean t) :
    codePoints (s ++ t) = codePoints s ++ codePoints t := by
  induction s using codePoints.induct with
  | case1 => rfl
  | case2 u =>
    cases t with
    | nil => rfl
    | cons v rest =>
      have hv : isLowSurrogate v = false := h v rfl
      simp [codePoints, hv]
  | case3 u v rest hpair ih =>
    rw [List.cons_append, List.cons_append, codePoints, codePoints, if_pos hpair, if_pos hpair, ih,
      List.cons_append]
  | case4 u v rest hpair ih =>
    rw [List.cons_append, List.cons_append, codePoints, codePoints, if_neg hpair, if_neg hpair,
      ← List.cons_append, ih, List.cons_append]

theorem validText_trim {s : JsString} (h : validText s = true) : validText (trim s) = true := by
  have hfront : ∀ t : JsString, validText t = true →
      validText (t.dropWhile isSpaceUnit) = true := by
    intro t
    induction t with
    | nil => exact id
    | cons u rest ih =>
      intro ht
      rw [List.dropWhile_cons]
      split
      · next hspace =>
        apply ih
        simp only [validText, codePoints_cons (isSpaceUnit_plain hspace).1, List.mem_cons,
          Bool.and_eq_true, Bool.not_eq_true', decide_eq_false_iff_not, not_or, List.all_cons] at ht ⊢
        exact ⟨ht.1.2, ht.2.2⟩
      · exact ht
  have hback : ∀ t : JsString, validText t = true →
      validText (t.reverse.dropWhile isSpaceUnit).reverse = true := by
    intro t
    induction t using List.reverseRec with
    | nil => exact id
    | append_singleton rest u ih =>
      intro ht
      rw [List.reverse_append, List.reverse_singleton, List.singleton_append, List.dropWhile_cons]
      split
      · next hspace =>
        apply ih
        have hclean : StartsClean [u] := by
          intro v hv
          obtain rfl : u = v := Option.some.inj hv
          exact (isSpaceUnit_plain hspace).2
        simp only [validText, codePoints_append hclean, List.mem_append, Bool.and_eq_true,
          Bool.not_eq_true', decide_eq_false_iff_not, not_or, List.all_append] at ht ⊢
        exact ⟨ht.1.1, ht.2.1⟩
      · simpa using ht
  exact hback _ (hfront s h)

theorem codePoints_pointUnits {p : ℕ} (h : isScalar p = true) (rest : JsString) :
    codePoints (pointUnits p ++ rest) = p :: codePoints rest := by
  simp only [isScalar, Bool.or_eq_true, Bool.and_eq_true, decide_eq_true_eq] at h
  unfold pointUnits
  split
  · refine codePoints_cons ?_ rest
    simp only [isHighSurrogate, Bool.and_eq_false_iff, decide_eq_false_iff_not]
    omega
  · next hlarge =>
    have hquotient : (p - 0x10000) / 0x400 < 0x400 := by omega
    have hremainder : (p - 0x10000) % 0x400 < 0x400 := Nat.mod_lt _ (by omega)
    have hsum : (p - 0x10000) / 0x400 * 0x400 + (p - 0x10000) % 0x400 = p - 0x10000 :=
      Nat.div_add_mod' _ _
    generalize (p - 0x10000) / 0x400 = q at *
    generalize (p - 0x10000) % 0x400 = r at *
    have hpair : (isHighSurrogate (0xd800 + q) && isLowSurrogate (0xdc00 + r)) = true := by
      simp only [isHighSurrogate, isLowSurrogate, Bool.and_eq_true, decide_eq_true_eq]
      omega
    have hpoint : 0x10000 + (0xd800 + q - 0xd800) * 0x400 + (0xdc00 + r - 0xdc00) = p := by omega
    rw [List.cons_append, List.cons_append, List.nil_append, codePoints, if_pos hpair, hpoint]

theorem pointUnits_pos {p u : ℕ} (hp : p ≠ 0) (hu : u ∈ pointUnits p) : u ≠ 0 := by
  unfold pointUnits at hu
  split at hu
  · obtain rfl := List.mem_singleton.mp hu
    exact hp
  · simp only [List.mem_cons, List.not_mem_nil, or_false] at hu
    omega

theorem codePoints_pos {s : JsString} (h : 0 ∉ s) : 0 ∉ codePoints s := by
  induction s using codePoints.induct with
  | case1 => exact h
  | case2 u => exact h
  | case3 u v rest hpair ih =>
    rw [codePoints, if_pos hpair, List.mem_cons, not_or]
    refine ⟨by omega, ih fun hrest => h ?_⟩
    exact List.mem_cons_of_mem _ (List.mem_cons_of_mem _ hrest)
  | case4 u v rest hpair ih =>
    rw [codePoints, if_neg hpair, List.mem_cons, not_or]
    exact ⟨fun hu => h (hu ▸ List.mem_cons_self), ih fun hrest => h (List.mem_cons_of_mem _ hrest)⟩

theorem validText_takePoints {s : JsString} (n : ℕ) (h : validText s = true) :
    validText (takePoints n s) = true := by
  simp only [validText, Bool.and_eq_true, Bool.not_eq_true', decide_eq_false_iff_not,
    List.all_eq_true] at h
  have hpoints : ∀ points : List ℕ, (∀ p ∈ points, isScalar p = true) →
      codePoints (points.flatMap pointUnits) = points := by
    intro points
    induction points with
    | nil => intro _; rfl
    | cons p rest ih =>
      intro hall
      rw [List.flatMap_cons, codePoints_pointUnits (hall p List.mem_cons_self),
        ih fun q hq => hall q (List.mem_cons_of_mem p hq)]
  have htaken : ∀ p ∈ (codePoints s).take n, isScalar p = true :=
    fun p hp => h.2 p (List.mem_of_mem_take hp)
  simp only [validText, takePoints, hpoints _ htaken, Bool.and_eq_true, Bool.not_eq_true',
    decide_eq_false_iff_not, List.all_eq_true, List.mem_flatMap, not_exists, not_and]
  refine ⟨?_, htaken⟩
  intro p hp hzero
  have hne : p ≠ 0 := by
    rintro rfl
    exact codePoints_pos h.1 (List.mem_of_mem_take hp)
  exact pointUnits_pos hne hzero rfl

end JsConversions
