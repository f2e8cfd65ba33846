import Mathlib.Algebra.Group.Int.Defs
import Mathlib.Algebra.GroupWithZero.Nat
import Mathlib.Data.List.Basic
import Mathlib.Data.List.TakeWhile

/-!
JavaScript strings as lists of UTF-16 code units: literals, code points, UTF-8
length, quoting inside JSON and decimal numerals. Everything is executable.
-/
namespace JsStrings

/-- A JavaScript string as its UTF-16 code units. -/
abbrev JsString := List ℕ

instance : LawfulBEq JsString := inferInstanceAs (LawfulBEq (List ℕ))

def charUnits (c : Char) : List ℕ :=
  if c.toNat < 0x10000 then [c.toNat]
  else [0xd7c0 + c.toNat / 0x400, 0xdc00 + c.toNat % 0x400]

/-- The code units of a literal. An ASCII text is its own bytes, which need no decoding. -/
def js (s : String) : JsString :=
  let bytes := s.toByteArray.data.toList.map UInt8.toNat
  if bytes.all fun b => decide (b < 0x80) then bytes else s.toList.flatMap charUnits

theorem charUnits_ascii (c : Char)
    (h : ∀ b ∈ (String.utf8EncodeChar c).map UInt8.toNat, b < 0x80) :
    (String.utf8EncodeChar c).map UInt8.toNat = charUnits c := by
  have hvalue : c.toNat = c.val.toNat := rfl
  unfold String.utf8EncodeChar at h ⊢
  simp only at h ⊢
  split_ifs at h ⊢ with hone htwo hthree
  · rw [charUnits, if_pos (by omega)]
    simp
    omega
  -- a longer sequence starts with a byte that is not ASCII
  all_goals
    simp at h
    omega

theorem js_eq (s : String) : js s = s.toList.flatMap charUnits := by
  have hbytes : s.toByteArray.data.toList.map UInt8.toNat =
      s.toList.flatMap fun c => (String.utf8EncodeChar c).map UInt8.toNat := by
    rw [← String.utf8Encode_toList, List.utf8Encode, List.data_toByteArray, List.map_flatMap]
  unfold js
  simp only
  split_ifs with hascii
  · rw [hbytes, List.all_eq_true] at hascii
    rw [hbytes]
    refine List.flatMap_congr fun c hc => charUnits_ascii c fun b hb => ?_
    exact of_decide_eq_true (hascii b (List.mem_flatMap.mpr ⟨c, hc, hb⟩))
  · rfl

def isHighSurrogate (u : ℕ) : Bool := decide (0xd800 ≤ u) && decide (u < 0xdc00)

def isLowSurrogate (u : ℕ) : Bool := decide (0xdc00 ≤ u) && decide (u < 0xe000)

/-- Spreading a string gives its code points; a lone surrogate is its own. -/
def codePoints : JsString → List ℕ
  | [] => []
  | [u] => [u]
  | u :: v :: rest =>
      if isHighSurrogate u && isLowSurrogate v then
        (0x10000 + (u - 0xd800) * 0x400 + (v - 0xdc00)) :: codePoints rest
      else u :: codePoints (v :: rest)

/-- UTF-8 length; `high` says that the unit before was a high surrogate, whose
three counted bytes become four with its low half. -/
def byteLengthFrom (high : Bool) : JsString → ℕ
  | [] => 0
  | u :: rest =>
      (if u < 0x80 then 1 else if u < 0x800 then 2
        else if high && isLowSurrogate u then 1 else 3) +
        byteLengthFrom (isHighSurrogate u) rest

def byteLength (s : JsString) : ℕ := byteLengthFrom false s

/-- A text that can be appended without joining a surrogate pair. -/
def StartsClean (s : JsString) : Prop := ∀ u ∈ s.head?, isLowSurrogate u = false

theorem byteLengthFrom_of_clean (high : Bool) (s : JsString) (h : StartsClean s) :
    byteLengthFrom high s = byteLength s := by
  cases s with
  | nil => rfl
  | cons u rest =>
    have hu : isLowSurrogate u = false := h u rfl
    simp [byteLength, byteLengthFrom, hu]

theorem byteLengthFrom_append (high : Bool) (a b : JsString) (h : StartsClean b) :
    byteLengthFrom high (a ++ b) = byteLengthFrom high a + byteLength b := by
  induction a generalizing high with
  | nil => simpa [byteLengthFrom] using byteLengthFrom_of_clean high b h
  | cons u rest ih =>
    simp only [List.cons_append, byteLengthFrom, ih]
    omega

theorem byteLength_append (a b : JsString) (h : StartsClean b) :
    byteLength (a ++ b) = byteLength a + byteLength b := byteLengthFrom_append false a b h

theorem startsClean_cons (u : ℕ) (rest : JsString) (h : isLowSurrogate u = false) :
    StartsClean (u :: rest) := by
  intro w hw
  simp only [List.head?_cons, Option.mem_def, Option.some.injEq] at hw
  exact hw ▸ h

theorem startsClean_append (a b : JsString) (ha : StartsClean a) (hb : StartsClean b) :
    StartsClean (a ++ b) := by
  cases a with
  | nil => exact hb
  | cons u rest => exact startsClean_cons u _ (ha u rfl)

def hexDigit (n : ℕ) : ℕ := if n < 10 then 0x30 + n else 0x57 + n

/-- The lower-case escape of one unit. -/
def unicodeEscape (u : ℕ) : JsString :=
  [0x5c, 0x75, hexDigit (u / 0x1000 % 16), hexDigit (u / 0x100 % 16),
    hexDigit (u / 0x10 % 16), hexDigit (u % 16)]

/-- A unit outside the surrogates inside a quoted string. -/
def quoteUnit (u : ℕ) : JsString :=
  if u = 0x22 then [0x5c, 0x22] else if u = 0x5c then [0x5c, 0x5c]
  else if u = 0x08 then [0x5c, 0x62] else if u = 0x09 then [0x5c, 0x74]
  else if u = 0x0a then [0x5c, 0x6e] else if u = 0x0c then [0x5c, 0x66]
  else if u = 0x0d then [0x5c, 0x72] else if u < 0x20 then unicodeEscape u
  else [u]

/-- The body of a quoted string. Paired surrogates are kept, lone ones escaped. -/
def quoteFrom (high : Bool) : JsString → JsString
  | [] => []
  | u :: rest =>
      (if isHighSurrogate u then
          if rest.head?.any isLowSurrogate then [u] else unicodeEscape u
        else if isLowSurrogate u then if high then [u] else unicodeEscape u
        else quoteUnit u) ++ quoteFrom (isHighSurrogate u) rest

def quote (s : JsString) : JsString := 0x22 :: (quoteFrom false s ++ [0x22])

def decimal (n : ℕ) : JsString := (Nat.toDigits 10 n).map Char.toNat

def intText : ℤ → JsString
  | .ofNat n => decimal n
  | .negSucc n => 0x2d :: decimal (n + 1)

def isDigitUnit (u : ℕ) : Bool := decide (0x30 ≤ u) && decide (u ≤ 0x39)

/-- The number a run of digits denotes. -/
def digitsValue (s : JsString) : ℕ := s.foldl (fun acc u => 10 * acc + (u - 0x30)) 0

theorem decimal_digit (n u : ℕ) (hu : u ∈ decimal n) : isDigitUnit u = true := by
  obtain ⟨c, hc, rfl⟩ := List.mem_map.mp hu
  have hdigit := Nat.isDigit_of_mem_toDigits (by omega) (by omega) hc
  simp only [Char.isDigit, Bool.and_eq_true, decide_eq_true_eq] at hdigit
  simp only [isDigitUnit, Bool.and_eq_true, decide_eq_true_eq]
  exact ⟨hdigit.1, hdigit.2⟩

theorem decimal_ne_nil (n : ℕ) : decimal n ≠ [] := by
  simp [decimal, Nat.toDigits_ne_nil]

theorem digitsValue_decimal (n : ℕ) : digitsValue (decimal n) = n := by
  have h := Nat.ofDigitChars_ten_toDigits (n := n)
  rw [Nat.ofDigitChars_eq_foldl] at h
  rw [digitsValue, decimal, List.foldl_map]
  exact h

theorem startsClean_of_ascii (s : JsString) (h : ∀ u ∈ s, u < 0x80) : StartsClean s := by
  intro u hu
  have hlt := h u (List.mem_of_mem_head? hu)
  simp only [isLowSurrogate, Bool.and_eq_false_iff, decide_eq_false_iff_not]
  omega

theorem decimal_ascii (n u : ℕ) (hu : u ∈ decimal n) : u < 0x80 := by
  have h := decimal_digit n u hu
  simp only [isDigitUnit, Bool.and_eq_true, decide_eq_true_eq] at h
  omega

theorem intText_ascii (n : ℤ) (u : ℕ) (hu : u ∈ intText n) : u < 0x80 := by
  cases n with
  | ofNat k => exact decimal_ascii k u hu
  | negSucc k =>
    rcases List.mem_cons.mp hu with rfl | hu
    · omega
    · exact decimal_ascii (k + 1) u hu

theorem byteLengthFrom_ascii (high : Bool) (s : JsString) (h : ∀ u ∈ s, u < 0x80) :
    byteLengthFrom high s = s.length := by
  induction s generalizing high with
  | nil => rfl
  | cons u rest ih =>
    have hu : u < 0x80 := h u List.mem_cons_self
    have hrest := ih (isHighSurrogate u) fun v hv => h v (List.mem_cons_of_mem u hv)
    simp only [byteLengthFrom, if_pos hu, hrest, List.length_cons]
    omega

/-- A unit that JSON writes as it is, in one byte. -/
def Plain (u : ℕ) : Prop := 0x20 ≤ u ∧ u < 0x80 ∧ u ≠ 0x22 ∧ u ≠ 0x5c

theorem quoteFrom_plain {high : Bool} {s : JsString} (h : ∀ u ∈ s, Plain u) :
    quoteFrom high s = s := by
  induction s generalizing high with
  | nil => rfl
  | cons u rest ih =>
    obtain ⟨hspace, hlt, hquote, hslash⟩ := h u List.mem_cons_self
    have hhigh : isHighSurrogate u = false := by
      simp only [isHighSurrogate, Bool.and_eq_false_iff, decide_eq_false_iff_not]
      omega
    have hlow : isLowSurrogate u = false := by
      simp only [isLowSurrogate, Bool.and_eq_false_iff, decide_eq_false_iff_not]
      omega
    have hunit : quoteUnit u = [u] := by
      unfold quoteUnit
      split_ifs <;> first | omega | rfl
    rw [quoteFrom, hhigh, hlow, hunit, ih fun v hv => h v (List.mem_cons_of_mem u hv)]
    rfl

theorem quote_plain_bytes {s : JsString} (h : ∀ u ∈ s, Plain u) :
    byteLength (quote s) = s.length + 2 := by
  have hascii : ∀ u ∈ 0x22 :: (s ++ [0x22]), u < 0x80 := by
    intro u hu
    rw [List.mem_cons, List.mem_append, List.mem_singleton] at hu
    rcases hu with rfl | hu | rfl
    · decide
    · exact (h u hu).2.1
    · decide
  rw [quote, quoteFrom_plain h, byteLength, byteLengthFrom_ascii _ _ hascii]
  simp

theorem decimal_plain {n u : ℕ} (h : u ∈ decimal n) : Plain u := by
  have hdigit := decimal_digit n u h
  simp only [isDigitUnit, Bool.and_eq_true, decide_eq_true_eq] at hdigit
  unfold Plain
  omega

theorem decimal_length_succ (n : ℕ) : (decimal (n + 1)).length ≤ (decimal n).length + 1 := by
  have hlength : ∀ m, (decimal m).length = (Nat.toDigits 10 m).length := fun m => List.length_map _
  have hlt : n < 10 ^ (decimal n).length := by
    rw [hlength]
    exact (Nat.length_toDigits_le_iff (by decide) Nat.length_toDigits_pos).mp le_rfl
  rw [hlength (n + 1), Nat.length_toDigits_le_iff (by decide) (Nat.succ_pos _), Nat.pow_succ]
  omega

end JsStrings
