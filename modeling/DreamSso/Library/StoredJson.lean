import DreamSso.Library.JsonValues
import Mathlib.Data.List.Lex

/-!
What PostgreSQL keeps of a JavaScript string or value. A text parameter is
sent as UTF-8, so a lone surrogate becomes the replacement character and NUL is
refused. A jsonb column refuses both inside strings and orders the keys of
every object by length and then by code points. Neither makes the JSON text of
a value longer.
-/
namespace StoredJson

open JsStrings JsonValues

/-- Lone surrogates replaced by U+FFFD; `high` says the unit before was high. -/
def wellFormedFrom (high : Bool) : JsString → JsString
  | [] => []
  | u :: rest =>
      (if isHighSurrogate u then if rest.head?.any isLowSurrogate then u else 0xfffd
        else if isLowSurrogate u then if high then u else 0xfffd
        else u) :: wellFormedFrom (isHighSurrogate u) rest

/-- The text a column stores for a string parameter. -/
def textInput (s : JsString) : Option JsString :=
  if 0 ∈ s then none else some (wellFormedFrom false s)

def storableString (s : JsString) : Bool := !decide (0 ∈ s) && decide (wellFormedFrom false s = s)

mutual
def storable : Json → Bool
  | .null => true
  | .bool _ => true
  | .num _ => true
  | .str s => storableString s
  | .arr items => storableItems items
  | .obj members => storableMembers members

def storableItems : List Json → Bool
  | [] => true
  | v :: rest => storable v && storableItems rest

def storableMembers : List (JsString × Json) → Bool
  | [] => true
  | (k, v) :: rest => storableString k && storable v && storableMembers rest
end

/-- The key order of a stored object: shorter keys first, then by code points. -/
def jsonbKeyLE (a b : JsString) : Bool :=
  decide (byteLength a < byteLength b) ||
    (decide (byteLength a = byteLength b) && decide (codePoints a ≤ codePoints b))

/-- The JSON text of a value as a jsonb column stores it; `none` when it is refused. -/
def jsonbInput (v : Json) : Option Json :=
  if storable v then some (v.printed.sortKeys jsonbKeyLE) else none

theorem jsonbInput_bytes {v w : Json} (h : jsonbInput v = some w) :
    byteLength w.stringify = byteLength v.stringify := by
  unfold jsonbInput at h
  split at h
  · simp only [Option.some.injEq] at h
    rw [← h, Json.byteLength_sortKeys, Json.stringify_printed]
  · simp at h

private def lastHigh (high : Bool) (a : JsString) : Bool :=
  (a.getLast?.map isHighSurrogate).getD high

private theorem bytesFrom_append (high : Bool) (a b : JsString) :
    byteLengthFrom high (a ++ b) = byteLengthFrom high a + byteLengthFrom (lastHigh high a) b := by
  induction a generalizing high with
  | nil => simp [lastHigh, byteLengthFrom]
  | cons u rest ih =>
    have hlast : lastHigh high (u :: rest) = lastHigh (isHighSurrogate u) rest := by
      cases rest <;> simp [lastHigh, List.getLast?_cons]
    simp only [List.cons_append, byteLengthFrom, ih, hlast]
    omega

private theorem not_high_of_low {u : ℕ} (h : isLowSurrogate u = true) :
    isHighSurrogate u = false := by
  simp only [isLowSurrogate, isHighSurrogate, Bool.and_eq_true, decide_eq_true_eq,
    Bool.and_eq_false_iff, decide_eq_false_iff_not] at h ⊢
  omega

private theorem not_low_of_high {u : ℕ} (h : isHighSurrogate u = true) :
    isLowSurrogate u = false := by
  by_contra hlow
  have := not_high_of_low (by simpa using hlow : isLowSurrogate u = true)
  simp [this] at h

private theorem escape_bytes (high : Bool) (u : ℕ) (rest : JsString) :
    byteLengthFrom high (unicodeEscape u ++ rest) = 6 + byteLength rest := by
  have hdigit : ∀ n, n < 16 → hexDigit n < 0x80 := by
    intro n hn
    unfold hexDigit
    split <;> omega
  have hascii : ∀ x ∈ unicodeEscape u, x < 0x80 := by
    intro x hx
    simp only [unicodeEscape, List.mem_cons, List.not_mem_nil, or_false] at hx
    rcases hx with rfl | rfl | rfl | rfl | rfl | rfl <;>
      first | omega | exact hdigit _ (Nat.mod_lt _ (by omega))
  have hlast : lastHigh high (unicodeEscape u) = false := by
    have h := hdigit (u % 16) (Nat.mod_lt _ (by omega))
    simp only [lastHigh, unicodeEscape, List.getLast?_cons_cons, List.getLast?_singleton,
      Option.map_some, Option.getD_some, isHighSurrogate, Bool.and_eq_false_iff,
      decide_eq_false_iff_not]
    omega
  rw [bytesFrom_append, byteLengthFrom_ascii high _ hascii, hlast]
  rfl

private theorem quoteUnit_last (high : Bool) (u : ℕ) (hu : isHighSurrogate u = false) :
    lastHigh high (quoteUnit u) = false := by
  have hdigit : ∀ n, n < 16 → isHighSurrogate (hexDigit n) = false := by decide
  unfold quoteUnit
  split_ifs
  all_goals first
    | rfl
    | exact hdigit _ (Nat.mod_lt u (by omega))
    | simpa [lastHigh] using hu

/-- A quoted text does not grow when its lone surrogates are replaced: a
replacement takes three bytes where the escape took six. -/
private theorem quoted_wellFormed_le (s : JsString) (high joined : Bool)
    (hjoined : joined = (high && s.head?.any isLowSurrogate)) :
    byteLengthFrom joined (quoteFrom joined (wellFormedFrom high s)) ≤
      byteLengthFrom joined (quoteFrom high s) := by
  induction s generalizing high joined with
  | nil => simp [wellFormedFrom, quoteFrom]
  | cons u rest ih =>
    have hnext := ih (isHighSurrogate u) (isHighSurrogate u && rest.head?.any isLowSurrogate) rfl
    have hfffd : quoteUnit 0xfffd = [0xfffd] := rfl
    have hreplaced : ∀ b : Bool, isHighSurrogate u = false ∨ rest.head?.any isLowSurrogate = false →
        byteLengthFrom b (quoteFrom b (0xfffd :: wellFormedFrom (isHighSurrogate u) rest)) ≤
          6 + byteLength (quoteFrom (isHighSurrogate u) rest) := by
      intro b hlone
      have hj : (isHighSurrogate u && rest.head?.any isLowSurrogate) = false := by
        rcases hlone with h | h <;> simp [h]
      rw [hj] at hnext
      have hlow : isLowSurrogate 0xfffd = false := rfl
      have hhigh : isHighSurrogate 0xfffd = false := rfl
      have hbytes : byteLengthFrom b
          (quoteFrom b (0xfffd :: wellFormedFrom (isHighSurrogate u) rest)) =
          3 + byteLengthFrom false (quoteFrom false (wellFormedFrom (isHighSurrogate u) rest)) := by
        simp [quoteFrom, hlow, hhigh, hfffd, byteLengthFrom]
      rw [hbytes]
      simp only [byteLength]
      omega
    by_cases hhigh : isHighSurrogate u = true
    · have hnotlow : isLowSurrogate u = false := not_low_of_high hhigh
      have hj : joined = false := by simp [hjoined, hnotlow]
      subst hj
      by_cases hpair : rest.head?.any isLowSurrogate = true
      · have hkeep : (wellFormedFrom true rest).head?.any isLowSurrogate = true := by
          cases rest with
          | nil => simp at hpair
          | cons v more =>
            have hv : isLowSurrogate v = true := by simpa using hpair
            simp [wellFormedFrom, hv, not_high_of_low hv]
        simp only [hhigh, hpair, Bool.and_self] at hnext
        simp only [wellFormedFrom, quoteFrom, hhigh, hpair, hkeep, if_true, List.cons_append,
          List.nil_append, byteLengthFrom]
        omega
      · have hp : rest.head?.any isLowSurrogate = false := by simpa using hpair
        have hsource : quoteFrom high (u :: rest) = unicodeEscape u ++ quoteFrom true rest := by
          simp [quoteFrom, hhigh, hp]
        have hstored : wellFormedFrom high (u :: rest) = 0xfffd :: wellFormedFrom true rest := by
          simp [wellFormedFrom, hhigh, hp]
        rw [hsource, hstored, escape_bytes, ← hhigh]
        exact hreplaced false (Or.inr hp)
    · have hh : isHighSurrogate u = false := by simpa using hhigh
      simp only [hh, Bool.false_and] at hnext
      by_cases hlow : isLowSurrogate u = true
      · cases high with
        | true =>
          have hj : joined = true := by simp [hjoined, hlow]
          subst hj
          simp only [wellFormedFrom, quoteFrom, hh, hlow, if_true, Bool.false_eq_true, if_false,
            List.cons_append, List.nil_append, byteLengthFrom]
          omega
        | false =>
          have hj : joined = false := by simp [hjoined]
          subst hj
          have hsource : quoteFrom false (u :: rest) = unicodeEscape u ++ quoteFrom false rest := by
            simp [quoteFrom, hh, hlow]
          have hstored : wellFormedFrom false (u :: rest) = 0xfffd :: wellFormedFrom false rest := by
            simp [wellFormedFrom, hh, hlow]
          rw [hsource, hstored, escape_bytes]
          simpa only [hh] using hreplaced false (Or.inl hh)
      · have hl : isLowSurrogate u = false := by simpa using hlow
        have hj : joined = false := by simp [hjoined, hl]
        subst hj
        simp only [wellFormedFrom, quoteFrom, hh, hl, Bool.false_eq_true, if_false,
          bytesFrom_append, quoteUnit_last false u hh]
        omega

theorem byteLength_quote (s : JsString) :
    byteLength (quote s) = byteLengthFrom false (quoteFrom false s) + 2 := by
  have hbody := byteLengthFrom_append false (quoteFrom false s) [0x22] (startsClean_cons _ _ rfl)
  have hopen : byteLength (quote s) = 1 + byteLengthFrom false (quoteFrom false s ++ [0x22]) := rfl
  have hclose : byteLength [0x22] = 1 := rfl
  omega

/-- Storing a string parameter does not lengthen its JSON text. -/
theorem textInput_bytes {s t : JsString} (h : textInput s = some t) :
    byteLength (quote t) ≤ byteLength (quote s) := by
  unfold textInput at h
  split at h
  · simp at h
  · simp only [Option.some.injEq] at h
    subst h
    have hle := quoted_wellFormed_le s false false rfl
    simp only [byteLength_quote]
    omega

end StoredJson
