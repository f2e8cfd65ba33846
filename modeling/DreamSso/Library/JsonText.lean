import DreamSso.Library.FloatFormats
import DreamSso.Library.JsConversions

/-!
JSON.parse. A text is read from the left with as much fuel as it has units. What
JSON.stringify writes for a value whose numbers read back as themselves and whose
objects name each member once is read as that value.
-/
namespace JsonText

open FloatFormats JsStrings JsonValues JsonValues.Json JsConversions

def isJsonSpace (u : ℕ) : Bool :=
  decide (u = 0x20) || decide (u = 0x09) || decide (u = 0x0a) || decide (u = 0x0d)

def skipSpace (s : JsString) : JsString := s.dropWhile isJsonSpace

def hexValue? (u : ℕ) : Option ℕ :=
  if isDigitUnit u then some (u - 0x30)
  else if 0x61 ≤ u ∧ u ≤ 0x66 then some (u - 0x57)
  else if 0x41 ≤ u ∧ u ≤ 0x46 then some (u - 0x37)
  else none

def fourHex? (a b c d : ℕ) : Option ℕ := do
  let a ← hexValue? a
  let b ← hexValue? b
  let c ← hexValue? c
  let d ← hexValue? d
  pure (a * 0x1000 + b * 0x100 + c * 0x10 + d)

/-- The unit a one-letter escape stands for. -/
def escaped? (e : ℕ) : Option ℕ :=
  if e = 0x22 ∨ e = 0x5c ∨ e = 0x2f then some e
  else if e = 0x62 then some 0x08
  else if e = 0x66 then some 0x0c
  else if e = 0x6e then some 0x0a
  else if e = 0x72 then some 0x0d
  else if e = 0x74 then some 0x09
  else none

def withUnit (u : ℕ) (p : JsString × JsString) : JsString × JsString := (u :: p.1, p.2)

/-- The string behind an opening quote, and the text behind its closing one. -/
def unquote : JsString → Option (JsString × JsString)
  | [] => none
  | u :: rest =>
      if u = 0x22 then some ([], rest)
      else if u < 0x20 then none
      else if u = 0x5c then
        match rest with
        | [] => none
        | e :: rest =>
            if e = 0x75 then
              match rest with
              | a :: b :: c :: d :: rest =>
                  (fourHex? a b c d).bind fun n => (unquote rest).map (withUnit n)
              | _ => none
            else (escaped? e).bind fun n => (unquote rest).map (withUnit n)
      else (unquote rest).map (withUnit u)

def isNumberUnit (u : ℕ) : Bool :=
  isDigitUnit u || [0x2b, 0x2d, 0x2e, 0x45, 0x65].contains u

/-- The grammar of a JSON number: no plus sign, no leading zeros, a digit on either
side of the point. -/
def isNumberText (s : JsString) : Bool :=
  let s := if s.head? = some 0x2d then s.tail else s
  let whole := s.takeWhile isDigitUnit
  let s := s.dropWhile isDigitUnit
  let point := s.head? = some 0x2e
  let fraction := if point then s.tail.takeWhile isDigitUnit else []
  let s := if point then s.tail.dropWhile isDigitUnit else s
  decide (whole ≠ []) && (decide (whole.length = 1) || decide (whole.head? ≠ some 0x30)) &&
    (!decide point || decide (fraction ≠ [])) && (exponent? s).isSome

/-- A number as it is written. -/
structure Numeral where
  negative : Bool
  whole : ℕ
  fraction : List (Fin 10)
  exponent : Option ℤ

def exponentPart (exponent : Option ℤ) : JsString := exponent.elim [] exponentText

def fractionDigits (fraction : List (Fin 10)) : JsString := fraction.map fun d => 0x30 + d.val

def fractionPart (fraction : List (Fin 10)) : JsString :=
  if fraction = [] then [] else 0x2e :: fractionDigits fraction

def Numeral.unsigned (q : Numeral) : JsString :=
  decimal q.whole ++ (fractionPart q.fraction ++ exponentPart q.exponent)

def Numeral.text (q : Numeral) : JsString := (if q.negative then [0x2d] else []) ++ q.unsigned

/-- The number a numeral is the text of. -/
def Numeral.number (q : Numeral) : JsNumber :=
  if h : q.fraction ≠ [] ∨ q.exponent.isSome then
    .scientific q.negative q.whole q.fraction q.exponent h
  else .int (if q.negative then -q.whole else q.whole)

/-- The last so many digits of a number. -/
def lastDigits : ℕ → ℕ → List (Fin 10)
  | 0, _ => []
  | n + 1, rest => lastDigits n (rest / 10) ++ [Fin.ofNat 10 (rest % 10)]

/-- These digits with a point before the last so many of them. -/
def pointed (negative : Bool) (digits behind : ℕ) (exponent : Option ℤ) : Numeral :=
  ⟨negative, digits / 10 ^ behind, lastDigits behind (digits % 10 ^ behind), exponent⟩

/-- Number.prototype.toString, given the digits of a number and their power of ten. -/
def numeralOf (negative : Bool) (digits : ℕ) (power : ℤ) : Numeral :=
  let length := (decimal digits).length
  let point := power + length
  if 0 ≤ power ∧ point ≤ 21 then ⟨negative, digits * 10 ^ power.toNat, [], none⟩
  else if power < 0 ∧ -6 < point ∧ point ≤ 21 then
    pointed negative digits (-power).toNat none
  else pointed negative digits (length - 1) (some (point - 1))

/-- A numeral is read as the nearest double, which is kept as it is printed. The whole
numbers up to 2 ^ 53 are read exactly; minus zero is printed as zero. -/
def numberOf (s : JsString) : JsNumber :=
  match decimalLiteral? s with
  | none => .int 0
  | some (negative, digits, power) =>
      let sign : ℤ := if negative then -1 else 1
      if 0 ≤ power ∧ digits * 10 ^ power.toNat ≤ 2 ^ 53 then
        .int (sign * (digits * 10 ^ power.toNat))
      else
        let units := double.numberOf digits power
        if units = 0 then .int 0
        else if double.limit ≤ units then .infinite negative
        else (numeralOf negative (double.shortest units).1 (double.shortest units).2).number

example : numberOf (js "-0.125E-6") = .scientific true 1 [2, 5] (some (-7)) (by decide) := by
  decide +kernel

example : numberOf (js "4.350") = .scientific false 4 [3, 5] none (by decide) := by
  decide +kernel

example : numberOf (js "9007199254740993") = .int 9007199254740992 := by decide +kernel

example : numberOf (js "12e21") = .scientific false 1 [2] (some 22) (by decide) := by
  decide +kernel

example : numberOf (js "10000.0") = .int 10000 := by decide +kernel

example : numberOf (js "1e400") = .infinite false := by decide +kernel

def number? (s : JsString) : Option (Json × JsString) :=
  let token := s.takeWhile isNumberUnit
  if isNumberText token then some (.num (numberOf token), s.dropWhile isNumberUnit) else none

/-- A later member of the same name takes the place of the earlier one. -/
def setMember (members : List (JsString × Json)) (key : JsString) (v : Json) :
    List (JsString × Json) :=
  if members.any fun m => decide (m.1 = key) then
    members.map fun m => if m.1 = key then (key, v) else m
  else members ++ [(key, v)]

def literal? (word : JsString) (v : Json) (s : JsString) : Option (Json × JsString) :=
  if word.isPrefixOf s then some (v, s.drop word.length) else none

mutual
/-- The value at the front of a text and the text behind it. -/
def value? : ℕ → JsString → Option (Json × JsString)
  | 0, _ => none
  | fuel + 1, s =>
      match skipSpace s with
      | [] => none
      | u :: rest =>
          if u = 0x22 then (unquote rest).map fun p => (.str p.1, p.2)
          else if u = 0x5b then
            if (skipSpace rest).head? = some 0x5d then some (.arr [], (skipSpace rest).tail)
            else (items? fuel rest).map fun p => (.arr p.1, p.2)
          else if u = 0x7b then
            if (skipSpace rest).head? = some 0x7d then some (.obj [], (skipSpace rest).tail)
            else (members? fuel [] rest).map fun p => (.obj p.1, p.2)
          else if u = 0x6e then literal? (js "null") .null (u :: rest)
          else if u = 0x74 then literal? (js "true") (.bool true) (u :: rest)
          else if u = 0x66 then literal? (js "false") (.bool false) (u :: rest)
          else number? (u :: rest)

/-- The items of an array up to its closing bracket. -/
def items? : ℕ → JsString → Option (List Json × JsString)
  | 0, _ => none
  | fuel + 1, s =>
      (value? fuel s).bind fun p =>
        match skipSpace p.2 with
        | [] => none
        | u :: rest =>
            if u = 0x5d then some ([p.1], rest)
            else if u = 0x2c then (items? fuel rest).map fun q => (p.1 :: q.1, q.2)
            else none

/-- The members of an object up to its closing brace, added to those read before. -/
def members? : ℕ → List (JsString × Json) → JsString → Option (List (JsString × Json) × JsString)
  | 0, _, _ => none
  | fuel + 1, before, s =>
      match skipSpace s with
      | [] => none
      | u :: rest =>
          if u = 0x22 then
            (unquote rest).bind fun key =>
              if (skipSpace key.2).head? = some 0x3a then
                (value? fuel (skipSpace key.2).tail).bind fun p =>
                  match skipSpace p.2 with
                  | [] => none
                  | u :: rest =>
                      if u = 0x7d then some (setMember before key.1 p.1, rest)
                      else if u = 0x2c then members? fuel (setMember before key.1 p.1) rest
                      else none
              else none
          else none
end

/-- JSON.parse; `none` is a SyntaxError. -/
def parse (s : JsString) : Option Json :=
  (value? (s.length + 1) s).bind fun p => if skipSpace p.2 = [] then some p.1 else none

/-- What a unit of a string is written as reads back as that unit. -/
theorem hexValue?_hexDigit {n : ℕ} (h : n < 16) : hexValue? (hexDigit n) = some n := by
  unfold hexDigit
  split_ifs with hn
  · have hdigit : isDigitUnit (0x30 + n) = true := by
      simp only [isDigitUnit, Bool.and_eq_true, decide_eq_true_eq]
      omega
    rw [hexValue?, if_pos hdigit]
    congr 1
    omega
  · have hdigit : ¬ isDigitUnit (0x57 + n) = true := by
      simp only [isDigitUnit, Bool.and_eq_true, decide_eq_true_eq]
      omega
    rw [hexValue?, if_neg hdigit, if_pos (by omega)]
    congr 1
    omega

theorem unquote_close (rest : JsString) : unquote (0x22 :: rest) = some ([], rest) := by
  rw [unquote.eq_def]
  rfl

theorem unquote_plain {u : ℕ} (h : u ≠ 0x22) (h' : u ≠ 0x5c) (hge : ¬ u < 0x20)
    (rest : JsString) : unquote (u :: rest) = (unquote rest).map (withUnit u) := by
  rw [unquote.eq_def]
  simp only [if_neg h, if_neg hge, if_neg h']

theorem unquote_escape {e u : ℕ} (h : escaped? e = some u) (hne : e ≠ 0x75) (rest : JsString) :
    unquote (0x5c :: e :: rest) = (unquote rest).map (withUnit u) := by
  rw [unquote.eq_def]
  simp [hne, h]

theorem unquote_unicodeEscape {u : ℕ} (h : u < 0x10000) (rest : JsString) :
    unquote (unicodeEscape u ++ rest) = (unquote rest).map (withUnit u) := by
  have hvalue : fourHex? (hexDigit (u / 0x1000 % 16)) (hexDigit (u / 0x100 % 16))
      (hexDigit (u / 0x10 % 16)) (hexDigit (u % 16)) = some u := by
    simp only [fourHex?, hexValue?_hexDigit (Nat.mod_lt _ (by omega : 0 < 16)),
      Option.bind_eq_bind, Option.bind_some, Option.pure_def, Option.some.injEq]
    omega
  rw [unicodeEscape, unquote.eq_def]
  simp [hvalue]

theorem unquote_quoteUnit (u : ℕ) (rest : JsString) :
    unquote (quoteUnit u ++ rest) = (unquote rest).map (withUnit u) := by
  unfold quoteUnit
  split_ifs with h1 h2 h3 h4 h5 h6 h7 h8
  · rw [h1]
    exact unquote_escape rfl (by decide) rest
  · rw [h2]
    exact unquote_escape rfl (by decide) rest
  · rw [h3]
    exact unquote_escape rfl (by decide) rest
  · rw [h4]
    exact unquote_escape rfl (by decide) rest
  · rw [h5]
    exact unquote_escape rfl (by decide) rest
  · rw [h6]
    exact unquote_escape rfl (by decide) rest
  · rw [h7]
    exact unquote_escape rfl (by decide) rest
  · exact unquote_unicodeEscape (by omega) rest
  · exact unquote_plain h1 h2 h8 rest

/-- A quoted string is read back. -/
theorem unquote_quoteFrom (s : JsString) (high : Bool) (rest : JsString) :
    unquote (quoteFrom high s ++ 0x22 :: rest) = some (s, rest) := by
  induction s generalizing high with
  | nil => exact unquote_close rest
  | cons u s ih =>
    have hsurrogate : isHighSurrogate u = true ∨ isLowSurrogate u = true →
        0xd800 ≤ u ∧ u < 0xe000 := by
      simp only [isHighSurrogate, isLowSurrogate, Bool.and_eq_true, decide_eq_true_eq]
      omega
    have hstep : ∀ t, (t = [u] ∧ (isHighSurrogate u = true ∨ isLowSurrogate u = true)) ∨
        (t = unicodeEscape u ∧ (isHighSurrogate u = true ∨ isLowSurrogate u = true)) ∨
        t = quoteUnit u → unquote ((t ++ quoteFrom (isHighSurrogate u) s) ++ 0x22 :: rest) =
          some (u :: s, rest) := by
      intro t ht
      rw [List.append_assoc]
      rcases ht with ⟨rfl, hu⟩ | ⟨rfl, hu⟩ | rfl
      · have hrange := hsurrogate hu
        rw [List.singleton_append, unquote_plain (by omega) (by omega) (by omega), ih]
        rfl
      · have hrange := hsurrogate hu
        rw [unquote_unicodeEscape (by omega), ih]
        rfl
      · rw [unquote_quoteUnit, ih]
        rfl
    rw [quoteFrom]
    apply hstep
    split_ifs with hhigh hpair hlow hkeep
    · exact .inl ⟨rfl, .inl hhigh⟩
    · exact .inr (.inl ⟨rfl, .inl hhigh⟩)
    · exact .inl ⟨rfl, .inr hlow⟩
    · exact .inr (.inl ⟨rfl, .inr hlow⟩)
    · exact .inr (.inr rfl)

mutual
/-- The numbers read back as themselves, and no object names a member twice. -/
def readsBack : Json → Bool
  | .num n => n.text.all isNumberUnit && isNumberText n.text && decide (numberOf n.text = n)
  | .arr items => readsBackItems items
  | .obj members => decide (members.map Prod.fst).Nodup && readsBackMembers members
  | _ => true

def readsBackItems : List Json → Bool
  | [] => true
  | v :: rest => readsBack v && readsBackItems rest

def readsBackMembers : List (JsString × Json) → Bool
  | [] => true
  | (_, v) :: rest => readsBack v && readsBackMembers rest
end

/-- A number does not go on in the text. -/
def Clear (s : JsString) : Prop := ∀ u ∈ s.head?, isNumberUnit u = false

theorem clear_cons {u : ℕ} (h : isNumberUnit u = false) (rest : JsString) : Clear (u :: rest) := by
  intro v hv
  rw [List.head?_cons, Option.mem_some_iff] at hv
  rw [← hv, h]

theorem takeWhile_append_clear {s rest : JsString} (hs : s.all isNumberUnit = true)
    (hclear : Clear rest) : (s ++ rest).takeWhile isNumberUnit = s ∧
      (s ++ rest).dropWhile isNumberUnit = rest := by
  have hall : ∀ u ∈ s, isNumberUnit u = true := List.all_eq_true.mp hs
  rw [List.takeWhile_append_of_pos hall, List.dropWhile_append_of_pos hall]
  cases rest with
  | nil => simp
  | cons u rest =>
    have hu : isNumberUnit u = false := hclear u rfl
    simp [List.takeWhile, List.dropWhile, hu]

/-- How the text of a value starts. -/
def StartsValue (s : JsString) : Prop :=
  ∃ u rest, s = u :: rest ∧ isJsonSpace u = false ∧ u ≠ 0x5d ∧ u ≠ 0x7d

theorem skipSpace_cons {u : ℕ} (h : isJsonSpace u = false) (rest : JsString) :
    skipSpace (u :: rest) = u :: rest := by
  simp [skipSpace, h]

theorem isNumberUnit_notSpace {u : ℕ} (h : isNumberUnit u = true) :
    isJsonSpace u = false ∧ u ≠ 0x22 ∧ u ≠ 0x5b ∧ u ≠ 0x5d ∧ u ≠ 0x7b ∧ u ≠ 0x7d ∧
      u ≠ 0x6e ∧ u ≠ 0x74 ∧ u ≠ 0x66 := by
  simp only [isNumberUnit, isDigitUnit, List.contains_eq_mem, Bool.or_eq_true, Bool.and_eq_true,
    decide_eq_true_eq, List.mem_cons, List.not_mem_nil, or_false] at h
  simp only [isJsonSpace, Bool.or_eq_false_iff, decide_eq_false_iff_not]
  omega

theorem numberText_cons {s : JsString} (h : isNumberText s = true) : s ≠ [] := by
  rintro rfl
  simp [isNumberText] at h

theorem stringify_startsValue {v : Json} (h : readsBack v = true) :
    StartsValue (stringify v) := by
  cases v with
  | null => exact ⟨0x6e, _, rfl, rfl, by decide, by decide⟩
  | bool b => cases b <;> exact ⟨_, _, rfl, rfl, by decide, by decide⟩
  | str s => exact ⟨0x22, _, rfl, rfl, by decide, by decide⟩
  | arr items => exact ⟨0x5b, _, rfl, rfl, by decide, by decide⟩
  | obj members => exact ⟨0x7b, _, rfl, rfl, by decide, by decide⟩
  | num n =>
    simp only [readsBack, Bool.and_eq_true] at h
    obtain ⟨u, rest, htext⟩ := List.exists_cons_of_ne_nil (numberText_cons h.1.2)
    have hu : isNumberUnit u = true := by
      have hall := h.1.1
      rw [htext, List.all_cons, Bool.and_eq_true] at hall
      exact hall.1
    have hnot := isNumberUnit_notSpace hu
    exact ⟨u, rest, htext, hnot.1, hnot.2.2.2.1, hnot.2.2.2.2.2.1⟩

theorem items_startsValue {v : Json} {items : List Json}
    (h : readsBack (.arr (v :: items)) = true) :
    StartsValue (List.intercalate [0x2c] (itemTexts (v :: items))) := by
  simp only [readsBack, readsBackItems, Bool.and_eq_true] at h
  obtain ⟨u, rest, hu, hclean⟩ := stringify_startsValue h.1
  cases items with
  | nil => exact ⟨u, rest, by simpa [itemTexts] using hu, hclean⟩
  | cons w items =>
    refine ⟨u, rest ++ ([0x2c] ++ List.intercalate [0x2c] (itemTexts (w :: items))), ?_, hclean⟩
    rw [itemTexts, itemTexts, List.intercalate_cons_cons, hu, List.append_assoc]
    rfl

theorem members_startQuote (m : JsString × Json) (members : List (JsString × Json)) :
    ∃ rest, List.intercalate [0x2c] (memberTexts (m :: members)) = 0x22 :: rest := by
  obtain ⟨key, v⟩ := m
  cases members with
  | nil =>
    rw [memberTexts, memberTexts, List.intercalate_singleton, quote]
    exact ⟨_, rfl⟩
  | cons m members =>
    rw [memberTexts, memberTexts, List.intercalate_cons_cons, quote]
    exact ⟨_, rfl⟩

theorem number?_text {n : JsNumber} (h : readsBack (.num n) = true) {rest : JsString}
    (hclear : Clear rest) (fuel : ℕ) :
    value? (fuel + 1) (n.text ++ rest) = some (.num n, rest) := by
  simp only [readsBack, Bool.and_eq_true, decide_eq_true_eq] at h
  obtain ⟨⟨hall, htext⟩, hback⟩ := h
  obtain ⟨htake, hdrop⟩ := takeWhile_append_clear hall hclear
  have hnumber : number? (n.text ++ rest) = some (.num n, rest) := by
    simp only [number?, htake, hdrop, htext, hback, if_true]
  obtain ⟨u, more, hcons⟩ := List.exists_cons_of_ne_nil (numberText_cons htext)
  have hu : isNumberUnit u = true := by
    rw [hcons, List.all_cons, Bool.and_eq_true] at hall
    exact hall.1
  obtain ⟨hspace, h1, h2, -, h3, -, h4, h5, h6⟩ := isNumberUnit_notSpace hu
  rw [hcons, List.cons_append] at hnumber ⊢
  rw [value?, skipSpace_cons hspace]
  simp only [h1, h2, h3, h4, h5, h6, if_false]
  exact hnumber

theorem setMember_new {members : List (JsString × Json)} {key : JsString} {v : Json}
    (h : key ∉ members.map Prod.fst) : setMember members key v = members ++ [(key, v)] := by
  rw [setMember, if_neg]
  intro hany
  obtain ⟨m, hm, hkey⟩ := List.any_eq_true.mp hany
  exact h (of_decide_eq_true hkey ▸ List.mem_map_of_mem hm)

theorem clear_comma (rest : JsString) : Clear (0x2c :: rest) := clear_cons rfl rest

theorem items?_last {fuel : ℕ} {s rest : JsString} {v : Json}
    (h : value? fuel s = some (v, 0x5d :: rest)) : items? (fuel + 1) s = some ([v], rest) := by
  rw [items?, h, Option.bind_some]
  rfl

theorem items?_more {fuel : ℕ} {s more : JsString} {v : Json}
    (h : value? fuel s = some (v, 0x2c :: more)) :
    items? (fuel + 1) s = (items? fuel more).map fun q => (v :: q.1, q.2) := by
  rw [items?, h, Option.bind_some]
  rfl

theorem members?_key {fuel : ℕ} {before : List (JsString × Json)} {key s : JsString}
    {p : Json × JsString} (h : value? fuel s = some p) :
    members? (fuel + 1) before (quote key ++ 0x3a :: s) =
      match skipSpace p.2 with
      | [] => none
      | u :: rest =>
          if u = 0x7d then some (setMember before key p.1, rest)
          else if u = 0x2c then members? fuel (setMember before key p.1) rest
          else none := by
  rw [quote, List.cons_append, List.append_assoc, List.singleton_append, members?,
    skipSpace_cons rfl]
  simp only [if_true, unquote_quoteFrom, Option.bind_some, skipSpace_cons (u := 0x3a) rfl,
    List.head?_cons, List.tail_cons, h]

theorem key_notMem {before members : List (JsString × Json)} {key : JsString} {v : Json}
    (h : ((before ++ (key, v) :: members).map Prod.fst).Nodup) : key ∉ before.map Prod.fst := by
  rw [List.map_append, List.map_cons] at h
  intro hmem
  exact (List.nodup_append.mp h).2.2 key hmem key List.mem_cons_self rfl

mutual
theorem value?_stringify : ∀ (v : Json), readsBack v = true → ∀ (fuel : ℕ) (rest : JsString),
    (stringify v).length ≤ fuel → Clear rest →
      value? (fuel + 1) (stringify v ++ rest) = some (v, rest)
  | .null, _, fuel, rest, _, _ => by
    rw [value?.eq_def]
    simp [stringify, js_eq, charUnits, skipSpace, isJsonSpace, literal?]
  | .bool b, _, fuel, rest, _, _ => by
    rw [value?.eq_def]
    cases b <;> simp [stringify, js_eq, charUnits, skipSpace, isJsonSpace, literal?]
  | .num n, h, fuel, rest, _, hclear => number?_text h hclear fuel
  | .str s, _, fuel, rest, _, _ => by
    rw [stringify, quote, List.cons_append, List.append_assoc, List.singleton_append, value?.eq_def]
    simp [skipSpace, isJsonSpace, unquote_quoteFrom]
  | .arr [], _, fuel, rest, _, _ => by
    rw [value?.eq_def]
    simp [stringify, itemTexts, skipSpace, isJsonSpace]
  | .arr (v :: items), h, fuel, rest, hfuel, _ => by
    obtain ⟨u, more, hstart, hspace, hclose, -⟩ := items_startsValue h
    rw [stringify, List.length_cons, List.length_append, List.length_singleton] at hfuel
    obtain ⟨f, rfl⟩ : ∃ f, fuel = f + 1 := ⟨fuel - 1, by omega⟩
    have hitems := items?_texts v items h f rest (by omega)
    rw [stringify, List.cons_append, List.append_assoc, List.singleton_append, value?,
      skipSpace_cons rfl]
    have hfirst : (skipSpace (List.intercalate [0x2c] (itemTexts (v :: items)) ++
        0x5d :: rest)).head? ≠ some 0x5d := by
      rw [hstart, List.cons_append, skipSpace_cons hspace, List.head?_cons]
      simpa using hclose
    simp [hfirst, hitems]
  | .obj [], _, fuel, rest, _, _ => by
    rw [value?.eq_def]
    simp [stringify, memberTexts, skipSpace, isJsonSpace]
  | .obj (m :: members), h, fuel, rest, hfuel, _ => by
    rw [stringify, List.length_cons, List.length_append, List.length_singleton] at hfuel
    obtain ⟨f, rfl⟩ : ∃ f, fuel = f + 1 := ⟨fuel - 1, by omega⟩
    simp only [readsBack, Bool.and_eq_true, decide_eq_true_eq] at h
    have hmembers := members?_texts m members h.2 f [] rest h.1 (by omega)
    rw [stringify, List.cons_append, List.append_assoc, List.singleton_append, value?,
      skipSpace_cons rfl]
    have hfirst : (skipSpace (List.intercalate [0x2c] (memberTexts (m :: members)) ++
        0x7d :: rest)).head? ≠ some 0x7d := by
      obtain ⟨more, hstart⟩ := members_startQuote m members
      rw [hstart, List.cons_append, skipSpace_cons rfl, List.head?_cons]
      decide
    simp [hfirst, hmembers]

theorem items?_texts : ∀ (v : Json) (items : List Json), readsBackItems (v :: items) = true →
    ∀ (fuel : ℕ) (rest : JsString),
      (List.intercalate [0x2c] (itemTexts (v :: items))).length < fuel →
      items? (fuel + 1) (List.intercalate [0x2c] (itemTexts (v :: items)) ++ 0x5d :: rest) =
        some (v :: items, rest)
  | v, [], h, fuel, rest, hfuel => by
    simp only [readsBackItems, Bool.and_true] at h
    simp only [itemTexts, List.intercalate_singleton] at hfuel ⊢
    obtain ⟨f, rfl⟩ : ∃ f, fuel = f + 1 := ⟨fuel - 1, by omega⟩
    exact items?_last (value?_stringify v h f _ (by omega) (clear_cons rfl rest))
  | v, w :: items, h, fuel, rest, hfuel => by
    rw [readsBackItems, Bool.and_eq_true] at h
    rw [itemTexts, itemTexts, List.intercalate_cons_cons, ← itemTexts] at hfuel ⊢
    simp only [List.length_append, List.length_singleton] at hfuel
    obtain ⟨f, rfl⟩ : ∃ f, fuel = f + 1 := ⟨fuel - 1, by omega⟩
    rw [List.append_assoc, List.append_assoc, List.singleton_append,
      items?_more (value?_stringify v h.1 f _ (by omega) (clear_comma _)),
      items?_texts w items h.2 f rest (by omega)]
    rfl

theorem members?_texts : ∀ (m : JsString × Json) (members : List (JsString × Json)),
    readsBackMembers (m :: members) = true → ∀ (fuel : ℕ) (before : List (JsString × Json))
      (rest : JsString), ((before ++ m :: members).map Prod.fst).Nodup →
      (List.intercalate [0x2c] (memberTexts (m :: members))).length < fuel →
      members? (fuel + 1) before
        (List.intercalate [0x2c] (memberTexts (m :: members)) ++ 0x7d :: rest) =
        some (before ++ m :: members, rest)
  | (key, v), [], h, fuel, before, rest, hnodup, hfuel => by
    simp only [readsBackMembers, Bool.and_true] at h
    simp only [memberTexts, List.intercalate_singleton, List.length_append,
      List.length_cons] at hfuel ⊢
    obtain ⟨f, rfl⟩ : ∃ f, fuel = f + 1 := ⟨fuel - 1, by omega⟩
    have hvalue := value?_stringify v h f (0x7d :: rest) (by omega) (clear_cons rfl rest)
    rw [List.append_assoc, List.cons_append, members?_key hvalue,
      setMember_new (key_notMem hnodup)]
    rfl
  | (key, v), m :: members, h, fuel, before, rest, hnodup, hfuel => by
    rw [readsBackMembers, Bool.and_eq_true] at h
    obtain ⟨next, w⟩ := m
    rw [memberTexts, memberTexts, List.intercalate_cons_cons, ← memberTexts] at hfuel ⊢
    simp only [List.length_append, List.length_cons, List.length_nil] at hfuel
    obtain ⟨f, rfl⟩ : ∃ f, fuel = f + 1 := ⟨fuel - 1, by omega⟩
    have hvalue := value?_stringify v h.1 f (0x2c :: (List.intercalate [0x2c]
      (memberTexts ((next, w) :: members)) ++ 0x7d :: rest)) (by omega) (clear_comma _)
    have hrest := members?_texts (next, w) members h.2 f (before ++ [(key, v)]) rest
      (by rwa [List.append_assoc, List.singleton_append]) (by omega)
    rw [List.append_assoc before, List.singleton_append] at hrest
    rw [List.append_assoc, List.append_assoc, List.cons_append, List.nil_append,
      List.append_assoc, List.cons_append, members?_key hvalue, setMember_new (key_notMem hnodup)]
    exact hrest
end

/-- JSON.parse of what JSON.stringify writes, and of a text that ends in white space. -/
theorem parse_stringify {v : Json} (h : readsBack v = true) {rest : JsString}
    (hspace : ∀ u ∈ rest, isJsonSpace u = true) : parse (stringify v ++ rest) = some v := by
  have hclear : Clear rest := by
    intro u hu
    by_contra hnumber
    rw [Bool.not_eq_false] at hnumber
    have hnot := (isNumberUnit_notSpace hnumber).1
    rw [hspace u (List.mem_of_mem_head? hu)] at hnot
    cases hnot
  have hend : skipSpace rest = [] := by
    rw [skipSpace, List.dropWhile_eq_nil_iff]
    exact hspace
  rw [parse, value?_stringify v h _ rest (by simp) hclear, Option.bind_some]
  simp only [hend, if_true]

theorem charUnits_eq (c : Char) : charUnits c = pointUnits c.toNat := by
  unfold charUnits pointUnits
  split_ifs with h
  · rfl
  · simp only [List.cons.injEq, and_true]
    omega

theorem isScalar_char (c : Char) : isScalar c.toNat = true := by
  have hvalid : c.toNat.isValidChar := c.valid
  simp only [Nat.isValidChar] at hvalid
  simp only [isScalar, Bool.or_eq_true, Bool.and_eq_true, decide_eq_true_eq]
  omega

theorem codePoints_js (s : String) : codePoints (js s) = s.toList.map Char.toNat := by
  rw [js_eq]
  induction s.toList with
  | nil => rfl
  | cons c rest ih =>
    rw [List.flatMap_cons, charUnits_eq, codePoints_pointUnits (isScalar_char c), ih]
    rfl

theorem js_injective : Function.Injective js := by
  intro s t h
  have hlists := congrArg codePoints h
  rw [codePoints_js, codePoints_js] at hlists
  exact String.toList_inj.mp (List.map_injective_iff.mpr (fun _ _ => Char.toNat_inj.mp) hlists)

/-- The members of an object with literal names are found by their names. -/
theorem member?_js (members : List (String × Json)) (key : String) :
    member? (members.map fun m => (js m.1, m.2)) (js key) = members.lookup key := by
  induction members with
  | nil => rfl
  | cons m rest ih =>
    rw [member?] at ih
    rw [member?, List.map_cons, List.lookup_cons, List.lookup_cons, ih]
    by_cases h : key = m.1
    · simp [h]
    · have hne : js key ≠ js m.1 := fun heq => h (js_injective heq)
      rw [beq_eq_false_iff_ne.mpr hne, beq_eq_false_iff_ne.mpr h]

theorem readsBack_arr {items : List Json} (h : ∀ v ∈ items, readsBack v = true) :
    readsBack (.arr items) = true := by
  rw [readsBack]
  induction items with
  | nil => rfl
  | cons v rest ih =>
    rw [readsBackItems, Bool.and_eq_true]
    exact ⟨h v List.mem_cons_self, ih fun w hw => h w (List.mem_cons_of_mem v hw)⟩

theorem readsBackMembers_of {members : List (JsString × Json)}
    (h : ∀ m ∈ members, readsBack m.2 = true) : readsBackMembers members = true := by
  induction members with
  | nil => rfl
  | cons m rest ih =>
    rw [readsBackMembers, Bool.and_eq_true]
    exact ⟨h m List.mem_cons_self, ih fun w hw => h w (List.mem_cons_of_mem m hw)⟩

/-- An object with literal names is read back when no name is repeated. -/
theorem readsBack_ofObject {members : List (String × Json)} (hnames : (members.map Prod.fst).Nodup)
    (h : ∀ m ∈ members, readsBack m.2 = true) : readsBack (ofObject members) = true := by
  rw [ofObject, readsBack, Bool.and_eq_true, decide_eq_true_eq]
  constructor
  · have hmap : (members.map fun m => (js m.1, m.2)).map Prod.fst =
        (members.map Prod.fst).map js := by
      rw [List.map_map, List.map_map]
      rfl
    rw [hmap]
    exact hnames.map js_injective
  · refine readsBackMembers_of fun m hm => ?_
    obtain ⟨m', hm', rfl⟩ := List.mem_map.mp hm
    exact h m' hm'

theorem readsBack_ofOption {f : α → Json} (h : ∀ a, readsBack (f a) = true) (o : Option α) :
    readsBack (ofOption f o) = true := by
  cases o with
  | none => rfl
  | some a => exact h a

end JsonText
