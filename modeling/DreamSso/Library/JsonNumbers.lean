import DreamSso.Library.JsonText

/-!
The numbers JSON.parse reads. A numeral is a sign, a whole part, digits behind a
point and an exponent; the text of a number is one, is a numeral of the grammar,
and a number that was read from some text reads back from its own.
-/
namespace JsonNumbers

open FloatFormats JsStrings JsonValues JsonValues.Json JsConversions JsonText

theorem text_int (n : ℤ) :
    (JsNumber.int n).text = (Numeral.mk (decide (n < 0)) n.natAbs [] none).text := by
  cases n with
  | ofNat n =>
    simp [JsNumber.text, intText, Numeral.text, Numeral.unsigned, fractionPart, exponentPart]
  | negSucc n =>
    simp [JsNumber.text, intText, Numeral.text, Numeral.unsigned, fractionPart, exponentPart]

theorem text_scientific (negative : Bool) (whole : ℕ) (fraction : List (Fin 10))
    (exponent : Option ℤ) (shape : fraction ≠ [] ∨ exponent.isSome) :
    (JsNumber.scientific negative whole fraction exponent shape).text =
      (Numeral.mk negative whole fraction exponent).text := by
  simp only [JsNumber.text, Numeral.text, Numeral.unsigned, fractionPart, exponentPart,
    fractionDigits, List.append_assoc]

section Units

theorem decimal_head (n : ℕ) : ∃ u rest, decimal n = u :: rest ∧ isDigitUnit u = true := by
  obtain ⟨u, rest, h⟩ := List.exists_cons_of_ne_nil (decimal_ne_nil n)
  exact ⟨u, rest, h, decimal_digit n u (h ▸ List.mem_cons_self)⟩

/-- No leading zero, except for zero itself. -/
theorem decimal_leading (n : ℕ) : (decimal n).length = 1 ∨ (decimal n).head? ≠ some 0x30 := by
  induction n using Nat.strongRecOn with
  | _ n ih =>
    by_cases hsmall : n < 10
    · left
      rw [decimal, Nat.toDigits_of_lt_base hsmall]
      rfl
    · right
      have hsplit : decimal n = decimal (n / 10) ++ [(n % 10).digitChar.toNat] := by
        rw [decimal, Nat.toDigits_of_base_le (by omega) (by omega), List.map_append]
        rfl
      obtain ⟨u, rest, hu, hdigit⟩ := decimal_head (n / 10)
      rcases ih (n / 10) (by omega) with hone | hhead
      · have hrest : rest = [] := by
          rw [hu, List.length_cons] at hone
          exact List.length_eq_zero_iff.mp (by omega)
        have hvalue := digitsValue_decimal (n / 10)
        rw [hu, hrest] at hvalue
        rw [hsplit, hu, List.cons_append, List.head?_cons]
        rintro ⟨⟩
        simp [digitsValue] at hvalue
        omega
      · rw [hsplit, hu, List.cons_append, List.head?_cons]
        rw [hu, List.head?_cons] at hhead
        exact hhead

theorem fractionDigits_digit {fraction : List (Fin 10)} {u : ℕ} (hu : u ∈ fractionDigits fraction) :
    isDigitUnit u = true := by
  obtain ⟨d, -, rfl⟩ := List.mem_map.mp hu
  have hd := d.isLt
  simp only [isDigitUnit, Bool.and_eq_true, decide_eq_true_eq]
  omega

theorem exponentPart_head (exponent : Option ℤ) :
    ∀ u ∈ (exponentPart exponent).head?, isDigitUnit u = false ∧ u ≠ 0x2e := by
  cases exponent with
  | none => simp [exponentPart]
  | some e =>
    intro u hu
    have h65 : u = 0x65 := by
      cases e <;> simpa [exponentPart, exponentText, eq_comm] using hu
    subst h65
    exact ⟨rfl, by decide⟩

theorem tail_head (fraction : List (Fin 10)) (exponent : Option ℤ) :
    ∀ u ∈ (fractionPart fraction ++ exponentPart exponent).head?, isDigitUnit u = false := by
  unfold fractionPart
  split
  · exact fun u hu => (exponentPart_head exponent u hu).1
  · intro u hu
    rw [List.cons_append, List.head?_cons, Option.mem_some_iff] at hu
    subst hu
    rfl

theorem span_digits {digits rest : JsString} (hdigits : ∀ u ∈ digits, isDigitUnit u = true)
    (hrest : ∀ u ∈ rest.head?, isDigitUnit u = false) :
    (digits ++ rest).takeWhile isDigitUnit = digits ∧
      (digits ++ rest).dropWhile isDigitUnit = rest := by
  rw [List.takeWhile_append_of_pos hdigits, List.dropWhile_append_of_pos hdigits]
  cases rest with
  | nil => simp
  | cons u rest =>
    have hu := hrest u rfl
    simp [List.takeWhile, List.dropWhile, hu]

theorem unsigned_span (q : Numeral) :
    q.unsigned.takeWhile isDigitUnit = decimal q.whole ∧
      q.unsigned.dropWhile isDigitUnit = fractionPart q.fraction ++ exponentPart q.exponent :=
  span_digits (fun u hu => decimal_digit q.whole u hu) (tail_head q.fraction q.exponent)

theorem fraction_span (fraction : List (Fin 10)) (exponent : Option ℤ) :
    (fractionDigits fraction ++ exponentPart exponent).takeWhile isDigitUnit =
        fractionDigits fraction ∧
      (fractionDigits fraction ++ exponentPart exponent).dropWhile isDigitUnit =
        exponentPart exponent :=
  span_digits (fun _ hu => fractionDigits_digit hu) fun u hu => (exponentPart_head exponent u hu).1

theorem unsigned_head (q : Numeral) : ∃ u rest, q.unsigned = u :: rest ∧ isDigitUnit u = true := by
  obtain ⟨u, rest, h, hdigit⟩ := decimal_head q.whole
  exact ⟨u, _, by rw [Numeral.unsigned, h, List.cons_append], hdigit⟩

theorem unsigned_sign (q : Numeral) :
    q.unsigned.head? ≠ some 0x2d ∧ q.unsigned.head? ≠ some 0x2b := by
  obtain ⟨u, rest, h, hdigit⟩ := unsigned_head q
  rw [h, List.head?_cons]
  constructor
  · rintro ⟨⟩
    simp [isDigitUnit] at hdigit
  · rintro ⟨⟩
    simp [isDigitUnit] at hdigit

theorem text_unsigned (q : Numeral) :
    (decide (q.text.head? = some 0x2d)) = q.negative ∧
      (if q.text.head? = some 0x2d then q.text.tail else q.text) = q.unsigned ∧
      (if q.negative = true then q.text.tail else q.text) = q.unsigned := by
  unfold Numeral.text
  cases q.negative with
  | true => simp
  | false =>
    have hsign := (unsigned_sign q).1
    simp [hsign]

end Units

section Readers

theorem exponent?_part (exponent : Option ℤ) :
    exponent? (exponentPart exponent) = some (exponent.getD 0) := by
  have hdigits : ∀ n, decimal n ≠ [] ∧ (decimal n).all isDigitUnit = true := fun n =>
    ⟨decimal_ne_nil n, List.all_eq_true.mpr fun u hu => decimal_digit n u hu⟩
  cases exponent with
  | none => rfl
  | some e =>
    cases e with
    | ofNat n =>
      have hn := hdigits n
      simp [exponentPart, exponentText, exponent?, takeSign, hn, digitsValue_decimal]
    | negSucc n =>
      have hn := hdigits (n + 1)
      have hpart : exponentPart (some (.negSucc n)) = 0x65 :: 0x2d :: decimal (n + 1) := rfl
      rw [hpart]
      simp [exponent?, takeSign, hn, digitsValue_decimal]
      omega

theorem takeSign_text (q : Numeral) : takeSign q.text = (q.negative, q.unsigned) := by
  unfold Numeral.text
  cases q.negative with
  | true => rfl
  | false =>
    obtain ⟨u, rest, h, -⟩ := unsigned_head q
    have hsign := unsigned_sign q
    rw [h, List.head?_cons] at hsign
    simp only [Bool.false_eq_true, if_false, List.nil_append, h]
    unfold takeSign
    split
    · next heq => exact (hsign.2 (congrArg some (List.cons.inj heq).1)).elim
    · next heq => exact (hsign.1 (congrArg some (List.cons.inj heq).1)).elim
    · rfl

/-- The digits of a numeral and the power of ten they are scaled by. -/
theorem decimalLiteral?_text (q : Numeral) : decimalLiteral? q.text =
    some (q.negative, digitsValue (decimal q.whole ++ fractionDigits q.fraction),
      q.exponent.getD 0 - q.fraction.length) := by
  obtain ⟨htake, hdrop⟩ := unsigned_span q
  unfold decimalLiteral?
  rw [takeSign_text]
  simp only [htake, hdrop]
  by_cases hfraction : q.fraction = []
  · have hpart : fractionPart q.fraction = [] := by simp [fractionPart, hfraction]
    rw [hpart, List.nil_append, hfraction]
    have hpoint : ∀ rest, exponentPart q.exponent ≠ 0x2e :: rest := by
      intro rest hrest
      exact (exponentPart_head q.exponent 0x2e (by rw [hrest]; rfl)).2 rfl
    split
    · next hsplit => exact (hpoint _ hsplit).elim
    · simp [decimal_ne_nil, exponent?_part, fractionDigits]
  · have hpart : fractionPart q.fraction = 0x2e :: fractionDigits q.fraction := if_neg hfraction
    obtain ⟨hfrac, hexp⟩ := fraction_span q.fraction q.exponent
    rw [hpart, List.cons_append]
    simp only [hfrac, hexp, exponent?_part, decimal_ne_nil, false_and, if_false, Option.map_some]
    simp [fractionDigits]

theorem isNumberText_text (q : Numeral) : isNumberText q.text = true := by
  obtain ⟨htake, hdrop⟩ := unsigned_span q
  unfold isNumberText
  simp only [(text_unsigned q).2.1, htake, hdrop]
  have hleading : decide (decimal q.whole ≠ []) = true ∧
      (decide ((decimal q.whole).length = 1) ||
        decide ((decimal q.whole).head? ≠ some 0x30)) = true := by
    refine ⟨decide_eq_true (decimal_ne_nil _), ?_⟩
    rw [Bool.or_eq_true, decide_eq_true_eq, decide_eq_true_eq]
    exact decimal_leading q.whole
  rw [hleading.1, hleading.2]
  by_cases hfraction : q.fraction = []
  · have hpart : fractionPart q.fraction = [] := by simp [fractionPart, hfraction]
    rw [hpart, List.nil_append]
    have hpoint : (exponentPart q.exponent).head? ≠ some 0x2e := fun h =>
      (exponentPart_head q.exponent 0x2e h).2 rfl
    simp [hpoint, exponent?_part]
  · have hpart : fractionPart q.fraction = 0x2e :: fractionDigits q.fraction := if_neg hfraction
    obtain ⟨hfrac, hexp⟩ := fraction_span q.fraction q.exponent
    have hdigits : fractionDigits q.fraction ≠ [] := by simpa [fractionDigits] using hfraction
    rw [hpart, List.cons_append]
    simp [hfrac, hexp, exponent?_part, hdigits]

theorem isNumberUnit_digit {u : ℕ} (h : isDigitUnit u = true) : isNumberUnit u = true := by
  simp [isNumberUnit, h]

theorem isNumberUnit_text (q : Numeral) : q.text.all isNumberUnit = true := by
  have hdecimal : ∀ n u, u ∈ decimal n → isNumberUnit u = true := fun n u hu =>
    isNumberUnit_digit (decimal_digit n u hu)
  have hexponent : ∀ u ∈ exponentPart q.exponent, isNumberUnit u = true := by
    intro u hu
    cases he : q.exponent with
    | none => simp [exponentPart, he] at hu
    | some e =>
      cases e with
      | ofNat n =>
        simp only [exponentPart, he, Option.elim_some, exponentText, List.mem_cons] at hu
        rcases hu with rfl | rfl | hu
        · rfl
        · rfl
        · exact hdecimal n u hu
      | negSucc n =>
        simp only [exponentPart, he, Option.elim_some, exponentText, List.mem_cons] at hu
        rcases hu with rfl | rfl | hu
        · rfl
        · rfl
        · exact hdecimal (n + 1) u hu
  have hfraction : ∀ u ∈ fractionPart q.fraction, isNumberUnit u = true := by
    intro u hu
    unfold fractionPart at hu
    split at hu
    · simp at hu
    · rcases List.mem_cons.mp hu with rfl | hu
      · rfl
      · exact isNumberUnit_digit (fractionDigits_digit hu)
  rw [List.all_eq_true]
  intro u hu
  unfold Numeral.text Numeral.unsigned at hu
  rcases List.mem_append.mp hu with hsign | hu
  · split at hsign
    · rw [List.mem_singleton.mp hsign]
      rfl
    · simp at hsign
  · rcases List.mem_append.mp hu with hu | hu
    · exact hdecimal q.whole u hu
    · rcases List.mem_append.mp hu with hu | hu
      · exact hfraction u hu
      · exact hexponent u hu

end Readers

section Digits

theorem digitsValue_append (s t : JsString) :
    digitsValue (s ++ t) = t.foldl (fun acc u => 10 * acc + (u - 0x30)) (digitsValue s) :=
  List.foldl_append

/-- The last digits of a number behind others are that number beside theirs. -/
theorem digitsValue_lastDigits (s : JsString) (n rest : ℕ) (h : rest < 10 ^ n) :
    digitsValue (s ++ fractionDigits (lastDigits n rest)) = digitsValue s * 10 ^ n + rest := by
  induction n generalizing rest with
  | zero =>
    have hzero : rest = 0 := by simpa using h
    simp [lastDigits, fractionDigits, hzero]
  | succ n ih =>
    have hpow : 10 ^ (n + 1) = 10 * 10 ^ n := Nat.pow_succ'
    have hrest := ih (rest / 10) (by omega)
    have hlast : fractionDigits (lastDigits (n + 1) rest) =
        fractionDigits (lastDigits n (rest / 10)) ++ [0x30 + rest % 10] := by
      simp [fractionDigits, lastDigits, Fin.ofNat]
    rw [hlast, ← List.append_assoc, digitsValue_append, hrest, hpow]
    simp only [List.foldl_cons, List.foldl_nil]
    have hscaled : digitsValue s * (10 * 10 ^ n) = 10 * (digitsValue s * 10 ^ n) :=
      Nat.mul_left_comm _ _ _
    omega

theorem lastDigits_length (n rest : ℕ) : (lastDigits n rest).length = n := by
  induction n generalizing rest with
  | zero => rfl
  | succ n ih => rw [lastDigits, List.length_append, ih, List.length_singleton]

theorem decimal_length_pos (n : ℕ) : 0 < (decimal n).length :=
  List.length_pos_of_ne_nil (decimal_ne_nil n)

/-- The first digit of a number is no zero. -/
theorem pow_length_le {n : ℕ} (h : n ≠ 0) : 10 ^ ((decimal n).length - 1) ≤ n := by
  have hpos := decimal_length_pos n
  by_cases hone : (decimal n).length = 1
  · rw [hone]
    exact Nat.pos_of_ne_zero h
  · refine Nat.le_of_not_lt fun hless => ?_
    have hshort := (Nat.length_toDigits_le_iff (b := 10) (by omega) (by omega)).mpr hless
    rw [decimal, List.length_map] at hpos hone hshort
    omega

theorem decimalLiteral?_pointed (negative : Bool) (digits behind : ℕ) (exponent : Option ℤ) :
    decimalLiteral? (pointed negative digits behind exponent).text =
      some (negative, digits, exponent.getD 0 - behind) := by
  have hrest : digits % 10 ^ behind < 10 ^ behind := Nat.mod_lt _ (Nat.pow_pos (by omega))
  rw [decimalLiteral?_text]
  simp only [pointed, digitsValue_lastDigits _ _ _ hrest, digitsValue_decimal, lastDigits_length,
    Nat.div_add_mod']

/-- What digits and a power of ten are written as stands for them, or for the digits with all
their zeros where these are written out. -/
theorem decimalLiteral?_numeralOf (negative : Bool) (digits : ℕ) (power : ℤ) :
    (0 ≤ power ∧ numeralOf negative digits power = ⟨negative, digits * 10 ^ power.toNat, [], none⟩ ∧
      decimalLiteral? (numeralOf negative digits power).text =
        some (negative, digits * 10 ^ power.toNat, 0)) ∨
    ((0 ≤ power → 21 < power + (decimal digits).length) ∧
      decimalLiteral? (numeralOf negative digits power).text = some (negative, digits, power)) := by
  have hlength := decimal_length_pos digits
  unfold numeralOf
  simp only
  split_ifs with hwhole hpoint
  · refine .inl ⟨hwhole.1, rfl, ?_⟩
    rw [decimalLiteral?_text]
    simp [fractionDigits, digitsValue_decimal]
  · refine .inr ⟨by omega, ?_⟩
    rw [decimalLiteral?_pointed, Option.getD_none]
    congr
    omega
  · refine .inr ⟨by omega, ?_⟩
    rw [decimalLiteral?_pointed, Option.getD_some]
    congr
    omega

end Digits

section ReadBack

theorem text_number (q : Numeral) (h : q.whole ≠ 0 ∨ q.fraction ≠ [] ∨ q.exponent.isSome) :
    q.number.text = q.text := by
  obtain ⟨negative, whole, fraction, exponent⟩ := q
  unfold Numeral.number
  split
  · exact text_scientific negative whole fraction exponent _
  · next hshape =>
    obtain ⟨hfraction, hexponent⟩ := not_or.mp hshape
    simp only [ne_eq, Decidable.not_not] at hfraction
    have hnone : exponent = none := by simpa using hexponent
    subst hfraction hnone
    have hwhole : whole ≠ 0 := by simpa using h
    cases negative with
    | true =>
      have hneg : decide (-(whole : ℤ) < 0) = true := decide_eq_true (by omega)
      show (JsNumber.int (-whole)).text = _
      rw [text_int, hneg, Int.natAbs_neg, Int.natAbs_natCast]
    | false =>
      have hpos : decide ((whole : ℤ) < 0) = false := decide_eq_false (by omega)
      show (JsNumber.int whole).text = _
      rw [text_int, hpos, Int.natAbs_natCast]

theorem numberOf_int {m : ℤ} (h : m.natAbs ≤ 2 ^ 53) : numberOf (JsNumber.int m).text = .int m := by
  have hliteral : decimalLiteral? (JsNumber.int m).text = some (decide (m < 0), m.natAbs, 0) := by
    rw [text_int, decimalLiteral?_text]
    simp [fractionDigits, digitsValue_decimal]
  simp only [numberOf, hliteral]
  rw [if_pos ⟨Int.le_refl 0, by simpa using h⟩]
  have hsign : (if decide (m < 0) then (-1 : ℤ) else 1) * ((m.natAbs : ℤ) * 1) = m := by
    by_cases hneg : m < 0
    · rw [decide_eq_true hneg, if_pos rfl]
      omega
    · rw [decide_eq_false hneg, if_neg Bool.false_ne_true]
      omega
  exact congrArg JsNumber.int hsign

theorem readsBack_int {m : ℤ} (h : m.natAbs ≤ 2 ^ 53) : readsBack (.num (.int m)) = true := by
  rw [readsBack, numberOf_int h, text_int, isNumberUnit_text, isNumberText_text]
  simp

theorem sign_natAbs (negative : Bool) (k : ℕ) :
    ((if negative then (-1 : ℤ) else 1) * k).natAbs = k := by
  cases negative <;> simp

theorem numeralOf_shape (negative : Bool) {digits : ℕ} (power : ℤ) (h : digits ≠ 0) :
    (numeralOf negative digits power).whole ≠ 0 ∨
      (numeralOf negative digits power).fraction ≠ [] ∨
      (numeralOf negative digits power).exponent.isSome := by
  unfold numeralOf
  simp only
  split_ifs with hwhole hpoint
  · exact .inl (Nat.mul_ne_zero h (Nat.pow_pos (by omega)).ne')
  · refine .inr (.inl (List.ne_nil_of_length_pos ?_))
    rw [pointed, lastDigits_length]
    omega
  · exact .inr (.inr rfl)

theorem digits_ne_zero {digits : ℕ} {power : ℤ} (h : double.numberOf digits power ≠ 0) :
    digits ≠ 0 := by
  rintro rfl
  exact h numberOf_zero

/-- The number a numeral of a double stands for is read from its text. -/
theorem numberOf_numeralOf {negative : Bool} {digits : ℕ} {power : ℤ}
    (hshort : double.shortest (double.numberOf digits power) = (digits, power))
    (hsome : double.numberOf digits power ≠ 0)
    (hlimit : ¬ double.limit ≤ double.numberOf digits power) :
    numberOf (numeralOf negative digits power).text = (numeralOf negative digits power).number := by
  rcases decimalLiteral?_numeralOf negative digits power with ⟨hpower, hq, hread⟩ | ⟨hlarge, hread⟩
  · have hsame := @numberOf_zeros double digits power hpower
    by_cases hsmall : 0 ≤ (0 : ℤ) ∧ digits * 10 ^ power.toNat * 10 ^ (0 : ℤ).toNat ≤ 2 ^ 53
    · simp only [numberOf, hread, if_pos hsmall]
      rw [hq]
      cases negative with
      | true => simp [Numeral.number]
      | false => simp [Numeral.number]
    · simp only [numberOf, hread, if_neg hsmall, hsame, if_neg hsome, if_neg hlimit, hshort]
  · have hslow : ¬ (0 ≤ power ∧ digits * 10 ^ power.toNat ≤ 2 ^ 53) := by
      rintro ⟨hpower, hsmall⟩
      -- a number of more than 21 digits
      have hfirst := pow_length_le (digits_ne_zero hsome)
      have hlength := decimal_length_pos digits
      have hlarge := hlarge hpower
      have hscaled : 10 ^ ((decimal digits).length - 1) * 10 ^ power.toNat ≤
          digits * 10 ^ power.toNat := Nat.mul_le_mul_right _ hfirst
      rw [← Nat.pow_add] at hscaled
      have hmany : 10 ^ 21 ≤ 10 ^ ((decimal digits).length - 1 + power.toNat) :=
        Nat.pow_le_pow_right (by omega) (by omega)
      have hbound : 2 ^ 53 < 10 ^ 21 := by decide
      omega
    simp only [numberOf, hread, if_neg hslow, if_neg hsome, if_neg hlimit, hshort]

theorem readsBack_numeralOf {negative : Bool} {digits : ℕ} {power : ℤ}
    (hshort : double.shortest (double.numberOf digits power) = (digits, power))
    (hsome : double.numberOf digits power ≠ 0)
    (hlimit : ¬ double.limit ≤ double.numberOf digits power) :
    readsBack (printed (.num (numeralOf negative digits power).number)) = true := by
  have hback : numberOf (numeralOf negative digits power).text = _ :=
    numberOf_numeralOf hshort hsome hlimit
  have hshape := numeralOf_shape negative power (digits_ne_zero hsome)
  generalize numeralOf negative digits power = q at hback hshape
  have hprinted : printed (.num q.number) = .num q.number := by
    unfold Numeral.number
    split
    · rfl
    · rfl
  rw [hprinted, readsBack, text_number q hshape, hback, isNumberUnit_text, isNumberText_text]
  simp

/-- A number that was read, and is finite, reads back from its own text. -/
theorem readsBack_numberOf (s : JsString) : readsBack (printed (.num (numberOf s))) = true := by
  have hzero : readsBack (printed (.num (.int 0))) = true := readsBack_int (by decide)
  cases hliteral : decimalLiteral? s with
  | none =>
    rw [numberOf, hliteral]
    exact hzero
  | some literal =>
    obtain ⟨negative, digits, power⟩ := literal
    simp only [numberOf, hliteral]
    by_cases hwhole : 0 ≤ power ∧ digits * 10 ^ power.toNat ≤ 2 ^ 53
    · have hcast : (digits : ℤ) * 10 ^ power.toNat = (digits * 10 ^ power.toNat : ℕ) := by simp
      rw [if_pos hwhole]
      refine readsBack_int ?_
      rw [hcast, sign_natAbs]
      exact hwhole.2
    rw [if_neg hwhole]
    split_ifs with hnothing hinfinite
    · exact hzero
    · rfl
    · have hread := shortest_sound (@nearest_numberOf double digits power)
      obtain ⟨⟨digits', power'⟩, hshort⟩ : ∃ short,
        double.shortest (double.numberOf digits power) = short := ⟨_, rfl⟩
      rw [hshort] at hread ⊢
      rw [← hread] at hshort hnothing hinfinite
      exact readsBack_numeralOf hshort hnothing hinfinite

end ReadBack

end JsonNumbers
