import DreamSso.Library.JsStrings

/-!
Binary floating point and its decimal numerals. A number that is not negative is counted in
units of the smallest one, so it is a natural number: one with no more significant bits than
the format has. A numeral is read as the nearest such number, and a number is written with as
few digits as are read as that number.
-/
namespace FloatFormats

/-- A format: how many bits of a number are significant, and the powers of two of its smallest
number and behind its largest one. -/
structure Format where
  bits : ℕ
  depth : ℕ
  height : ℕ
  some_bits : 0 < bits

def double : Format := ⟨53, 1074, 1024, by decide⟩

/-- The quotient rounded to the nearest integer, and to the even one between two. -/
def roundEven (top bottom : ℕ) : ℕ :=
  let rest := 2 * (top % bottom)
  if rest < bottom ∨ (rest = bottom ∧ top / bottom % 2 = 0) then top / bottom
  else top / bottom + 1

namespace Format

variable (f : Format)

/-- The distance between the numbers of a format around so many units. -/
def spacing (units : ℕ) : ℕ := 2 ^ (units.log2 + 1 - f.bits)

/-- The number nearest to `top / bottom` units. -/
def nearest (top bottom : ℕ) : ℕ :=
  roundEven top (bottom * f.spacing (top / bottom)) * f.spacing (top / bottom)

/-- The number a numeral of these digits is read as. -/
def numberOf (digits : ℕ) (power : ℤ) : ℕ :=
  f.nearest (digits * 10 ^ power.toNat * 2 ^ f.depth) (10 ^ (-power).toNat)

/-- Numbers from here on are infinite. -/
def limit : ℕ := 2 ^ (f.height + f.depth)

/-- Of the two digit strings around a number, the nearer one of those that are read as it. -/
def closest? (units : ℕ) (power : ℤ) : Option ℕ :=
  let top := units * 10 ^ (-power).toNat
  let bottom := 10 ^ power.toNat * 2 ^ f.depth
  let below := top / bottom
  if f.numberOf below power = units then
    some (if f.numberOf (below + 1) power = units then roundEven top bottom else below)
  else if f.numberOf (below + 1) power = units then some (below + 1)
  else none

/-- The fewest digits that are read as a number, and their power of ten. A search that ends
before leaves all the digits of its exact value. -/
def shortestFrom (units : ℕ) : ℕ → ℤ → ℕ × ℤ
  | 0, _ => (units * 5 ^ f.depth, -f.depth)
  | fuel + 1, power =>
      match f.closest? units power with
      | some digits => (digits, power)
      | none => shortestFrom units fuel (power - 1)

/-- The search starts at the first digit or above it, 10 ^ 0.30103 being 2 and a little, and
goes no further than the last significant bit. -/
def shortest (units : ℕ) : ℕ × ℤ :=
  f.shortestFrom units (f.bits + 3) (((units.log2 : ℤ) - f.depth) * 30103 / 100000 + 1)

end Format

example : double.shortest (double.numberOf 1 (-1)) = (1, -1) := by decide +kernel

-- the double below 10 ^ 23 is the nearest one
example : double.shortest (double.numberOf 100000 18) = (1, 23) := by decide +kernel

example : double.shortest 1 = (5, -324) := by decide +kernel

section Nearest

variable {f : Format} {top bottom units : ℕ}

theorem roundEven_cases (top bottom : ℕ) :
    roundEven top bottom = top / bottom ∨ roundEven top bottom = top / bottom + 1 := by
  unfold roundEven
  simp only
  split
  · exact .inl rfl
  · exact .inr rfl

theorem roundEven_of_dvd (h : bottom ∣ top) (hpos : 0 < bottom) :
    roundEven top bottom = top / bottom := by
  refine if_pos (.inl ?_)
  rw [Nat.mod_eq_zero_of_dvd h]
  omega

theorem spacing_pos (units : ℕ) : 0 < f.spacing units := Nat.two_pow_pos _

/-- No more than the significant bits are left of a number divided by the spacing around it. -/
theorem div_spacing_lt (units : ℕ) : units / f.spacing units < 2 ^ f.bits := by
  refine (Nat.div_lt_iff_lt_mul (spacing_pos units)).mpr ?_
  rw [Format.spacing, ← Nat.pow_add]
  exact Nat.lt_of_lt_of_le Nat.lt_log2_self (Nat.pow_le_pow_right (by omega) (by omega))

/-- A number of that many bits at some spacing is a multiple of the spacing around it. -/
theorem spacing_dvd {steps shift : ℕ} (h : steps ≤ 2 ^ f.bits) :
    f.spacing (steps * 2 ^ shift) ∣ steps * 2 ^ shift := by
  have hbits := f.some_bits
  rcases h.lt_or_eq with hless | rfl
  · by_cases hzero : steps * 2 ^ shift = 0
    · rw [hzero]
      exact Nat.dvd_zero _
    · refine Nat.dvd_mul_left_of_dvd (Nat.pow_dvd_pow 2 ?_) steps
      have hbound : steps * 2 ^ shift < 2 ^ (f.bits + shift) := by
        rw [Nat.pow_add]
        exact Nat.mul_lt_mul_of_pos_right hless (Nat.two_pow_pos shift)
      have hlog := (Nat.log2_lt hzero).mpr hbound
      omega
  · rw [← Nat.pow_add, Format.spacing, Nat.log2_two_pow]
    exact Nat.pow_dvd_pow 2 (by omega)

theorem spacing_nearest (top bottom : ℕ) :
    f.spacing (f.nearest top bottom) ∣ f.nearest top bottom := by
  refine spacing_dvd ?_
  have hless := @div_spacing_lt f (top / bottom)
  rw [Nat.div_div_eq_div_mul] at hless
  rcases roundEven_cases top (bottom * f.spacing (top / bottom)) with h | h
  · omega
  · omega

/-- The nearest number to a number of the format is that number. -/
theorem nearest_nearest (h : units = f.nearest top bottom) : f.nearest units 1 = units := by
  have hdvd : f.spacing units ∣ units := h ▸ spacing_nearest top bottom
  rw [Format.nearest, Nat.div_one, Nat.one_mul, roundEven_of_dvd hdvd (spacing_pos units),
    Nat.div_mul_cancel hdvd]

theorem roundEven_scale {c : ℕ} (hc : 0 < c) :
    roundEven (top * c) (bottom * c) = roundEven top bottom := by
  have hless : 2 * (top % bottom * c) < bottom * c ↔ 2 * (top % bottom) < bottom := by
    rw [← Nat.mul_assoc]
    exact Nat.mul_lt_mul_right hc
  have heq : 2 * (top % bottom * c) = bottom * c ↔ 2 * (top % bottom) = bottom := by
    rw [← Nat.mul_assoc]
    exact Nat.mul_left_inj (Nat.pos_iff_ne_zero.mp hc)
  simp only [roundEven, Nat.mul_div_mul_right _ _ hc, Nat.mul_mod_mul_right, hless, heq]

/-- The nearest number is that of a quotient, however it is written. -/
theorem nearest_scale {c : ℕ} (hc : 0 < c) :
    f.nearest (top * c) (bottom * c) = f.nearest top bottom := by
  rw [Format.nearest, Nat.mul_div_mul_right _ _ hc, Nat.mul_right_comm bottom c,
    roundEven_scale hc, Format.nearest]

end Nearest

section Numerals

variable {f : Format} {units digits : ℕ} {power : ℤ}

theorem nearest_numberOf : f.nearest (f.numberOf digits power) 1 = f.numberOf digits power :=
  nearest_nearest rfl

theorem numberOf_zero : f.numberOf 0 power = 0 := by
  rw [Format.numberOf, Format.nearest, Nat.zero_mul, Nat.zero_mul,
    roundEven_of_dvd (Nat.dvd_zero _) ?_, Nat.zero_div, Nat.zero_mul]
  exact Nat.mul_pos (Nat.pow_pos (by omega)) (spacing_pos _)

/-- Zeros behind the digits of a numeral are a power of ten. -/
theorem numberOf_zeros (h : 0 ≤ power) :
    f.numberOf (digits * 10 ^ power.toNat) 0 = f.numberOf digits power := by
  have hnone : (-power).toNat = 0 := by omega
  rw [Format.numberOf, Format.numberOf, hnone, Int.toNat_zero, Int.neg_zero, Int.toNat_zero,
    Nat.pow_zero, Nat.mul_one]

/-- The exact value of a number is read as that number. -/
theorem numberOf_exact (h : f.nearest units 1 = units) :
    f.numberOf (units * 5 ^ f.depth) (-f.depth) = units := by
  have hpower : (-(f.depth : ℤ)).toNat = 0 := by omega
  have hback : (-(-(f.depth : ℤ))).toNat = f.depth := by omega
  have hscaled := @nearest_scale f units 1 (10 ^ f.depth) (Nat.pow_pos (by omega))
  rw [Nat.one_mul] at hscaled
  rw [Format.numberOf, hpower, hback, Nat.pow_zero, Nat.mul_one, Nat.mul_assoc, ← Nat.mul_pow]
  exact hscaled.trans h

theorem closest?_sound (h : f.closest? units power = some digits) :
    f.numberOf digits power = units := by
  unfold Format.closest? at h
  simp only at h
  split_ifs at h with hbelow habove habove
  · obtain rfl := Option.some.inj h
    rcases roundEven_cases (units * 10 ^ (-power).toNat) (10 ^ power.toNat * 2 ^ f.depth) with
      hq | hq
    · rw [hq]
      exact hbelow
    · rw [hq]
      exact habove
  · obtain rfl := Option.some.inj h
    exact hbelow
  · obtain rfl := Option.some.inj h
    exact habove

theorem shortestFrom_sound (h : f.nearest units 1 = units) (fuel : ℕ) (power : ℤ) :
    f.numberOf (f.shortestFrom units fuel power).1 (f.shortestFrom units fuel power).2 = units := by
  induction fuel generalizing power with
  | zero => exact numberOf_exact h
  | succ fuel ih =>
    rw [Format.shortestFrom]
    split
    · next hfound => exact closest?_sound hfound
    · exact ih (power - 1)

/-- The shortest digits of a number are read as that number. -/
theorem shortest_sound (h : f.nearest units 1 = units) :
    f.numberOf (f.shortest units).1 (f.shortest units).2 = units :=
  shortestFrom_sound h _ _

end Numerals

end FloatFormats
