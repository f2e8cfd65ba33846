import DreamSso.Library.JsStrings
import Mathlib.Data.Int.Order.Basic

/-!
Date.prototype.toISOString and the part of Date.parse that reads such texts back.
A day is turned into a year, a month and a day of the proleptic Gregorian calendar
by counting from the first of March, so that the leap day ends a year.
-/
namespace IsoDates

open JsStrings

/-- Milliseconds since the epoch, in the range a Date can hold. -/
structure Instant where
  ms : ℤ
  range : -8640000000000000 ≤ ms ∧ ms ≤ 8640000000000000
  deriving DecidableEq

/-- new Date(ms); `none` is the RangeError that its toISOString throws. -/
def instant? (ms : ℤ) : Option Instant :=
  if h : -8640000000000000 ≤ ms ∧ ms ≤ 8640000000000000 then some ⟨ms, h⟩ else none

theorem instant?_ms (t : Instant) : instant? t.ms = some t := dif_pos t.range

theorem instant?_eq_some {ms : ℤ} {t : Instant} (h : instant? ms = some t) : t.ms = ms := by
  unfold instant? at h
  split_ifs at h
  exact congrArg Instant.ms (Option.some.inj h).symm

/-- The century, the four-year span of it and the year of that of a day in a cycle
of 400 years. The last one of each may be a day longer. -/
def cycleParts (day : ℤ) : ℤ × ℤ × ℤ :=
  let century := min 3 (day / 36524)
  let span := (day - 36524 * century) / 1461
  let year := min 3 ((day - 36524 * century - 1461 * span) / 365)
  (century, span, year)

def cycleYear (day : ℤ) : ℤ :=
  100 * (cycleParts day).1 + 4 * (cycleParts day).2.1 + (cycleParts day).2.2

/-- The days of a cycle before a year of it. -/
def cycleDays (year : ℤ) : ℤ := 365 * year + year / 4 - year / 100

theorem cycleDays_parts {century span year : ℤ} (hspan : 0 ≤ span ∧ span ≤ 24)
    (hyear : 0 ≤ year ∧ year ≤ 3) :
    cycleDays (100 * century + 4 * span + year) = 36524 * century + 1461 * span + 365 * year := by
  unfold cycleDays
  omega

theorem cycleYear_bounds {day : ℤ} (h : 0 ≤ day) (hlt : day < 146097) :
    0 ≤ cycleYear day ∧ cycleYear day < 400 ∧ 0 ≤ day - cycleDays (cycleYear day) ∧
      day - cycleDays (cycleYear day) ≤ 365 := by
  obtain ⟨century, hcentury⟩ : ∃ c, c = min 3 (day / 36524) := ⟨_, rfl⟩
  obtain ⟨span, hspan⟩ : ∃ q, q = (day - 36524 * century) / 1461 := ⟨_, rfl⟩
  obtain ⟨year, hyear⟩ : ∃ y, y = min 3 ((day - 36524 * century - 1461 * span) / 365) := ⟨_, rfl⟩
  have hparts : cycleYear day = 100 * century + 4 * span + year := by
    rw [hyear, hspan, hcentury]
    rfl
  have hc : 0 ≤ century ∧ century ≤ 3 ∧ 0 ≤ day - 36524 * century ∧
      day - 36524 * century ≤ 36524 := by omega
  have hq : 0 ≤ span ∧ span ≤ 24 ∧ 0 ≤ day - 36524 * century - 1461 * span ∧
      day - 36524 * century - 1461 * span ≤ 1460 := by omega
  have hy : 0 ≤ year ∧ year ≤ 3 ∧ 0 ≤ day - 36524 * century - 1461 * span - 365 * year ∧
      day - 36524 * century - 1461 * span - 365 * year ≤ 365 := by omega
  have hdays : cycleDays (cycleYear day) = 36524 * century + 1461 * span + 365 * year := by
    rw [hparts, cycleDays_parts ⟨hq.1, hq.2.1⟩ ⟨hy.1, hy.2.1⟩]
  rw [hdays, hparts]
  omega

structure CivilDate where
  year : ℤ
  month : ℤ
  day : ℤ

/-- The date of a day in a month counted from March. -/
def marchDate (cycle year march day : ℤ) : CivilDate :=
  { year := if march < 10 then 400 * cycle + year else 400 * cycle + year + 1
    month := if march < 10 then march + 3 else march - 9
    day }

/-- The date of a day of a year that starts in March. -/
def dateOf (cycle year yearDay : ℤ) : CivilDate :=
  let march := (5 * yearDay + 2) / 153
  marchDate cycle year march (yearDay - (153 * march + 2) / 5 + 1)

/-- The date of a day counted from the epoch. -/
def civilDate (days : ℤ) : CivilDate :=
  let cycleDay := (days + 719468) % 146097
  dateOf ((days + 719468) / 146097) (cycleYear cycleDay) (cycleDay - cycleDays (cycleYear cycleDay))

/-- The day a date stands for. -/
def dayNumber (d : CivilDate) : ℤ :=
  let march := if d.month ≤ 2 then d.month + 9 else d.month - 3
  let year := if d.month ≤ 2 then d.year - 1 else d.year
  146097 * (year / 400) + cycleDays (year % 400) + (153 * march + 2) / 5 + d.day - 1 - 719468

theorem dateOf_bounds {cycle year yearDay : ℤ} (h : 0 ≤ yearDay ∧ yearDay ≤ 365) :
    (1 ≤ (dateOf cycle year yearDay).month ∧ (dateOf cycle year yearDay).month ≤ 12) ∧
      (1 ≤ (dateOf cycle year yearDay).day ∧ (dateOf cycle year yearDay).day ≤ 31) := by
  simp only [dateOf, marchDate]
  omega

theorem dayNumber_marchDate {cycle year march day : ℤ} (hyear : 0 ≤ year ∧ year < 400)
    (hmarch : 0 ≤ march ∧ march ≤ 11) : dayNumber (marchDate cycle year march day) =
      146097 * cycle + cycleDays year + (153 * march + 2) / 5 + day - 1 - 719468 := by
  have hdiv : (400 * cycle + year) / 400 = cycle := by omega
  have hmod : (400 * cycle + year) % 400 = year := by omega
  simp only [dayNumber, marchDate]
  by_cases hspring : march < 10
  · have hmonth : ¬ march + 3 ≤ 2 := by omega
    simp only [hspring, hmonth, if_true, if_false, hdiv, hmod]
    rw [show march + 3 - 3 = march by omega]
  · have hmonth : march - 9 ≤ 2 := by omega
    have hnext : 400 * cycle + year + 1 - 1 = 400 * cycle + year := by omega
    simp only [hspring, hmonth, if_true, if_false, hnext, hdiv, hmod]
    rw [show march - 9 + 9 = march by omega]

theorem dayNumber_dateOf {cycle year yearDay : ℤ} (hyear : 0 ≤ year ∧ year < 400)
    (h : 0 ≤ yearDay ∧ yearDay ≤ 365) : dayNumber (dateOf cycle year yearDay) =
      146097 * cycle + cycleDays year + yearDay - 719468 := by
  have hmarch : 0 ≤ (5 * yearDay + 2) / 153 ∧ (5 * yearDay + 2) / 153 ≤ 11 := by omega
  rw [dateOf, dayNumber_marchDate hyear hmarch]
  omega

theorem cycleDay_bounds (days : ℤ) :
    0 ≤ (days + 719468) % 146097 ∧ (days + 719468) % 146097 < 146097 := by omega

theorem dayNumber_civilDate (days : ℤ) : dayNumber (civilDate days) = days := by
  obtain ⟨hlow, hhigh⟩ := cycleDay_bounds days
  obtain ⟨hyear, hlt, hfirst, hlast⟩ := cycleYear_bounds hlow hhigh
  rw [civilDate, dayNumber_dateOf ⟨hyear, hlt⟩ ⟨hfirst, hlast⟩]
  omega

theorem civilDate_bounds (days : ℤ) :
    (1 ≤ (civilDate days).month ∧ (civilDate days).month ≤ 12) ∧
      (1 ≤ (civilDate days).day ∧ (civilDate days).day ≤ 31) := by
  obtain ⟨hlow, hhigh⟩ := cycleDay_bounds days
  obtain ⟨-, -, hday⟩ := cycleYear_bounds hlow hhigh
  exact dateOf_bounds hday

/-- A year that a Date can hold. -/
theorem civilDate_year {days : ℤ} (h : -100000000 ≤ days ∧ days ≤ 100000000) :
    -999999 ≤ (civilDate days).year ∧ (civilDate days).year ≤ 999999 := by
  obtain ⟨hlow, hhigh⟩ := cycleDay_bounds days
  obtain ⟨hyear, hlt, -⟩ := cycleYear_bounds hlow hhigh
  simp only [civilDate, dateOf, marchDate]
  generalize cycleYear ((days + 719468) % 146097) = year at hyear hlt ⊢
  split_ifs <;> omega

/-- The last digits of a number. -/
def pad : ℕ → ℕ → JsString
  | 0, _ => []
  | width + 1, n => pad width (n / 10) ++ [0x30 + n % 10]

@[simp] theorem length_pad (width n : ℕ) : (pad width n).length = width := by
  induction width generalizing n with
  | zero => rfl
  | succ width ih => simp [pad, ih]

theorem digitsValue_pad {width n : ℕ} (h : n < 10 ^ width) : digitsValue (pad width n) = n := by
  induction width generalizing n with
  | zero =>
    have hzero : n = 0 := by omega
    rw [hzero]
    rfl
  | succ width ih =>
    have hrest := ih (n := n / 10) (by rw [Nat.pow_succ] at h; omega)
    rw [digitsValue] at hrest
    rw [pad, digitsValue, List.foldl_append, hrest]
    simp only [List.foldl_cons, List.foldl_nil]
    omega

def yearText (year : ℤ) : JsString :=
  if 0 ≤ year ∧ year ≤ 9999 then pad 4 year.toNat
  else (if year < 0 then 0x2d else 0x2b) :: pad 6 year.natAbs

/-- A number of fixed width behind a separator. -/
structure Field where
  separator : ℕ
  width : ℕ
  value : ℕ

def fieldsText : List Field → JsString
  | [] => []
  | f :: rest => f.separator :: (pad f.width f.value ++ fieldsText rest)

/-- The month, the day and the time of day in milliseconds. -/
def dateFields (month day time : ℕ) : List Field :=
  [⟨0x2d, 2, month⟩, ⟨0x2d, 2, day⟩, ⟨0x54, 2, time / 3600000⟩, ⟨0x3a, 2, time / 60000 % 60⟩,
    ⟨0x3a, 2, time / 1000 % 60⟩, ⟨0x2e, 3, time % 1000⟩]

def toISOString (t : Instant) : JsString :=
  let date := civilDate (t.ms / 86400000)
  yearText date.year ++ (fieldsText
    (dateFields date.month.toNat date.day.toNat (t.ms % 86400000).toNat) ++ [0x5a])

/-- The year in front of an ISO text, and the text behind it. -/
def takeYear (s : JsString) : ℤ × JsString :=
  if s.head? = some 0x2b then (digitsValue (s.tail.take 6), s.tail.drop 6)
  else if s.head? = some 0x2d then (-digitsValue (s.tail.take 6), s.tail.drop 6)
  else (digitsValue (s.take 4), s.drop 4)

/-- The numbers of these widths, each behind one separator. -/
def readFields : List ℕ → JsString → List ℕ
  | [], _ => []
  | width :: widths, s =>
      digitsValue ((s.drop 1).take width) :: readFields widths (s.drop (width + 1))

/-- The time an ISO text stands for; what any other text gives does not print as that text. -/
def isoTime (s : JsString) : ℤ :=
  match readFields [2, 2, 2, 2, 2, 3] (takeYear s).2 with
  | [month, day, hour, minute, second, millisecond] =>
      dayNumber ⟨(takeYear s).1, month, day⟩ * 86400000 +
        (hour * 3600000 + minute * 60000 + second * 1000 + millisecond)
  | _ => 0

/-- Date.parse of a text that its own toISOString prints. -/
def isoInstant? (s : JsString) : Option Instant :=
  (instant? (isoTime s)).filter fun t => decide (toISOString t = s)

theorem pad_digit {width n u : ℕ} (h : u ∈ pad width n) : isDigitUnit u = true := by
  induction width generalizing n with
  | zero => cases h
  | succ width ih =>
    rcases List.mem_append.mp h with hrest | hlast
    · exact ih hrest
    · rw [List.mem_singleton.mp hlast]
      simp only [isDigitUnit, Bool.and_eq_true, decide_eq_true_eq]
      omega

theorem take_pad (width n : ℕ) (rest : JsString) : (pad width n ++ rest).take width = pad width n ∧
    (pad width n ++ rest).drop width = rest := by
  constructor
  · exact List.take_left' (length_pad width n)
  · exact List.drop_left' (length_pad width n)

theorem takeYear_yearText {year : ℤ} (h : -999999 ≤ year ∧ year ≤ 999999) (rest : JsString) :
    takeYear (yearText year ++ rest) = (year, rest) := by
  unfold yearText
  by_cases hplain : 0 ≤ year ∧ year ≤ 9999
  · obtain ⟨htake, hdrop⟩ := take_pad 4 year.toNat rest
    obtain ⟨u, more, hcons⟩ : ∃ u more, pad 4 year.toNat = u :: more := ⟨_, _, rfl⟩
    have hu : isDigitUnit u = true := pad_digit (hcons ▸ List.mem_cons_self)
    simp only [isDigitUnit, Bool.and_eq_true, decide_eq_true_eq] at hu
    have hhead : (pad 4 year.toNat ++ rest).head? = some u := by rw [hcons]; rfl
    have hsign : u ≠ 0x2b ∧ u ≠ 0x2d := by omega
    rw [if_pos hplain, takeYear, hhead, if_neg (by simpa using hsign.1),
      if_neg (by simpa using hsign.2), htake, hdrop,
      digitsValue_pad (by omega : year.toNat < 10 ^ 4)]
    rw [Int.toNat_of_nonneg hplain.1]
  · obtain ⟨htake, hdrop⟩ := take_pad 6 year.natAbs rest
    have hvalue := digitsValue_pad (by omega : year.natAbs < 10 ^ 6)
    rw [if_neg hplain, takeYear]
    by_cases hneg : year < 0
    · rw [if_pos hneg, if_neg (by simp), if_pos (by simp)]
      simp only [List.cons_append, List.tail_cons, htake, hdrop, hvalue, Prod.mk.injEq, and_true]
      omega
    · rw [if_neg hneg, if_pos (by simp)]
      simp only [List.cons_append, List.tail_cons, htake, hdrop, hvalue, Prod.mk.injEq, and_true]
      omega

theorem readFields_fieldsText {fields : List Field} (h : ∀ f ∈ fields, f.value < 10 ^ f.width)
    (rest : JsString) : readFields (fields.map Field.width) (fieldsText fields ++ rest) =
      fields.map Field.value := by
  induction fields with
  | nil => rfl
  | cons f fields ih =>
    have hvalue := digitsValue_pad (h f List.mem_cons_self)
    obtain ⟨htake, hdrop⟩ := take_pad f.width f.value (fieldsText fields ++ rest)
    rw [List.map_cons, List.map_cons, fieldsText, readFields, List.cons_append, List.append_assoc,
      List.drop_succ_cons, List.drop_succ_cons, List.drop_zero, htake, hdrop, hvalue,
      ih fun g hg => h g (List.mem_cons_of_mem f hg)]

/-- What toISOString prints is read back. -/
theorem isoTime_toISOString (t : Instant) : isoTime (toISOString t) = t.ms := by
  obtain ⟨ms, hlow, hhigh⟩ := t
  have hdays : -100000000 ≤ ms / 86400000 ∧ ms / 86400000 ≤ 100000000 := by omega
  obtain ⟨⟨hmonth, hmonth'⟩, hday, hday'⟩ := civilDate_bounds (ms / 86400000)
  obtain ⟨time, htime⟩ : ∃ n : ℕ, (n : ℤ) = ms % 86400000 := ⟨_, Int.toNat_of_nonneg (by omega)⟩
  have hfields : ∀ f ∈ dateFields (civilDate (ms / 86400000)).month.toNat
      (civilDate (ms / 86400000)).day.toNat time, f.value < 10 ^ f.width := by
    simp only [dateFields, List.forall_mem_cons, List.not_mem_nil, false_imp_iff, implies_true,
      and_true]
    omega
  have hread := readFields_fieldsText hfields [0x5a]
  simp only [dateFields, List.map_cons, List.map_nil] at hread
  have hdate : (⟨(civilDate (ms / 86400000)).year, ((civilDate (ms / 86400000)).month.toNat : ℤ),
      ((civilDate (ms / 86400000)).day.toNat : ℤ)⟩ : CivilDate) = civilDate (ms / 86400000) := by
    rw [Int.toNat_of_nonneg (by omega), Int.toNat_of_nonneg (by omega)]
  simp only [isoTime, toISOString, takeYear_yearText (civilDate_year hdays), ← htime,
    Int.toNat_natCast, dateFields, hread, hdate, dayNumber_civilDate]
  omega

theorem isoInstant?_toISOString (t : Instant) : isoInstant? (toISOString t) = some t := by
  rw [isoInstant?, isoTime_toISOString, instant?_ms]
  simp

example : toISOString ⟨951782400123, by decide⟩ = js "2000-02-29T00:00:00.123Z" := by decide +kernel

theorem pad_plain {width n u : ℕ} (h : u ∈ pad width n) : Plain u := by
  have hdigit := pad_digit h
  simp only [isDigitUnit, Bool.and_eq_true, decide_eq_true_eq] at hdigit
  unfold Plain
  omega

theorem fieldsText_plain {fields : List Field} (h : ∀ f ∈ fields, Plain f.separator) {u : ℕ}
    (hu : u ∈ fieldsText fields) : Plain u := by
  induction fields with
  | nil => cases hu
  | cons f rest ih =>
    rw [fieldsText, List.mem_cons, List.mem_append] at hu
    rcases hu with rfl | hu | hu
    · exact h f List.mem_cons_self
    · exact pad_plain hu
    · exact ih (fun g hg => h g (List.mem_cons_of_mem f hg)) hu

theorem yearText_plain {year : ℤ} {u : ℕ} (h : u ∈ yearText year) : Plain u := by
  unfold yearText at h
  split_ifs at h
  · exact pad_plain h
  · rcases List.mem_cons.mp h with rfl | h
    · exact ⟨by decide, by decide, by decide, by decide⟩
    · exact pad_plain h
  · rcases List.mem_cons.mp h with rfl | h
    · exact ⟨by decide, by decide, by decide, by decide⟩
    · exact pad_plain h

theorem toISOString_plain {t : Instant} {u : ℕ} (h : u ∈ toISOString t) : Plain u := by
  rw [toISOString, List.mem_append, List.mem_append, List.mem_singleton] at h
  rcases h with hyear | hfield | rfl
  · exact yearText_plain hyear
  · refine fieldsText_plain ?_ hfield
    simp [dateFields, Plain]
  · exact ⟨by decide, by decide, by decide, by decide⟩

/-- Years of four digits are written in 24 units, others in 27. -/
theorem toISOString_length (t : Instant) :
    (toISOString t).length = 24 ∨ (toISOString t).length = 27 := by
  have hyear : ∀ year : ℤ, (yearText year).length = 4 ∨ (yearText year).length = 7 := by
    intro year
    unfold yearText
    split_ifs
    · exact .inl (length_pad ..)
    · exact .inr (by rw [List.length_cons, length_pad])
    · exact .inr (by rw [List.length_cons, length_pad])
  have hfields : ∀ month day time : ℕ,
      (fieldsText (dateFields month day time) ++ [0x5a]).length = 20 := by
    intro month day time
    simp [dateFields, fieldsText]
  rw [toISOString, List.length_append, hfields]
  rcases hyear (civilDate (t.ms / 86400000)).year with h | h <;> rw [h] <;> decide

end IsoDates
