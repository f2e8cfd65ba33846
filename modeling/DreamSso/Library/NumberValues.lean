import DreamSso.Library.JsonValues
import Mathlib.Data.Rat.Defs

/-!
The exact value of a JavaScript number, and the whole numbers and times among them.
-/
namespace NumberValues

open JsonValues

/-- The number in exact arithmetic; an infinite one has none and is never asked. -/
def numberValue : JsNumber → ℚ
  | .int n => n
  | .scientific negative whole fraction exponent _ =>
      let digits : ℕ := fraction.foldl (fun acc d => 10 * acc + d.val) whole
      let power : ℤ := exponent.getD 0 - fraction.length
      (if negative then -1 else 1) * (digits * 10 ^ power.toNat) / 10 ^ (-power).toNat
  | .infinite _ => 0

def maxSafeInteger : ℕ := 2 ^ 53 - 1

/-- The farthest instant of a Date, in milliseconds. -/
def maxTime : ℕ := 8640000000000000

/-- Number.isSafeInteger of a value that is not negative. -/
def safeNatural? : Json → Option ℕ
  | .num (.int (.ofNat n)) => if n ≤ maxSafeInteger then some n else none
  | _ => none

/-- The time of a Date made from a number that is not negative; a fraction of a millisecond
is cut off. -/
def timeOf? : JsNumber → Option ℕ
  | .infinite _ => none
  | n =>
      let value := numberValue n
      if 0 ≤ value ∧ value ≤ maxTime then some value.floor.toNat else none

end NumberValues
