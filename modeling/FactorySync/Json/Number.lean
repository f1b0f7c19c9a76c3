import FactorySync.Text.CharClass

/-!
# Numbers in JSON

The value of a number is worked out in two steps. Its leading digits, as many as 64 bits hold, are
its mantissa; the digits after those only move the exponent. The value is then the product of the
mantissa and a power of ten, and it is in range if that product rounds to a finite double. Both
factors are rounded to doubles first, so the product can leave the range where the number itself is
a little smaller than the largest double, and stay in it where the number is a little larger.
-/

namespace FactorySync
namespace Json

/-- A mantissa and the power of ten it is multiplied by. -/
structure Number where
  mantissa : Nat := 0
  exponent : Int := 0
  deriving Repr, DecidableEq

namespace Number

/-- The mantissas from this one on take more than 64 bits. -/
def mantissaLimit : Nat := Nat.pow 2 64

/-- The largest power of ten that is a double has this exponent. -/
def maxExponent : Nat := 308

/-- The numbers from this one on round to no finite double: half a unit in the last place above the
largest one, `2 ^ 1024 - 2 ^ 970`. -/
def doubleLimit : Nat := Nat.pow 2 1024 - Nat.pow 2 970

/-- The nearest number with 53 significant bits, of two such the one whose last bit is 0. -/
def nearestDouble (n : Nat) : Nat :=
  let unit := Nat.pow 2 (n.log2 - 52)
  let low := n / unit
  let rest := n % unit
  let roundsUp := 2 * rest > unit || (2 * rest == unit && low % 2 == 1)
  (if roundsUp then low + 1 else low) * unit

/-- Appends digits to a mantissa while it has room for them. Yields the digits that are left. -/
def appendDigits (mantissa : Nat) : List Char → Nat × List Char
  | [] => (mantissa, [])
  | c :: digits =>
    let longer := 10 * mantissa + CharClass.hexValue c
    if longer < mantissaLimit then appendDigits longer digits else (mantissa, c :: digits)

/-- The number with some digits before the point and some after it. -/
def ofDigits (whole part : List Char) : Number :=
  let (mantissa, left) := appendDigits 0 whole
  let (mantissa, ignored) := appendDigits mantissa part
  { mantissa, exponent := (left.length : Int) - (part.length - ignored.length : Nat) }

/-- Moves the point to the right. -/
def scale (places : Int) (n : Number) : Number := { n with exponent := n.exponent + places }

/-- Whether the value is too large for a double. -/
def isTooLarge (n : Number) : Bool :=
  if n.mantissa = 0 ∨ n.exponent < 0 then false
  else if n.exponent > maxExponent then true
  else
    let power := nearestDouble (Nat.pow 10 n.exponent.toNat)
    nearestDouble n.mantissa * power ≥ doubleLimit

end Number
end Json
end FactorySync
