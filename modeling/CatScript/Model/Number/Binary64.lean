/-!
# Binary floating point, seen as natural numbers

Every finite 64-bit float is a whole number of units of `2 ^ -1074`, the smallest positive one.
A magnitude is the bit pattern of a float without its sign, and `units` says how many units a
finite magnitude stands for. In the other direction `nearest` rounds a quotient of natural numbers
to the nearest magnitude, a tie going to the even pattern and what is too large to infinity.
-/

set_option autoImplicit false

namespace CatScript.Binary64

/-- The units in one. -/
def unitsPerOne : Nat := Nat.pow 2 1074

/-- The magnitude of infinity. The finite ones lie below it, those that are no number above. -/
def infinity : Nat := 0x7FF0000000000000

/-- The magnitude of the value that is no number. -/
def notANumber : Nat := 0x7FF8000000000000

/-- The sign bit. -/
def signBit : Nat := Nat.pow 2 63

/-- The 53-bit significand of a finite magnitude. -/
def significand (magnitude : Nat) : Nat :=
  if magnitude < Nat.pow 2 52 then magnitude else magnitude % Nat.pow 2 52 + Nat.pow 2 52

/-- How often the significand of a finite magnitude is doubled. -/
def exponent (magnitude : Nat) : Nat := magnitude / Nat.pow 2 52 - 1

/-- How many units a finite magnitude stands for. -/
def units (magnitude : Nat) : Nat :=
  significand magnitude * Nat.pow 2 (exponent magnitude)

/-- The whole number nearest to a quotient; of two equally near ones the even one. -/
def roundHalfEven (numerator denominator : Nat) : Nat :=
  let quotient := numerator / denominator
  let rest := numerator % denominator
  if 2 * rest < denominator ∨ (2 * rest = denominator ∧ quotient % 2 = 0) then quotient
  else quotient + 1

/-- The magnitude nearest to a quotient. The exponent leaves 53 bits before the point, and a
significand that rounds up to 54 bits carries into it. -/
def nearest (numerator denominator : Nat) : Nat :=
  let scaled := numerator * unitsPerOne
  let exponent := (scaled / denominator).log2 - 52
  min (exponent * Nat.pow 2 52 + roundHalfEven scaled (denominator * Nat.pow 2 exponent)) infinity

/-- The float with a sign and a magnitude. -/
def ofParts (negative : Bool) (magnitude : Nat) : Float :=
  Float.ofBits (UInt64.ofNat (if negative then magnitude + signBit else magnitude))

/-- The bits of a float without its sign. -/
def magnitude (x : Float) : Nat := x.toBits.toNat % signBit

/-- Whether the sign bit of a float is set. -/
def isNegative (x : Float) : Bool := signBit ≤ x.toBits.toNat

end CatScript.Binary64
