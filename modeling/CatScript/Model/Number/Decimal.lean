import CatScript.Model.Number.Binary64
import CatScript.Model.Text.Digits

/-!
# Decimal texts of floats

A decimal is a whole number of steps of `10 ^ -places`. A finite float that is whole is written
exactly, with one zero behind the point. Every other finite one is written with the fewest places
at which some decimal reads back as the same float, and of those decimals with the nearest one, the
larger of two equally near ones; `2 ^ -1074` being a decimal of 1074 places, more are never needed.
The notation is always positional. `ofText?` reads decimals of every form, among them these.
-/

set_option autoImplicit false

namespace CatScript

/-- The number `steps / 10 ^ places`. -/
structure Decimal where
  steps : Nat
  places : Nat
deriving DecidableEq, Repr

namespace Decimal

open Binary64

/-- The magnitude of the float nearest to a decimal. -/
def nearest (d : Decimal) : Nat := Binary64.nearest d.steps (Nat.pow 10 d.places)

/-- Of two decimals one that reads back; of both the lower one, if it is to be preferred. -/
def choose? (low high : Decimal) (lowReads highReads preferLow : Bool) : Option Decimal :=
  match lowReads, highReads with
  | true, true => some (if preferLow then low else high)
  | true, false => some low
  | false, true => some high
  | false, false => none

/-- Of the two decimals of so many places around a finite magnitude, those that read back as it; of
both the nearer one, and in a tie the larger one. -/
def atPlaces? (magnitude places : Nat) : Option Decimal :=
  let scaled := units magnitude * Nat.pow 10 places
  let low : Decimal := ⟨scaled / unitsPerOne, places⟩
  let high : Decimal := ⟨scaled / unitsPerOne + 1, places⟩
  choose? low high (low.nearest == magnitude) (high.nearest == magnitude)
    (2 * (scaled % unitsPerOne) < unitsPerOne)

/-- The decimal with the fewest places that reads back as a finite magnitude. -/
def shortest (magnitude : Nat) : Decimal :=
  ((List.range' 1 1074).findSome? (atPlaces? magnitude)).getD
    ⟨units magnitude * Nat.pow 10 1074 / unitsPerOne, 1074⟩

/-- The decimal that stands for a finite magnitude: a whole one is written out. -/
def ofMagnitude (magnitude : Nat) : Decimal :=
  if units magnitude % unitsPerOne = 0 then ⟨units magnitude / unitsPerOne * 10, 1⟩
  else shortest magnitude

/-- The whole part, a point, and every place. -/
def text (d : Decimal) : List Char :=
  let one := Nat.pow 10 d.places
  Nat.toDigits 10 (d.steps / one) ++ '.' :: Text.padded d.places (d.steps % one)

/-- The text of a float. The value that is no number has no sign. -/
def floatText (x : Float) : List Char :=
  let size := magnitude x
  if infinity < size then ['N', 'a', 'N']
  else
    let unsigned := if size = infinity then ['i', 'n', 'f'] else (ofMagnitude size).text
    if isNegative x then '-' :: unsigned else unsigned

/-- The exponent that the end of a numeral writes: none at all, or the letter and digits behind a
sign or not. -/
def exponent? : List Char → Option Int
  | [] => some 0
  | mark :: rest =>
    if mark = 'e' ∨ mark = 'E' then
      let (negative, digits) := Text.splitSign rest
      (Text.number? digits).map fun n => if negative then -(n : Int) else n
    else none

/-- The magnitude nearest to a decimal times a power of ten. An exponent that outweighs every digit
by four hundred places already gives infinity or zero, so no larger one is raised. -/
def scaleNearest (d : Decimal) (digits : Nat) (exponent : Int) : Nat :=
  let reach : Int := digits + 400
  let e := max (-reach) (min reach exponent)
  Binary64.nearest (d.steps * Nat.pow 10 e.toNat) (Nat.pow 10 (d.places + (-e).toNat))

/-- The magnitude that an unsigned numeral writes: digits with a point among them, at their end, or
nowhere, and perhaps an exponent. -/
def numeral? (text : List Char) : Option Nat :=
  let whole := text.takeWhile Char.isDigit
  let behind := text.dropWhile Char.isDigit
  let fraction := match behind with
    | '.' :: rest => rest.takeWhile Char.isDigit
    | _ => []
  let tail := match behind with
    | '.' :: rest => rest.dropWhile Char.isDigit
    | rest => rest
  if whole = [] ∧ fraction = [] then none
  else
    let digits := whole ++ fraction
    (exponent? tail).map fun e =>
      scaleNearest ⟨Nat.ofDigitChars 10 digits 0, fraction.length⟩ digits.length e

/-- The magnitude that a word writes, in letters of either case. -/
def word? (text : List Char) : Option Nat :=
  let lower := text.map Char.toLower
  if lower = "inf".toList ∨ lower = "infinity".toList then some infinity
  else if lower = "nan".toList then some notANumber
  else none

/-- The float that a text writes: a word or a numeral, behind a sign or not. -/
def ofText? (text : List Char) : Option Float :=
  let (negative, unsigned) := Text.splitSign text
  ((word? unsigned).orElse fun _ => numeral? unsigned).map (ofParts negative)

end Decimal

end CatScript
