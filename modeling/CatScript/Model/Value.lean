import CatScript.Model.Number.Decimal
import CatScript.Model.Number.Integer64

/-!
# Values

A value is a string, a 64-bit integer or a 64-bit float. `Value.text` is what `purr` prints.
-/

set_option autoImplicit false

namespace CatScript

/-- What an expression evaluates to. -/
inductive Value
  | string (text : String)
  | integer (number : Int64)
  | float (number : Float)
deriving DecidableEq

namespace Value

/-- How the type of a value is named in a message. -/
def typeName : Value → String
  | .string _ => "string"
  | .integer _ => "integer"
  | .float _ => "float"

/-- A value as it is printed. -/
def text : Value → String
  | .string s => s
  | .integer n => String.ofList (Integer64.text n)
  | .float x => String.ofList (Decimal.floatText x)

/-- Equality of values. Values of different types are unequal, and floats are compared as numbers,
so both zeros are equal and what is no number equals nothing. -/
def equals : Value → Value → Bool
  | .string a, .string b => a == b
  | .integer a, .integer b => a == b
  | .float a, .float b => a == b
  | _, _ => false

end Value

end CatScript
