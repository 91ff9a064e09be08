import CatScript.Model.Text.Escape
import CatScript.Model.Token

/-!
# Errors

An error is a cause, the span it points at, and perhaps a help. Each of the three stages of a run
has causes of its own: reading characters, reading tokens, and evaluating. The wording of all of
them is in `Error.message`; the help that an evaluation gives goes with its cause, and the help of
a syntax error is given where the tokens are read.
-/

set_option autoImplicit false

namespace CatScript

/-- What should have stood where a token was rejected. -/
inductive Expected
  | token (kind : TokenKind)
  | expression
  | integerInRange
deriving DecidableEq, Repr

/-- How an expectation is named in a message. -/
def Expected.describe : Expected → String
  | .token kind => kind.describe
  | .expression => "expression"
  | .integerInRange => "integer within 64-bit range"

/-- The stage of a run in which an error arises. -/
inductive Stage
  | lexical
  | grammatical
  | runtime
deriving DecidableEq, Repr

/-- Why a run failed. -/
inductive Cause
  | unexpectedCharacter (character : Char)
  | unexpectedToken (expected : Expected) (found : TokenKind)
  | undefinedVariable (name : String)
  | unsupportedOperator (operation : String)
  | undefinedFunction (name : String)
  | unsupportedCall (name : String)
  | divisionByZero
  | outputFailed (reason : String)
deriving DecidableEq, Repr

namespace Cause

/-- The stage that a cause belongs to. -/
def stage : Cause → Stage
  | .unexpectedCharacter _ => .lexical
  | .unexpectedToken _ _ => .grammatical
  | _ => .runtime

/-- The help that goes with a cause of the evaluation. -/
def help : Cause → Option String
  | .undefinedVariable name => some s!"Declare it first with: meow {name} = ..."
  | .unsupportedOperator _ =>
    some "Arithmetic works on integers and floats; '+' also joins two strings."
  | .undefinedFunction _ | .unsupportedCall _ =>
    some "Functions can be declared with 'trick' but not yet called."
  | _ => none

end Cause

/-- A failure of a run and where it arose. -/
structure Error where
  cause : Cause
  span : Span
  help : Option String
deriving DecidableEq, Repr

namespace Error

/-- The error of a cause, with the help that goes with the cause. -/
def of (cause : Cause) (span : Span) : Error := ⟨cause, span, cause.help⟩

/-- What an error says. -/
def message (e : Error) : String :=
  match e.cause with
  | .unexpectedCharacter c =>
    let shown := String.ofList (Text.escaped c)
    s!"Unexpected character '{shown}' at line {e.span.line}, column {e.span.column}"
  | .unexpectedToken expected found =>
    s!"Expected {expected.describe}, got {found.describe} at line {e.span.line}"
  | .undefinedVariable name => s!"Undefined variable: {name}"
  | .unsupportedOperator operation => s!"Unsupported operator: {operation}"
  | .undefinedFunction name => s!"Undefined function: {name}"
  | .unsupportedCall name => s!"Function '{name}' is declared but calls are not supported"
  | .divisionByZero => "Division by zero"
  | .outputFailed reason => s!"Failed to write output: {reason}"

end Error

end CatScript
