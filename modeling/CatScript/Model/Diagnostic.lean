import CatScript.Model.Error
import CatScript.Model.Text.Lines

/-!
# Diagnostics

The report of an error to a reader: a headline that names the stage and says what the error says,
the characters of the source that are marked, their place, and the help as a note. What is marked
begins at the character at which the error points, or at the end of the source if it points behind
that. A source without any characters has no place and takes no note. A report is known by the
error, the source, and the name that the source goes by; what a reader is shown of it is computed
from them. How it is drawn is left to ariadne, and so is a stream that refuses the drawing.
-/

set_option autoImplicit false

namespace CatScript

/-- A text in one of the colours of a terminal. -/
def coloured (colour : Nat) (text : String) : String := s!"\x1b[{colour}m{text}\x1b[0m"

namespace Stage

/-- How a stage is named in a headline. -/
def title : Stage → String
  | .lexical => "Lexical Error"
  | .grammatical => "Parse Error"
  | .runtime => "Runtime Error"

/-- The colour of a stage: red, yellow and magenta. -/
def colour : Stage → Nat
  | .lexical => 31
  | .grammatical => 33
  | .runtime => 35

end Stage

/-- A mark on the characters of a source from one offset to another, and what stands at it. -/
structure Label where
  start : Nat
  stop : Nat
  text : String
deriving DecidableEq, Repr

/-- A report of an error in a source, which may go by a name. -/
structure Diagnostic where
  error : Error
  source : String
  file : Option String
deriving DecidableEq, Repr

namespace Error

/-- The offset at which an error is shown in a source of so many characters. -/
def offsetIn (e : Error) (size : Nat) : Nat := min e.span.start (min e.span.stop size)

/-- The report of an error in a source, which may go by a name. -/
def diagnose (e : Error) (source : String) (file : Option String) : Diagnostic := ⟨e, source, file⟩

end Error

namespace Diagnostic

/-- The stage of the error and the first line of what it says. -/
def headline (d : Diagnostic) : String :=
  let stage := d.error.cause.stage
  let firstLine := String.ofList (d.error.message.toList.takeWhile (· ≠ '\n'))
  coloured stage.colour stage.title ++ ": " ++ firstLine

/-- The characters that are marked: those of the span of the error, as far as the source goes. -/
def label (d : Diagnostic) : Label :=
  let size := d.source.toList.length
  ⟨d.error.offsetIn size, min d.error.span.stop size, d.error.message⟩

/-- The name of the source, the line and the column. -/
def location (d : Diagnostic) : Option String :=
  let name := d.file.getD "<repl>"
  let text := d.source.toList
  let place := Text.locate text d.label.start
  if text.isEmpty then none else some s!"{name}:{place.1}:{place.2}"

/-- The help of the error. -/
def note (d : Diagnostic) : Option String :=
  if d.source.toList.isEmpty then none
  else d.error.help.map fun help => coloured 36 "help" ++ ": " ++ help

/-- What is marked are characters of the source, in whatever way the error and the source meet. -/
theorem label_within (d : Diagnostic) :
    d.label.start ≤ d.label.stop ∧ d.label.stop ≤ d.source.toList.length :=
  ⟨Nat.min_le_right _ _, Nat.min_le_right _ _⟩

/-- A report of an error in a source with characters in it stands where the error is shown. -/
theorem location_diagnose (e : Error) {source : String} (h : source ≠ "") (file : Option String) :
    let name := file.getD "<repl>"
    let place := Text.locate source.toList (e.offsetIn source.toList.length)
    (e.diagnose source file).location = some s!"{name}:{place.1}:{place.2}" := by
  have hempty : source.toList.isEmpty = false := by simpa using h
  simp only [location, Error.diagnose, hempty]
  rfl

end Diagnostic

end CatScript
