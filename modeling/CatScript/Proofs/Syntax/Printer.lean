import CatScript.Model.Number.Decimal
import CatScript.Model.Number.Integer64
import CatScript.Model.Program
import CatScript.Model.Text.Quoted

/-!
# The printer

A script that stands for a given program.  Every operand stands in parentheses, and so does every
expression that is printed, declared or evaluated by a statement; arguments and parameters stand
bare, with a comma and a space between them.  A variable is asked for with `woof`, so that no
statement begins with a name, and statements stand on lines of their own.  Spans are left out.
`Program.Writable` says which programs can be written at all: names have to be names, and literals
have no sign.
-/

set_option autoImplicit false

namespace CatScript

/-- A text in parentheses. -/
def parenthesized (text : List Char) : List Char := '(' :: (text ++ [')'])

/-- Texts with a comma and a space between them. -/
def commaSeparated (texts : List (List Char)) : List Char := [',', ' '].intercalate texts

/-- Texts on lines of their own. -/
def lineSeparated (texts : List (List Char)) : List Char := ['\n'].intercalate texts

mutual

/-- An expression as it is written where nothing stands around it. -/
def Expr.written : Expr → List Char
  | .string value _ => '"' :: (Text.Quoted.encode value.toList ++ ['"'])
  | .integer value _ => Integer64.text value
  | .float value _ => Decimal.floatText value
  | .identifier name _ => name.toList
  | .call function arguments _ =>
    function.toList ++ parenthesized (commaSeparated (Expr.writtenAll arguments))
  | .negate operand _ => '-' :: parenthesized operand.written
  | .binary op left right _ =>
    parenthesized left.written ++ ' ' :: op.symbol :: ' ' :: parenthesized right.written

/-- Expressions, each as it is written. -/
def Expr.writtenAll : List Expr → List (List Char)
  | [] => []
  | e :: es => e.written :: Expr.writtenAll es

end

mutual

/-- A statement as it is written. -/
def Stmt.written : Stmt → List Char
  | .print argument _ => "purr".toList ++ parenthesized argument.written
  | .declare name value _ =>
    "meow".toList ++ ' ' :: (name.toList ++ ' ' :: '=' :: ' ' :: parenthesized value.written)
  | .access name _ => "woof".toList ++ ' ' :: name.toList
  | .trick name parameters body _ =>
    "trick".toList ++ ' ' :: (name.toList ++
      (parenthesized (commaSeparated (parameters.map fun p => p.name.toList)) ++
        ' ' :: '{' :: '\n' :: (lineSeparated (Stmt.writtenAll body) ++ ['\n', '}'])))
  | .expression value _ => parenthesized value.written

/-- Statements, each as it is written. -/
def Stmt.writtenAll : List Stmt → List (List Char)
  | [] => []
  | s :: ss => s.written :: Stmt.writtenAll ss

end

/-- A program as it is written. -/
def Program.written (program : Program) : List Char :=
  lineSeparated (Stmt.writtenAll program.statements)

/-- A run of letters and underscores that is no keyword. -/
structure IsName (name : String) : Prop where
  nonempty : name ≠ ""
  letters : ∀ c ∈ name.toList, c.isAlpha = true ∨ c = '_'
  no_keyword : name ≠ "purr" ∧ name ≠ "meow" ∧ name ≠ "woof" ∧ name ≠ "trick"

instance (name : String) : Decidable (IsName name) :=
  decidable_of_iff
    (name ≠ "" ∧ name.toList.all (fun c => c.isAlpha || c == '_') = true ∧
      name ≠ "purr" ∧ name ≠ "meow" ∧ name ≠ "woof" ∧ name ≠ "trick")
    ⟨fun h => ⟨h.1, by simpa using h.2.1, h.2.2⟩,
      fun h => ⟨h.nonempty, by simpa using h.letters, h.no_keyword⟩⟩

mutual

/-- All names in an expression are names, its integers have no sign, and its floats are finite and
have no sign either.  Strings are arbitrary. -/
def Expr.Writable : Expr → Prop
  | .string _ _ => True
  | .integer value _ => 0 ≤ value.toInt
  | .float value _ =>
    Binary64.magnitude value < Binary64.infinity ∧ Binary64.isNegative value = false
  | .identifier name _ => IsName name
  | .call function arguments _ => IsName function ∧ Expr.AllWritable arguments
  | .negate operand _ => operand.Writable
  | .binary _ left right _ => left.Writable ∧ right.Writable

/-- The same of expressions. -/
def Expr.AllWritable : List Expr → Prop
  | [] => True
  | e :: es => e.Writable ∧ Expr.AllWritable es

end

mutual

/-- All names and literals in a statement can be written. -/
def Stmt.Writable : Stmt → Prop
  | .print argument _ => argument.Writable
  | .declare name value _ => IsName name ∧ value.Writable
  | .access name _ => IsName name
  | .trick name parameters body _ =>
    IsName name ∧ (∀ p ∈ parameters, IsName p.name) ∧ Stmt.AllWritable body
  | .expression value _ => value.Writable

/-- The same of statements. -/
def Stmt.AllWritable : List Stmt → Prop
  | [] => True
  | s :: ss => s.Writable ∧ Stmt.AllWritable ss

end

/-- All names and literals in a program can be written. -/
def Program.Writable (program : Program) : Prop := Stmt.AllWritable program.statements

/-! ## Texts with separators -/

/-- A comma and a space stand behind every text but the last. -/
theorem commaSeparated_cons_cons (text next : List Char) (texts : List (List Char)) :
    commaSeparated (text :: next :: texts) =
      text ++ ',' :: ' ' :: commaSeparated (next :: texts) := by
  simp [commaSeparated, List.intercalate, List.intersperse]

/-- No texts are nothing. -/
@[simp] theorem commaSeparated_nil : commaSeparated [] = [] := rfl

/-- A single text stands alone. -/
@[simp] theorem commaSeparated_singleton (text : List Char) : commaSeparated [text] = text := by
  simp [commaSeparated, List.intercalate, List.intersperse]

/-- A line end stands behind every text but the last. -/
theorem lineSeparated_cons_cons (text next : List Char) (texts : List (List Char)) :
    lineSeparated (text :: next :: texts) = text ++ '\n' :: lineSeparated (next :: texts) := by
  simp [lineSeparated, List.intercalate, List.intersperse]

/-- No texts are nothing. -/
@[simp] theorem lineSeparated_nil : lineSeparated [] = [] := rfl

/-- A single text stands alone. -/
@[simp] theorem lineSeparated_singleton (text : List Char) : lineSeparated [text] = text := by
  simp [lineSeparated, List.intercalate, List.intersperse]

end CatScript
