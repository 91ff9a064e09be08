import CatScript.Model.Operator
import CatScript.Model.Position

/-!
# Tokens

A token is a kind, a lexeme and a span, and has a line and a column beside those of its span. The
lexeme of a string token is the text between its quotes with every escape resolved; the lexeme of
every other token is its spelling. The list of the tokens of a text ends with one of kind
`endOfInput`. The tokens that are read from a text have the line and the column of their span, but
tokens can come from elsewhere, and nothing is relied on of theirs.
-/

set_option autoImplicit false

namespace CatScript

/-- What a token is. -/
inductive TokenKind
  | leftParen
  | rightParen
  | leftBrace
  | rightBrace
  | comma
  | equal
  | plus
  | minus
  | star
  | slash
  | identifier
  | string
  | integer
  | float
  | purr
  | meow
  | woof
  | trick
  | endOfInput
deriving DecidableEq, Repr

namespace TokenKind

/-- How a kind is named in a message. -/
def describe : TokenKind → String
  | .leftParen => "'('"
  | .rightParen => "')'"
  | .leftBrace => "'\x7b'"
  | .rightBrace => "'\x7d'"
  | .comma => "','"
  | .equal => "'='"
  | .plus => "'+'"
  | .minus => "'-'"
  | .star => "'*'"
  | .slash => "'/'"
  | .identifier => "identifier"
  | .string => "string"
  | .integer => "integer"
  | .float => "float"
  | .purr => "'purr'"
  | .meow => "'meow'"
  | .woof => "'woof'"
  | .trick => "'trick'"
  | .endOfInput => "end of input"

/-- The binary operator that a kind of token can stand for. -/
def operator? : TokenKind → Option BinaryOp
  | .plus => some .add
  | .minus => some .subtract
  | .star => some .multiply
  | .slash => some .divide
  | _ => none

/-- The kind of a token that is one mark. -/
def ofMark? (c : Char) : Option TokenKind :=
  match c with
  | '(' => some .leftParen
  | ')' => some .rightParen
  | '{' => some .leftBrace
  | '}' => some .rightBrace
  | ',' => some .comma
  | '=' => some .equal
  | '+' => some .plus
  | '-' => some .minus
  | '*' => some .star
  | '/' => some .slash
  | _ => none

/-- The kind of a token that is a word: a keyword or else an identifier. -/
def ofWord (word : String) : TokenKind :=
  if word = "purr" then .purr
  else if word = "meow" then .meow
  else if word = "woof" then .woof
  else if word = "trick" then .trick
  else .identifier

end TokenKind

/-- The line and the column that a token with a span has for itself. -/
class Token.Mark (span : Span) where
  line : Nat
  column : Nat
deriving DecidableEq, Repr

/-- Where nothing else is said, a token has the line and the column of its span. -/
instance Token.Mark.ofSpan (span : Span) : Token.Mark span := ⟨span.line, span.column⟩

/-- A piece of a script, with the place where it stands. -/
structure Token where
  kind : TokenKind
  lexeme : String
  span : Span
  [mark : Token.Mark span]
deriving DecidableEq, Repr

namespace Token

/-- The line of a token. -/
def line (t : Token) : Nat := t.mark.line

/-- The column of a token. -/
def column (t : Token) : Nat := t.mark.column

/-- A token that is given nothing else has the line of its span. -/
@[simp] theorem line_mk (kind : TokenKind) (lexeme : String) (span : Span) :
    line ⟨kind, lexeme, span⟩ = span.line := rfl

/-- A token that is given nothing else has the column of its span. -/
@[simp] theorem column_mk (kind : TokenKind) (lexeme : String) (span : Span) :
    column ⟨kind, lexeme, span⟩ = span.column := rfl

end Token

end CatScript
