import CatScript.Model.Program.Statement
import CatScript.Model.Token.OfText

/-!
# The program of a script

`Program.ofTokens` reads the tokens before the first `endOfInput` as statements, and
`Program.ofText` does so with the tokens of a text. An error at the end of the input points just
behind the last token.
-/

set_option autoImplicit false

namespace CatScript

/-- The tokens of the script proper: those before the first end of input. -/
def Token.script (tokens : List Token) : List Token :=
  tokens.takeWhile (·.kind ≠ .endOfInput)

/-- The token where nothing stands: the end of an input in front of all of it. -/
def Token.origin : Token := ⟨.endOfInput, "", ⟨0, 0, 1, 1⟩⟩

/-- Where an error at the end of the input points: just behind the last token of the script, on the
line and column of the end of the input. A list without an end of input ends where its last token
stands. -/
def Token.finish (tokens : List Token) : Span :=
  let last := (Token.script tokens).getLast?.getD Token.origin
  let finish := (tokens.find? (·.kind = .endOfInput)).getD last
  Span.point ⟨last.span.stop, finish.line, finish.column⟩

/-- The program that tokens make up, or the error at the first token at which none can go on. -/
def Program.ofTokens (tokens : List Token) : Except Error Program :=
  match Stmt.all (Token.script tokens) with
  | .ok statements => .ok ⟨statements⟩
  | .error r => .error (r.error (Token.finish tokens))

/-- The program that a text makes up. -/
def Program.ofText (source : String) : Except Error Program := do
  Program.ofTokens (← Token.ofText source)

end CatScript
