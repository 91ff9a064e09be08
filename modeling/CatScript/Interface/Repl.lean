import CatScript.Model.Session
import CatScript.Model.Text.Blank

/-!
# The conversation

A conversation reads lines and runs each of them as a script in one session. A line that is nothing
but an expression or the name of a variable has its value printed. The conversation stops at `exit`
or `quit`, at the end of its input, at a line that is no UTF-8, or where the prompt cannot be
flushed; `converse` is the whole of it, one `turn` for each line.
-/

set_option autoImplicit false

namespace CatScript

/-- The expression whose value a line is about, if the line is nothing else. -/
def Program.echoed? (program : Program) : Option Expr :=
  match program.statements with
  | [.expression e _] => some e
  | [.access name span] => some (.identifier name span)
  | _ => none

namespace Session

/-- Runs one line. The answer is the value that was printed, if the line is about one. An error is
reported and ends only the line. -/
def submit (s : Session) (line : String) : Option String × Session :=
  match s.read line with
  | (.error e, s) => (none, s.report e line none)
  | (.ok program, s) =>
    match program.echoed? with
    | some expression =>
      match expression.eval s.scope with
      | .error e => (none, s.report e line none)
      | .ok v =>
        match s.printLine v.text expression.span with
        | (none, s) => (some v.text, s)
        | (some e, s) => (none, s.report e line none)
    | none =>
      match s.run program with
      | (none, s) => (none, s)
      | (some e, s) => (none, s.report e line none)

end Session

namespace Repl

/-- What a conversation begins with. -/
def banner : String :=
  "FurryScript Interpreter v0.1.0\nType 'exit' or press Ctrl+D to quit\n\n"

/-- What stands in front of every line. -/
def prompt : String := "> "

/-- What a conversation says when it is told to stop. -/
def farewell : String := "Goodbye!\n"

/-- A text on the standard output, outside of any program. The command does not survive a write that
the standard output refuses, and says so in its own way; this is left out, and the text is said as
far as it was taken. -/
def say (s : Session) (text : String) : Session :=
  { s with sink := (s.sink.write text.toUTF8).2 }

/-- The session behind a line, and whether the conversation goes on. -/
inductive Turn
  | proceed (session : Session)
  | stop (session : Session)

/-- The session behind a line. -/
def Turn.session : Turn → Session
  | .proceed s | .stop s => s

/-- Begins a conversation. -/
def greet (s : Session) : Session := say s banner

/-- Answers a line that was read behind the prompt. A line is read up to its line feed, and one that
is no UTF-8 is an error of reading. -/
def answer (s : Session) (line : ByteArray) : Turn :=
  match String.fromUTF8? line with
  | none =>
    .stop (s.note (.message "Error reading input: stream did not contain valid UTF-8"))
  | some text =>
    let trimmed := String.ofList (Text.trim text.toList)
    if trimmed = "" then .proceed s
    else if trimmed = "exit" ∨ trimmed = "quit" then .stop (say s farewell)
    else .proceed (s.submit trimmed).2

/-- The prompt, which is flushed before a line is read. If that fails, the failure is recorded and
the conversation stops. -/
def ask (s : Session) : Turn :=
  let s := say s prompt
  let (failure, sink) := s.sink.flush
  let s := { s with sink := sink }
  match failure with
  | none => .proceed s
  | some reason =>
    .stop (s.note (.record ⟨.error, .repl, s!"failed to flush prompt: {reason}"⟩))

/-- The prompt, and behind it the answer to a line. -/
def turn (s : Session) (line : ByteArray) : Turn :=
  match ask s with
  | .proceed s => answer s line
  | .stop s => .stop s

/-- The end of the input. -/
def leave (s : Session) : Session := say s "\n"

/-- The prompt, and behind it the end of the input. -/
def finish (s : Session) : Session :=
  match ask s with
  | .proceed s => leave s
  | .stop s => s

/-- A turn for each line, up to the first at which the conversation stops. -/
def converseFrom (s : Session) : List ByteArray → Session
  | [] => finish s
  | line :: rest =>
    match turn s line with
    | .proceed s => converseFrom s rest
    | .stop s => s

/-- The lines of an input: the pieces that a line feed ends, and what is left over. -/
def linesOf (input : ByteArray) : List ByteArray :=
  (Text.lines (10 : UInt8) input.toList).map fun line => ⟨line.toArray⟩

/-- A whole conversation on an input. -/
def converse (s : Session) (input : ByteArray) : Session :=
  converseFrom (greet s) (linesOf input)

end Repl

end CatScript
