import CatScript.Model.Journal
import CatScript.Model.Program.OfTokens
import CatScript.Model.Scope
import CatScript.Model.Sink

/-!
# Sessions

A session is what a run carries from one statement to the next: a scope, the sink that output goes
to, and the journal. Every step of a session answers with the session after it and, if it failed,
with the error. A failed statement ends the program and leaves the scope as it was before it.
-/

set_option autoImplicit false

namespace CatScript

/-- The state of a run. -/
structure Session where
  scope : Scope
  sink : Sink
  journal : Journal

namespace Session

/-- A session in which nothing has happened. -/
def start (sink : Sink) : Session := ⟨Scope.empty, sink, #[]⟩

/-- Enters something in the journal. -/
def note (s : Session) (entry : Entry) : Session := { s with journal := s.journal.push entry }

/-- Enters the record of a detail in the journal. -/
def record (s : Session) (level : Level) (topic : Topic) (message : String) : Session :=
  s.note (.record ⟨.detail level, topic, message⟩)

/-- Enters the report of an error in the journal. -/
def report (s : Session) (e : Error) (source : String) (file : Option String) : Session :=
  s.note (.diagnostic (e.diagnose source file))

/-- Prints a text and a line end. A failure of the sink is an error at the given span. -/
def print (s : Session) (text : String) (span : Span) : Option Error × Session :=
  let (failure, sink) := s.sink.write (text ++ "\n").toUTF8
  (failure.map fun reason => .of (.outputFailed reason) span, { s with sink := sink })

/-- Flushes the sink. A failure of the sink is an error at the given span. -/
def flush (s : Session) (span : Span) : Option Error × Session :=
  let (failure, sink) := s.sink.flush
  (failure.map fun reason => .of (.outputFailed reason) span, { s with sink := sink })

/-- Prints a text and a line end and flushes the sink. -/
def printLine (s : Session) (text : String) (span : Span) : Option Error × Session :=
  match s.print text span with
  | (none, s) => s.flush span
  | failed => failed

/-- Executes a statement. -/
def exec (s : Session) : Stmt → Option Error × Session
  | .print argument span =>
    match argument.eval s.scope with
    | .error e => (some e, s)
    | .ok v => (s.record .trace .evaluator s!"purr {v.text}").print v.text span
  | .declare name value _ =>
    match value.eval s.scope with
    | .error e => (some e, s)
    | .ok v =>
      let s := s.record .trace .evaluator s!"meow {name} = {v.text}"
      (none, { s with scope := s.scope.define name v })
  | .access name span =>
    match s.scope.lookup name span with
    | .error e => (some e, s)
    | .ok _ => (none, s)
  | .trick name parameters _ _ =>
    let s := s.record .debug .evaluator
      s!"declared trick {name} with {parameters.length} parameter(s)"
    (none, { s with scope := s.scope.declare name parameters.length })
  | .expression value _ =>
    match value.eval s.scope with
    | .error e => (some e, s)
    | .ok _ => (none, s)

/-- Executes statements up to the first that fails. -/
def execAll (s : Session) : List Stmt → Option Error × Session
  | [] => (none, s)
  | statement :: rest =>
    match s.exec statement with
    | (none, s) => s.execAll rest
    | failed => failed

/-- Runs a program: its statements, and then a flush, whose failure is an error at the last
statement. -/
def run (s : Session) (program : Program) : Option Error × Session :=
  match s.execAll program.statements with
  | (none, s) => s.flush program.lastSpan
  | failed => failed

/-- Reads a script and records how much was read. -/
def read (s : Session) (source : String) : Except Error Program × Session :=
  match Token.ofText source with
  | .error e => (.error e, s)
  | .ok tokens =>
    let s := s.record .debug .lexer s!"lexed {tokens.length} tokens"
    match Program.ofTokens tokens with
    | .error e => (.error e, s)
    | .ok program =>
      (.ok program,
        s.record .debug .parser s!"parsed {program.statements.length} top-level statements")

/-- Reads and runs a script. -/
def runText (s : Session) (source : String) : Option Error × Session :=
  match s.read source with
  | (.error e, s) => (some e, s)
  | (.ok program, s) => s.run program

end Session

end CatScript
