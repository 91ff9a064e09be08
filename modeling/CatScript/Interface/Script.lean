import CatScript.Model.Session

/-!
# Running a script

A script is run in a session of its own, or in a session that reports how it went: the record that
it runs, what it does, and the diagnostic of its error if it fails.
-/

set_option autoImplicit false

namespace CatScript.Script

/-- The script that shows what the language does. -/
def sample : String :=
  "\nmeow greeting = \"Hello, FurryScript!\"\npurr(greeting)\npurr(\"This is pawsome!\")\n"

/-- What a script writes to a sink, if it runs to its end. -/
def output (source : String) (sink : Sink) : Except Error ByteArray :=
  match (Session.start sink).runText source with
  | (none, s) => .ok s.sink.held
  | (some e, _) => .error e

/-- Runs a script that goes by a name, and reports its error. -/
def runReported (s : Session) (source : String) (file : Option String) : Option Error × Session :=
  let name := file.getD "<inline>"
  let s := s.record .info .runner s!"running {name}"
  match s.runText source with
  | (none, s) => (none, s)
  | (some e, s) => (some e, s.report e source file)

end CatScript.Script
