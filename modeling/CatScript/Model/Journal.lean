import CatScript.Model.Diagnostic

/-!
# The journal

All that a run has to say besides its output, in order: records of what it does, the diagnostics
of its errors, and plain messages. Everything is written down; which records a reader gets to see is
decided by a level when the journal is shown, and nothing else depends on it. In this it follows the
documented behaviour of `log` with a dispatcher of `fern` that has one level and one stream: those
records are written that are as severe as the level or more severe, each formatted and ended by a
line feed, on the same stream and in the same order as what is written besides. Where no logger is
set up, no record is written.
-/

set_option autoImplicit false

namespace CatScript

/-- How much detail a record is, or how much is shown. -/
inductive Level
  | warn
  | info
  | debug
  | trace
deriving DecidableEq, Repr

namespace Level

/-- More detail has a higher rank. -/
def rank : Level → Nat
  | .warn => 0
  | .info => 1
  | .debug => 2
  | .trace => 3

/-- The level that is shown when more detail was asked for so many times. -/
def ofVerbosity : Nat → Level
  | 0 => .warn
  | 1 => .info
  | 2 => .debug
  | _ => .trace

/-- The name of a level in a record, five characters wide. -/
def label : Level → String
  | .warn => "WARN "
  | .info => "INFO "
  | .debug => "DEBUG"
  | .trace => "TRACE"

/-- The colour of a level. -/
def colour : Level → Nat
  | .warn => 33
  | .info => 32
  | .debug => 34
  | .trace => 35

end Level

/-- What a record is: of something that went wrong, or a detail of some level. -/
inductive Severity
  | error
  | detail (level : Level)
deriving DecidableEq, Repr

namespace Severity

/-- Whether a record is written where details of a level are shown. An error always is. -/
def isEnabled (shown : Level) : Severity → Bool
  | .error => true
  | .detail level => level.rank ≤ shown.rank

/-- The name of a severity in a record, five characters wide. -/
def label : Severity → String
  | .error => "ERROR"
  | .detail level => level.label

/-- The colour of a severity. -/
def colour : Severity → Nat
  | .error => 31
  | .detail level => level.colour

end Severity

/-- The part of the interpreter that a record comes from. -/
inductive Topic
  | lexer
  | parser
  | evaluator
  | runner
  | repl
deriving DecidableEq, Repr

/-- The name of a topic in a record. -/
def Topic.label : Topic → String
  | .lexer => "furryscript::lexer"
  | .parser => "furryscript::parser"
  | .evaluator => "furryscript::evaluator"
  | .runner => "furryscript::runner"
  | .repl => "furryscript::repl"

/-- A note of something that was done. -/
structure Record where
  severity : Severity
  topic : Topic
  message : String
deriving DecidableEq, Repr

/-- A record as it is written. -/
def Record.text (r : Record) : String :=
  let severity := coloured r.severity.colour r.severity.label
  s!"[{severity}] [{r.topic.label}] {r.message}"

/-- One thing in a journal. -/
inductive Entry
  | record (record : Record)
  | diagnostic (diagnostic : Diagnostic)
  | message (text : String)
deriving DecidableEq, Repr

/-- One thing that a reader sees: a line of text or a diagnostic. -/
inductive Notice
  | line (text : String)
  | diagnostic (diagnostic : Diagnostic)
deriving DecidableEq, Repr

namespace Entry

/-- Whether an entry is seen at a level, or where no logger is set up. Only the records go through
the level of the dispatcher, which passes on the severities that `log` orders at or above it.
Diagnostics and messages are written to the stream itself. -/
def isShown (level : Option Level) : Entry → Bool
  | .record r =>
    match level with
    | some level => r.severity.isEnabled level
    | none => false
  | _ => true

/-- An entry as a reader sees it. The text of a record or message may have more than one line. -/
def notices : Entry → List Notice
  | .record r => (Text.split '\n' r.text.toList).map fun line => .line (String.ofList line)
  | .diagnostic d => [.diagnostic d]
  | .message text => (Text.split '\n' text.toList).map fun line => .line (String.ofList line)

end Entry

/-- What a run has to say, in order. -/
abbrev Journal := Array Entry

/-- What a reader sees of a journal at a level, or without any records. -/
def Journal.shown (journal : Journal) (level : Option Level) : List Notice :=
  (journal.toList.filter (Entry.isShown level)).flatMap Entry.notices

end CatScript
