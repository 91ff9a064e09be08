import CatScript.Interface.CommandLine
import CatScript.Interface.FileTree
import CatScript.Interface.Repl
import CatScript.Interface.Script

/-!
# A run of the command

What a command line does, given what its files hold and its standard input: the exit code, what it
writes to its standard output, and what it has to say besides. The sample goes before a file, and a
file before the conversation.
-/

set_option autoImplicit false

namespace CatScript

/-- What a finished command leaves behind. -/
structure Outcome where
  code : Nat
  output : ByteArray
  notices : List Notice

/-- What becomes of a command: it is refused, or it comes to an end. -/
inductive Response
  | refused
  | finished (outcome : Outcome)

namespace Invocation

/-- The extension of a script. -/
def scriptExtension : String := "fur"

/-- Says why a file cannot be run. -/
def complain (s : Session) (message : String) : Nat × Session := (1, s.note (.message message))

/-- The exit code of a run. -/
def exitCode (result : Option Error × Session) : Nat × Session :=
  (if result.1.isNone then 0 else 1, result.2)

/-- Runs the script at a path. -/
def runFile (s : Session) (files : String → FileStatus) (path : String) : Nat × Session :=
  if Path.extension? path ≠ some scriptExtension then
    complain s "Error: FurryScript files must have a .fur extension"
  else
    match files path with
    | .missing => complain s s!"Error: File '{path}' not found"
    | .unreadable reason => complain s s!"Error reading file '{path}': {reason}"
    | .contents bytes =>
      match String.fromUTF8? bytes with
      | none => complain s s!"Error reading file '{path}': stream did not contain valid UTF-8"
      | some source => exitCode (Script.runReported s source (some path))

/-- Does what the options ask for. -/
def perform (s : Session) (o : CommandLine.Options) (files : String → FileStatus)
    (input : ByteArray) : Nat × Session :=
  if o.demo then exitCode (Script.runReported s Script.sample (some "<demo>"))
  else
    match o.file with
    | some path => runFile s files path
    | none => (0, Repl.converse s input)

/-- Does what the arguments ask for. -/
def respond (arguments : List String) (files : String → FileStatus) (input : ByteArray) :
    Response :=
  match CommandLine.Request.ofArguments arguments with
  | .misuse => .refused
  | .help => .finished ⟨0, CommandLine.helpText.toUTF8, []⟩
  | .version => .finished ⟨0, CommandLine.versionText.toUTF8, []⟩
  | .run o =>
    let (code, s) := perform (Session.start Sink.working) o files input
    .finished ⟨code, s.sink.held, s.journal.shown (some (Level.ofVerbosity o.verbosity))⟩

end Invocation

end CatScript
