import CatScript.Interface.Invocation

/-!
# The command

The outer layer: it hands the arguments, the file and the standard input to `CatScript.Invocation`
and writes what comes back. A conversation is answered line by line, as its lines come in.
-/

set_option autoImplicit false

namespace CatScript.Command

/-- The system's number for a path that goes on behind a file. -/
def notADirectory : UInt32 := 20

/-- What the file system answers for a path. One that it cannot follow leads to nothing. -/
def status (path : String) : IO FileStatus := do
  try
    return .contents (← (← IO.FS.Handle.mk path .read).readBinToEnd)
  catch e =>
    match e with
    | .noFileOrDirectory .. | .noSuchThing .. | .invalidArgument .. => return .missing
    | .inappropriateType _ code details | .permissionDenied _ code details =>
      return if code = notADirectory then .missing
        else .unreadable s!"{details} (os error {code})"
    | .illegalOperation code details | .otherError code details =>
      return .unreadable s!"{details} (os error {code})"
    | e => return .unreadable (toString e)

/-- Writes what a reader sees of a journal. -/
def tell (notices : List Notice) : IO Unit := do
  let out ← IO.getStderr
  for notice in notices do
    match notice with
    | .line text => out.putStrLn text
    | .diagnostic d =>
      out.putStrLn (coloured 31 "Error:" ++ " " ++ d.headline)
      if let some location := d.location then out.putStrLn s!"  at {location}"
      if let some note := d.note then out.putStrLn s!"  {note}"

/-- Writes what a session said and printed after an earlier one. -/
def catchUp (level : Level) (earlier later : Session) : IO Unit := do
  let out ← IO.getStdout
  out.write (later.sink.held.extract earlier.sink.held.size later.sink.held.size)
  out.flush
  tell (Journal.shown (later.journal.extract earlier.journal.size later.journal.size) (some level))

/-- The bytes of the next line, without the line feed that ends it, or nothing at the end of the
input. -/
partial def nextLine (input : IO.FS.Stream) (line : ByteArray) : IO (Option ByteArray) := do
  let byte ← input.read 1
  if byte.isEmpty then return if line.isEmpty then none else some line
  else if byte.data[0]? = some 10 then return some line
  else nextLine input (line ++ byte)

/-- Carries on a conversation until it stops. -/
partial def converse (level : Level) (s : Session) : IO Unit := do
  match Repl.ask s with
  | .stop later => catchUp level s later
  | .proceed prompted =>
    catchUp level s prompted
    match ← nextLine (← IO.getStdin) ByteArray.empty with
    | none => catchUp level prompted (Repl.leave prompted)
    | some line =>
      match Repl.answer prompted line with
      | .proceed later => do
        catchUp level prompted later
        converse level later
      | .stop later => catchUp level prompted later

/-- Does what the options ask for, and gives the exit code. -/
def perform (o : CommandLine.Options) : IO UInt32 := do
  let level := Level.ofVerbosity o.verbosity
  let s := Session.start Sink.working
  if o.demo = false ∧ o.file = none then
    let greeted := Repl.greet s
    catchUp level s greeted
    converse level greeted
    return 0
  else
    let found ← match o.file with
      | some path => status path
      | none => pure .missing
    let (code, later) := Invocation.perform s o (fun _ => found) ByteArray.empty
    catchUp level s later
    return UInt32.ofNat code

/-- What a command line that is not understood is told. -/
def usageText : String :=
  "error: invalid arguments\n\nUsage: furry [OPTIONS] [FILE]\n\n" ++
  "For more information, try '--help'.\n"

end CatScript.Command

/-- The command `furry`. -/
def main (arguments : List String) : IO UInt32 := do
  match CatScript.CommandLine.Request.ofArguments arguments with
  | .misuse =>
    (← IO.getStderr).putStr CatScript.Command.usageText
    return 2
  | .help =>
    (← IO.getStdout).putStr CatScript.CommandLine.helpText
    return 0
  | .version =>
    (← IO.getStdout).putStr CatScript.CommandLine.versionText
    return 0
  | .run o => CatScript.Command.perform o
