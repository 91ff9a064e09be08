/-!
# The command line

What the arguments of a command ask for. The rules are those that clap documents for a command with
one positional argument that may be left out, two flags that are set, and one that is counted. The
arguments are read in order, and the first one that cannot be understood, or that asks for help or
for the version, decides at once. An argument that begins with a dash is a long option or a cluster
of short ones, unless it is a dash alone or stands behind `--`; every other argument is the file, of
which there is at most one. A long option is spelled out and takes no value behind an equals sign,
and a flag that is set is given at most once. What excludes each other is looked for only when all
arguments have been read.
-/

set_option autoImplicit false

namespace CatScript.CommandLine

/-- What is asked for besides help and version. -/
structure Options where
  file : Option String
  interactive : Bool
  demo : Bool
  verbosity : Nat
deriving DecidableEq, Repr

namespace Options

/-- Nothing is asked for. -/
def default : Options := ⟨none, false, false, 0⟩

end Options

/-- What a command line asks for, if it is understood. -/
inductive Request
  | misuse
  | help
  | version
  | run (options : Options)
deriving DecidableEq, Repr

/-- An option. -/
inductive Flag
  | interactive
  | demo
  | verbose
  | help
  | version
deriving DecidableEq, Repr

/-- The option of a long name. -/
def Flag.ofLong? (name : String) : Option Flag :=
  if name = "interactive" then some .interactive
  else if name = "demo" then some .demo
  else if name = "verbose" then some .verbose
  else if name = "help" then some .help
  else if name = "version" then some .version
  else none

/-- The option of a letter. -/
def Flag.ofShort? (letter : Char) : Option Flag :=
  if letter = 'i' then some .interactive
  else if letter = 'v' then some .verbose
  else if letter = 'h' then some .help
  else if letter = 'V' then some .version
  else none

namespace Options

/-- One more option. All but `verbose`, which is counted, can be given once. The count has no upper
end, where clap stops counting at 255: from three on it asks for the same level. -/
def take (o : Options) : Flag → Except Request Options
  | .interactive => if o.interactive then .error .misuse else .ok { o with interactive := true }
  | .demo => if o.demo then .error .misuse else .ok { o with demo := true }
  | .verbose => .ok { o with verbosity := o.verbosity + 1 }
  | .help => .error .help
  | .version => .error .version

/-- One more option, if it is one. -/
def take? (o : Options) (flag : Option Flag) : Except Request Options :=
  match flag with
  | some flag => o.take flag
  | none => .error .misuse

/-- The file. -/
def takeFile (o : Options) (file : String) : Except Request Options :=
  match o.file with
  | none => .ok { o with file := some file }
  | some _ => .error .misuse

/-- An argument in front of any `--`. -/
def takeArgument (o : Options) (argument : String) : Except Request Options :=
  match argument.toList with
  | '-' :: '-' :: name => o.take? (Flag.ofLong? (String.ofList name))
  | '-' :: letter :: letters =>
    (letter :: letters).foldlM (fun o letter => o.take? (Flag.ofShort? letter)) o
  | _ => o.takeFile argument

/-- All arguments, up to the first that decides. -/
def takeAll (o : Options) : List String → Except Request Options
  | [] => .ok o
  | argument :: rest =>
    if argument = "--" then rest.foldlM takeFile o
    else
      match o.takeArgument argument with
      | .ok o => o.takeAll rest
      | .error request => .error request

end Options

/-- What arguments ask for. The sample cannot be asked for together with a file, and this is found
out behind the last argument. The text of a refusal is not kept: it is the library's own. -/
def Request.ofArguments (arguments : List String) : Request :=
  match Options.default.takeAll arguments with
  | .error request => request
  | .ok o => if o.demo = true ∧ o.file.isSome = true then .misuse else .run o

/-- The answer to a request for help. -/
def helpText : String :=
  "Interpreter for FurryScript, a tiny cat-themed scripting language\n\n" ++
  "Usage: furry [OPTIONS] [FILE]\n\n" ++
  "Arguments:\n" ++
  "  [FILE]  The .fur script to execute\n\n" ++
  "Options:\n" ++
  "  -i, --interactive  Start in interactive REPL mode\n" ++
  "      --demo         Run the built-in greeting sample\n" ++
  "  -v, --verbose...   Increase log output (-v info, -vv debug, -vvv trace)\n" ++
  "  -h, --help         Print help\n" ++
  "  -V, --version      Print version\n"

/-- The answer to a request for the version. -/
def versionText : String := "furry 0.1.0\n"

end CatScript.CommandLine
