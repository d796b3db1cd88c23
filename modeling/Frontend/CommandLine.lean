import Frontend.Analysis.Program
import Frontend.Outline
import Frontend.Report

/-!
# The command line

A run analyses one file. It prints what the options ask for, or a report on the first error.
`CommandLine.run` is a function of the options and of what reading the file gave.
-/

namespace Frontend.CommandLine

/-- What a run is to do. -/
structure Options where
  path : String
  dumpTree : Bool
  dumpScopes : Bool
  builtins : Bool
deriving DecidableEq, Repr

/-- Why a file could not be read: the operating system refused with an error number, or the bytes
of the file are no text. -/
inductive ReadFailure where
  | system (code : Nat)
  | notText
deriving DecidableEq, Repr

namespace ReadFailure

/-- There is no such file. -/
def notFound : ReadFailure := .system 2

/-- A directory was named. -/
def isDirectory : ReadFailure := .system 21

/-- A name or the whole path has too many bytes. -/
def nameTooLong : ReadFailure := .system 36

/-- What the error numbers say that reading a file can end with. -/
def descriptions : List (Nat × String) :=
  [(2, "No such file or directory"), (5, "Input/output error"), (13, "Permission denied"),
    (20, "Not a directory"), (21, "Is a directory"), (36, "File name too long"),
    (40, "Too many levels of symbolic links")]

/-- The explanation of a failure to read. -/
def message : ReadFailure → String
  | .system code =>
    (descriptions.lookup code).getD ("Unknown error " ++ code.repr) ++
      " (os error " ++ code.repr ++ ")"
  | .notText => "stream did not contain valid UTF-8"

end ReadFailure

/-- What a run leaves behind: its exit status and the lines it printed. -/
structure Outcome where
  status : UInt8
  output : List String
  diagnostics : List String
deriving DecidableEq, Repr

/-- How a run is called. -/
def usage : String := "usage: dachs FILE [--dump-ast] [--dump-scopes] [--no-builtins]"

/-- Adds an argument to options, the path of which is still open. -/
def addArgument (found : Option String × Options) (argument : String) :
    Option (Option String × Options) :=
  match argument, found with
  | "--dump-ast", (path, options) => some (path, { options with dumpTree := true })
  | "--dump-scopes", (path, options) => some (path, { options with dumpScopes := true })
  | "--no-builtins", (path, options) => some (path, { options with builtins := false })
  | path, (none, options) => some (some path, options)
  | _, (some _, _) => none

/-- The options that arguments stand for: one path, and flags anywhere. -/
def Options.ofArguments? (arguments : List String) : Option Options := do
  let (path, options) ← arguments.foldlM addArgument (none, ⟨"", false, false, true⟩)
  return { options with path := ← path }

/-- The components of a path, without empty ones and those that stand for the same place. -/
def components (path : String) : List String :=
  (path.splitOn "/").filter fun part => part ≠ "" ∧ part ≠ "."

/-- The name that positions in a file carry: the last component of the path, or the whole path
if that leads upwards or to no file. -/
def fileName (path : String) : String :=
  match (components path).getLast? with
  | some name => if name = ".." then path else name
  | none => path

/-- What is printed for an analysed program. -/
def Options.print (options : Options) (a : Analysis) : List String :=
  (if options.dumpTree then Outline.program a.state.toResolution a.program else []) ++
    if options.dumpScopes then a.state.store.dump else []

/-- A run over a file of the given contents. -/
def run (options : Options) (contents : Except ReadFailure String) : Outcome :=
  match contents with
  | .error failure =>
    ⟨2, [], ["Error: cannot read " ++ options.path ++ ": " ++ failure.message]⟩
  | .ok source =>
    match analyzeSource source (fileName options.path) options.builtins Builtin.firstNodeId with
    | .ok a => ⟨0, options.print a, []⟩
    | .error (.error e) => ⟨1, [], Report.lines e options.path source⟩
    | .error (.fault f) => ⟨101, [], [f.message]⟩

/-- Lines as text, each with a line feed behind it. -/
def joinLines (lines : List String) : String := String.join (lines.map (· ++ "\n"))

end Frontend.CommandLine
