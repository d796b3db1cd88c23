import Frontend.CommandLine

/-!
# The program

Reads the file named on the command line, prints the outcome of the run and exits with its
status.
-/

namespace Frontend.CommandLine

/-- The failure behind an error number, which may be reported with its sign changed. -/
def failureOfCode (code : UInt32) : ReadFailure :=
  .system (if code.toNat < Nat.pow 2 31 then code.toNat else Nat.pow 2 32 - code.toNat)

/-- The failure that an error stands for. -/
def failureOf : IO.Error → ReadFailure
  | .noFileOrDirectory _ code _ | .inappropriateType _ code _ | .permissionDenied _ code _
  | .invalidArgument _ code _ | .resourceExhausted _ code _ => failureOfCode code
  | _ => .system 5

/-- Reads a file as text. -/
def read (path : String) : IO (Except ReadFailure String) := do
  try
    let bytes ← IO.FS.readBinFile path
    match String.fromUTF8? bytes with
    | some source => return .ok source
    | none => return .error .notText
  catch e => return .error (failureOf e)

end Frontend.CommandLine

/-- Analyses the file named by the arguments. -/
def main (arguments : List String) : IO UInt32 := do
  match Frontend.CommandLine.Options.ofArguments? arguments with
  | none =>
    IO.eprintln Frontend.CommandLine.usage
    return 2
  | some options =>
    let outcome := Frontend.CommandLine.run options (← Frontend.CommandLine.read options.path)
    IO.print (Frontend.CommandLine.joinLines outcome.output)
    IO.eprint (Frontend.CommandLine.joinLines outcome.diagnostics)
    return outcome.status.toUInt32
