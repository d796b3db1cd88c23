import Frontend.Analysis.Walk
import Frontend.Parser.Program
import Frontend.Token.Lexer

/-!
# Analysing programs

Constants come first, in source order, then the body of every function that is no template. What
is needed ahead of its turn is analysed on demand; since a definition under analysis is not begun
again and a template has a limited number of instances at once, the demands nest no deeper than
`Program.demandBound`.
-/

namespace Frontend

namespace Program

/-- The definition that declares a constant. -/
def constantNamed? (p : Program) (name : String) : Option ConstDef :=
  p.constants.find? fun d => d.decls.any (·.name == name)

/-- How many definitions can be under analysis at once: each constant definition and function, and
as many instances of each template as are allowed. -/
def demandBound (p : Program) : Nat :=
  p.constants.length + p.functions.length +
    Check.instantiationLimit * (p.functions.filter FuncDef.isTemplate).length

end Program

/-- Is told of each moment, with the definitions under analysis by id, the innermost first. -/
abbrev Observer := List Nat → Visit → Check Unit

/-- Takes no notice. -/
def Observer.silent : Observer := fun _ _ => pure ()

/-- The demands of a body that is analysed inside the definitions of `stack`, where at most
`depth` more may be begun. -/
def demandAt (p : Program) (observe : Observer) : (depth : Nat) → (stack : List Nat) → Demand
  | 0, stack =>
    { constant := fun _ => Check.fault .outOfFuel
      function := fun _ => Check.fault .outOfFuel
      definitionOf := p.constantNamed?
      visit := observe stack }
  | depth + 1, stack =>
    { constant := fun d s => Check.constants (demandAt p observe depth (d.info.id :: stack)) d s
      function := fun d s => Check.function (demandAt p observe depth (d.info.id :: stack)) d s
      definitionOf := p.constantNamed?
      visit := observe stack }

namespace Check

/-- Analyses a definition unless that has been begun. -/
def unlessBegun (node : Nat) (act : Check Unit) : Check Unit := do
  if (← progress? node).isNone then act else pure ()

/-- Analyses the bodies of a program whose definitions are declared. -/
def bodies (observe : Observer) (p : Program) : Check Unit := do
  let demand := demandAt p observe (p.demandBound + 1) []
  p.constants.forM fun d => unlessBegun d.info.id (demand.constant d)
  p.functions.forM fun d =>
    if d.isTemplate then pure () else unlessBegun d.info.id (demand.function d)

/-- Declares and analyses all definitions of a program. -/
def program (builtins : Bool) (observe : Observer) (p : Program) : Check Unit := do
  register builtins p
  bodies observe p

end Check

/-- A program and what analysis found out about it. -/
structure Analysis where
  program : Program
  state : AnalysisState

/-- Analyses a program whose nodes have ids below `nextId`. -/
def Program.analyze (p : Program) (builtins : Bool) (nextId : Nat) : Except Failure Analysis :=
  match Check.program builtins .silent p (.initial nextId) with
  | .ok _ state => .ok ⟨p, state⟩
  | .error failure _ => .error failure

/-- Runs the front end over a source text: its tokens, its tree, its symbols and types. -/
def analyzeSource (source file : String) (builtins : Bool) (firstId : Nat) :
    Except Failure Analysis := do
  let tokens ← (Token.tokenize source file).mapError .error
  let (program, nextId) ← Program.parse tokens file firstId
  program.analyze builtins nextId

end Frontend
