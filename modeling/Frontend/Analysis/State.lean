import Frontend.Resolution
import Frontend.Tree.Copy

/-!
# The state of an analysis

Beside what is known of the nodes, an analysis keeps track of the definitions it has begun and
finished and of the instances of templates. `Check` is the monad of the analysis; a run that
fails still has a final state.
-/

namespace Frontend

/-- How far the analysis of a definition has come. -/
inductive Progress where
  | inProgress
  | done
deriving DecidableEq, Repr

/-- An instance of a template: the function for one list of argument types. -/
structure Instance where
  /-- The id of the definition of the template. -/
  template : Nat
  args : List Ty
  func : FuncId
deriving DecidableEq, Repr

/-- The state of an analysis. -/
structure AnalysisState extends Resolution where
  /-- The definitions that have been begun, by id. -/
  progress : Std.TreeMap Nat Progress
  /-- The instances of all templates, the latest first. -/
  known : List Instance
  /-- How many instances of a template are under analysis, by the id of its definition. -/
  active : Std.TreeMap Nat Nat
  nextId : Nat

/-- The state before anything is declared, with the next free node id. -/
def AnalysisState.initial (nextId : Nat) : AnalysisState :=
  { Resolution.empty with progress := ∅, known := [], active := ∅, nextId }

/-- An action of the analysis. -/
abbrev Check := EStateM Failure AnalysisState

namespace Check

/-- Refuses the program. -/
def fail {α : Type} (cause : Cause) (position : Position) : Check α :=
  throw (.error ⟨cause, position⟩)

/-- Gives up because a precondition is broken. -/
def fault {α : Type} (f : Fault) : Check α := throw (.fault f)

/-- Refuses the program because a type is needed before it is known. -/
def notInferred {α : Type} (name : String) (position : Position) : Check α :=
  fail (.typeNotInferred name) position

/-- Refuses the program because of a type. -/
def mismatch {α : Type} (expected : String) (received : Ty) (position : Position) : Check α :=
  fail (.typeMatch expected received.toText) position

/-- Refuses the program unless two types are equal. -/
def expectType (expected received : Ty) (position : Position) : Check Unit :=
  if expected = received then pure () else mismatch expected.toText received position

/-- Refuses the program because of a number of values. -/
def wrongCount {α : Type} (expected received : Nat) (position : Position) : Check α :=
  fail (.arityMismatch expected received) position

/-- An action from a result. -/
def ofResult {α : Type} : Except Failure α → Check α
  | .ok a => pure a
  | .error e => throw e

/-- The symbols and scopes. -/
def store : Check Store := return (← get).store

/-- Replaces the symbols and scopes. -/
def setStore (store : Store) : Check Unit := modify fun s => { s with store }

/-- The type that an annotation denotes. -/
def denoted (t : TypeExpr) : Check Ty := ofResult (t.resolve.mapError .error)

/-- The type that an annotation denotes, where there is one. -/
def denoted? : Option TypeExpr → Check (Option Ty)
  | none => pure none
  | some t => return some (← denoted t)

/-- Gives an expression its type. -/
def setType (node : Nat) (type : Ty) : Check Unit := do
  let s ← get
  match s.toResolution.setType node type with
  | .ok r => set { s with toResolution := r }
  | .error f => fault f

/-- Links a node. -/
def link (node : Nat) (target : Link) : Check Unit :=
  modify fun s => { s with toResolution := s.toResolution.link node target }

/-- Gives a node its scope. -/
def setScope (node : Nat) (scope : ScopeId) : Check Unit :=
  modify fun s => { s with toResolution := s.toResolution.setScope node scope }

/-- The symbol of a function. -/
def func (id : FuncId) : Check FuncSymbol := do
  match (← store).func? id with
  | some f => return f
  | none => fault (.missingFunction id)

/-- Gives a function its result type, unless it has one. -/
def setRet (id : FuncId) (type : Ty) : Check Unit := do
  match (← store).setRet? id type with
  | some s => setStore s
  | none => pure ()

/-- Opens a block scope and gives it to the node it belongs to. -/
def openBlock (parent : ScopeId) (node : Nat) : Check ScopeId := do
  match (← store).openBlock parent with
  | .ok (id, s) =>
    setStore s
    setScope node id
    return id
  | .error f => fault f

/-- Declares a variable in a block scope. -/
def defineLocal (scope : ScopeId) (name : String) (type : Ty) (isVar : Bool)
    (position : Position) : Check VarHandle := do
  let s ← store
  if !s.isBlock scope then fault (.localOutsideBlock name)
  else match s.defineVar scope ⟨name, some type, isVar⟩ with
    | .ok (handle, s) =>
      setStore s
      return handle
    | .error _ => fail (.variableAlreadyDeclared name) position

/-- The progress of a definition. -/
def progress? (node : Nat) : Check (Option Progress) := return (← get).progress[node]?

/-- Notes the progress of a definition. -/
def setProgress (node : Nat) (p : Progress) : Check Unit :=
  modify fun s => { s with progress := s.progress.insert node p }

/-- Runs an action and changes the state afterwards, also if the action fails. -/
def andFinally {α : Type} (act : Check α) (after : AnalysisState → AnalysisState) : Check α :=
  fun s => match act s with
    | .ok a s => .ok a (after s)
    | .error e s => .error e (after s)

end Check

end Frontend
