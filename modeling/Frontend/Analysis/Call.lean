import Frontend.Analysis.Declare

/-!
# Calls

Which function a name stands for in a call, and what the call gives. A template is replaced by
its instance for the argument types, and a function whose result type is still unknown is
analysed first. The analysis of a definition on demand is an argument of all this.
-/

namespace Frontend

/-- A moment of an analysis: the analysis of a definition begins or is finished, a statement or an
expression is entered or left, or a call at a position asks for the instance of a template, which is
given by the id of its definition and its name, for argument types. -/
inductive Visit where
  | begin (definition : Nat)
  | finish (definition : Nat)
  | enter (node : Nat)
  | leave (node : Nat)
  | request (template : Nat) (name : String) (args : List Ty) (position : Position)
deriving DecidableEq, Repr

/-- What the analysis of a body asks of its surroundings. -/
structure Demand where
  /-- Analyses a constant definition. -/
  constant : ConstDef → Check Unit
  /-- Analyses the body of a declared function. -/
  function : FuncDef → Check Unit
  /-- The definition that declares a constant. -/
  definitionOf : String → Option ConstDef
  /-- Is told of each moment. -/
  visit : Visit → Check Unit

namespace Check

/-- How many instances of one template may be under analysis at once. Beyond that the template
is taken to call itself with ever new argument types. -/
def instantiationLimit : Nat := 16

/-- Runs the visit of a statement or an expression. -/
def visiting {α : Type} (demand : Demand) (node : Nat) (act : Check α) : Check α := do
  demand.visit (.enter node)
  let a ← act
  demand.visit (.leave node)
  return a

/-- Runs the analysis of a definition, which is marked as begun and then as done. -/
def analysing (demand : Demand) (definition : Nat) (act : Check Unit) : Check Unit := do
  demand.visit (.begin definition)
  setProgress definition .inProgress
  act
  setProgress definition .done
  demand.visit (.finish definition)

/-- Analyses the definition of a constant, unless that has been begun. -/
def demandConstant (demand : Demand) (name : String) : Check Unit := do
  match demand.definitionOf name with
  | none => pure ()
  | some d => if (← progress? d.info.id).isSome then pure () else demand.constant d

/-- Analyses a function whose result type is unknown; it cannot be under analysis already. -/
def inferResult (demand : Demand) (f : FuncSymbol) (position : Position) : Check Unit :=
  if f.isBuiltin then pure ()
  else do
    let d ← ofResult (f.declaration.mapError .fault)
    match ← progress? d.info.id with
    | some .inProgress => notInferred f.name position
    | some .done => pure ()
    | none => demand.function d

/-- The type of a call of a function. An unknown result type is found by analysing the
function. -/
def callResult (demand : Demand) (id : FuncId) (position : Position) : Check Ty := do
  let f ← func id
  if f.kind = .proc then return .unit
  else match f.ret with
    | some ret => return ret
    | none => do
      inferResult demand f position
      return (← func id).ret.getD .unit

/-- The type of a function used as a value. -/
def funcValue (demand : Demand) (id : FuncId) (position : Position) : Check Ty := do
  let f ← func id
  if f.kind = .proc then return .func f.paramTypes none
  else return .func f.paramTypes (some (← callResult demand id position))

/-- Copies a template and declares the copy for argument types; `depth` counts the instances of
the template that are under analysis. -/
def makeInstance (d : FuncDef) (args : List Ty) (depth : Nat) : Check (FuncDef × FuncId) := do
  let copy ← modifyGet fun s =>
    let (copy, nextId) := d.copy.run s.nextId
    (copy, { s with toResolution := s.toResolution.addCopy d.info.id copy, nextId })
  let (scope, id) ← declareFunction copy Store.globalScope (some args)
  modify fun s => { s with
    store := { s.store with
      instances := s.store.instances.push id
      instanceScopes := s.store.instanceScopes.push scope }
    known := ⟨d.info.id, args, id⟩ :: s.known
    active := s.active.insert d.info.id (depth + 1) }
  return (copy, id)

/-- The instance of a template for argument types, which is made and analysed at first use. -/
def instantiate (demand : Demand) (template : FuncSymbol) (args : List Ty)
    (position : Position) : Check FuncId := do
  let d ← ofResult (template.declaration.mapError .fault)
  demand.visit (.request d.info.id template.name args position)
  let s ← get
  match s.known.find? fun i => i.template == d.info.id && decide (i.args = args) with
  | some known => return known.func
  | none =>
    let depth := s.active.getD d.info.id 0
    if instantiationLimit ≤ depth then
      fail (.instantiationLimit template.name instantiationLimit) position
    else do
      let (copy, id) ← makeInstance d args depth
      andFinally (demand.function copy) fun s =>
        { s with active := s.active.insert d.info.id depth }
      return id

/-- The function that is called when a candidate has been selected: the candidate, or its instance
if it is a template. -/
def selected (demand : Demand) (id : FuncId) (f : FuncSymbol) (args : List Ty)
    (position : Position) : Check FuncId :=
  if f.isTemplate && !f.isBuiltin then instantiate demand f args position else pure id

/-- The function that a call by name stands for, and the type of the call. -/
def callFunction (demand : Demand) (name : String) (args : List Ty) (position : Position) :
    Check (FuncId × Ty) := do
  let candidates := (← store).lookupFunctions name
  if candidates.isEmpty then fail (.unresolvedName name) position
  else match Overload.select candidates name args with
    | none => fail (.noMatchingOverload name (Ty.joinText args)) position
    | some ((id, f), _) => do
      let id ← selected demand id f args position
      return (id, ← callResult demand id position)

/-- Analyses the constant under a handle if its type is unknown. -/
def demandVariable (demand : Demand) (handle : VarHandle) (name : String) : Check Unit := do
  if ((← store).var? handle).any (·.type.isNone) then demandConstant demand name else pure ()

/-- The type of the variable under a handle; a constant is analysed first if need be. -/
def variableType (demand : Demand) (handle : VarHandle) (name : String) (position : Position) :
    Check Ty := do
  demandVariable demand handle name
  match ((← store).var? handle).bind (·.type) with
  | some type => return type
  | none => notInferred name position

/-- The type of a name used as a value. A variable hides functions of its name; a function can be
used as a value if it is the only one of its name that is no template. -/
def nameType (demand : Demand) (scope : ScopeId) (info : NodeInfo) (name : String) : Check Ty := do
  let s ← store
  match s.lookupVar scope name with
  | some handle => do
    link info.id (.var handle)
    variableType demand handle name info.span.start
  | none =>
    if name = "_" then return .unit
    else if (s.lookupFunctions name).isEmpty then fail (.unresolvedName name) info.span.start
    else match (s.lookupFunctions name).filter fun (_, f) => !f.isTemplate with
      | [(id, _)] => do
        link info.id (.func id)
        funcValue demand id info.span.start
      | _ => fail (.ambiguousFunctionReference name) info.span.start

/-- Gives the name in a call the type of the function, where it has one. -/
def typeCallee (callee : Nat) (id : FuncId) : Check Unit := do
  match (← func id).type? with
  | some type => setType callee type
  | none => pure ()

/-- A call by name in which `callee` is the name and `site` the call: links both, and types the
name where the function has a type. -/
def callByName (demand : Demand) (site callee : NodeInfo) (name : String) (args : List Ty) :
    Check Ty := do
  let (id, type) ← callFunction demand name args site.span.start
  link callee.id (.func id)
  link site.id (.func id)
  typeCallee callee.id id
  return type

/-- A call of a value. -/
def callValue (site : NodeInfo) (callee : Expr) (type : Ty) (label : String) (args : List Ty) :
    Check Ty :=
  match type with
  | .func params ret =>
    if 0 < Overload.scoreParams params args then pure (ret.getD .unit)
    else fail (.noMatchingOverload label (Ty.joinText args)) site.span.start
  | other => mismatch "function" other callee.position

end Check

end Frontend
