import Frontend.Analysis.State

/-!
# Declaring functions and constants

The first pass over a program: each definition gets its symbols before any body is looked at, so
bodies may use definitions further down. `Check.declareFunction` also serves instances of
templates and lambdas, whose parameter types are known in advance.
-/

namespace Frontend

/-- The type of a parameter: the first of the `concrete` types, if these are given; otherwise that
of its annotation or, without one, a placeholder named after its id. -/
def paramType (concrete : Option (List Ty)) (p : Param) : Except Failure Ty :=
  match concrete, p.type with
  | some (type :: _), _ => pure type
  | some [], _ => throw (.fault (.missingParameterType p.name))
  | none, some annotation => annotation.resolve.mapError .error
  | none, none => pure (.template p.info.id)

/-- Symbols for the parameters of a function, in order. A name may not be used twice, `used`
holding those before. -/
def paramSymbols (used : List String) (concrete : Option (List Ty)) :
    List Param → Except Failure (List VarSymbol)
  | [] => pure []
  | p :: rest =>
    if p.name ∈ used then
      throw (.error ⟨.variableAlreadyDeclared p.name, p.info.span.start⟩)
    else do
      let type ← paramType concrete p
      let symbols ← paramSymbols (p.name :: used) (concrete.map List.tail) rest
      return ⟨p.name, some type, p.isVar⟩ :: symbols

namespace Check

/-- Links the parameters of a function from the `index`-th on. -/
def linkParams (scope : ScopeId) (index : Nat) : List Param → Check Unit
  | [] => pure ()
  | p :: rest => do
    link p.info.id (.var (.param scope index))
    linkParams scope (index + 1) rest

/-- Makes the symbol and the scope of a function and links them to its definition. Neither is
entered in a list of the store. -/
def declareFunction (d : FuncDef) (enclosing : ScopeId) (concrete : Option (List Ty)) :
    Check (ScopeId × FuncId) := do
  let params ← ofResult (paramSymbols [] concrete d.params)
  let ret ← denoted? (if d.kind.returnsValue then d.returnType else none)
  let symbol : FuncSymbol :=
    { name := d.name, params, ret, kind := d.kind, isBuiltin := false, decl := some d }
  let (func, s) := (← store).addFunc symbol
  let (scope, s) := s.openFunction (some func) enclosing
  setStore s
  linkParams scope 0 d.params
  setScope d.info.id scope
  return (scope, func)

/-- Declares a global function. -/
def registerFunction (d : FuncDef) : Check Unit := do
  let (scope, func) ← declareFunction d Store.globalScope none
  let s ← store
  match s.defineFunction func with
  | .ok s => setStore { s with functionScopes := s.functionScopes.push scope }
  | .error existing =>
    fail (.functionAlreadyDeclared (← Check.func existing).describe) d.info.span.start

/-- Declares a constant, with its type if it has an annotation. -/
def registerConstant (d : ConstDecl) : Check Unit := do
  let type ← denoted? d.type
  match (← store).defineConstant ⟨d.name, type, false⟩ with
  | .ok (handle, s) =>
    setStore s
    link d.info.id (.var handle)
  | .error _ => fail (.variableAlreadyDeclared d.name) d.info.span.start

/-- Declares what a definition defines. -/
def registerDefinition : Definition → Check Unit
  | .function d => registerFunction d
  | .constant d => d.decls.forM registerConstant

/-- Declares the builtin functions, if wanted, and all definitions of a program. -/
def register (builtins : Bool) (p : Program) : Check Unit := do
  modify fun s => if builtins then { s with store := s.store.registerBuiltins } else s
  p.definitions.forM registerDefinition

end Check

end Frontend
