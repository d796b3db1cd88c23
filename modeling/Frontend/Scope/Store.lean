import Frontend.Builtin
import Frontend.Overload

/-!
# Symbols and scopes

A store holds every function symbol and every scope of a program. Scopes and functions are known
by their index; a scope lists the scopes around it from the inside out, ending with the global
scope, so a look-up is a walk along that list.
-/

namespace Frontend

/-- The index of a function symbol in its store. -/
abbrev FuncId := Nat

/-- The index of a scope in its store. -/
abbrev ScopeId := Nat

/-- Where a variable symbol is kept. -/
inductive VarHandle where
  /-- A global constant. -/
  | constant (index : Nat)
  /-- A parameter of the function whose scope this is. -/
  | param (scope : ScopeId) (index : Nat)
  /-- A variable of a block scope. -/
  | inner (scope : ScopeId) (index : Nat)
deriving DecidableEq, Repr

/-- What a scope declares by itself. -/
inductive ScopeBody where
  | global
  /-- The parameters of a function, once its symbol is linked. -/
  | function (func : Option FuncId)
  | block (vars : Array VarSymbol)

/-- A scope, the scopes around it from the inside out, and the block scopes opened in it. -/
structure Scope where
  body : ScopeBody
  outer : List ScopeId
  blocks : Array ScopeId

/-- All symbols and scopes. The lists at the end are in order of declaration. -/
structure Store where
  funcs : Array FuncSymbol
  scopes : Array Scope
  constants : Array VarSymbol
  functions : Array FuncId
  functionScopes : Array ScopeId
  instances : Array FuncId
  instanceScopes : Array ScopeId
  lambdas : Array FuncId
  lambdaScopes : Array ScopeId

namespace Store

/-- The id of the global scope. -/
def globalScope : ScopeId := 0

/-- A store with nothing but an empty global scope. -/
def empty : Store :=
  { funcs := #[], scopes := #[⟨.global, [], #[]⟩], constants := #[], functions := #[]
    functionScopes := #[], instances := #[], instanceScopes := #[], lambdas := #[]
    lambdaScopes := #[] }

/-- The symbol of a function. -/
def func? (s : Store) (id : FuncId) : Option FuncSymbol := s.funcs[id]?

/-- The scopes in which a name is looked up, from the inside out. -/
def chain (s : Store) (id : ScopeId) : List ScopeId :=
  match s.scopes[id]? with
  | some scope => id :: scope.outer
  | none => []

/-- The function whose scope this is. -/
def scopeFuncId? (s : Store) (id : ScopeId) : Option FuncId :=
  match s.scopes[id]? with
  | some ⟨.function func, _, _⟩ => func
  | _ => none

/-- The symbol of the function whose scope this is. -/
def scopeFunc? (s : Store) (id : ScopeId) : Option FuncSymbol := (s.scopeFuncId? id).bind s.func?

/-- The symbol kept under a handle. -/
def var? (s : Store) : VarHandle → Option VarSymbol
  | .constant i => s.constants[i]?
  | .param scope i => do (← s.scopeFunc? scope).params[i]?
  | .inner scope i => match s.scopes[scope]? with
    | some ⟨.block vars, _, _⟩ => vars[i]?
    | _ => none

/-- The scope that owns a variable. -/
def owner : VarHandle → ScopeId
  | .constant _ => globalScope
  | .param scope _ | .inner scope _ => scope

/-- Adds a function symbol without declaring it anywhere. -/
def addFunc (s : Store) (f : FuncSymbol) : FuncId × Store :=
  (s.funcs.size, { s with funcs := s.funcs.push f })

/-- The global functions with their ids, in order of declaration. -/
def globalFuncs (s : Store) : List (FuncId × FuncSymbol) :=
  s.functions.toList.filterMap fun id => (s.func? id).map fun f => (id, f)

/-- Declares a function globally, unless one that declares the same is there; that one is the
answer then. -/
def defineFunction (s : Store) (id : FuncId) : Except FuncId Store :=
  let existing := s.globalFuncs.find? fun (_, g) =>
    (s.func? id).any fun f => g.sameDeclaration f
  match existing with
  | some (other, _) => .error other
  | none => .ok { s with functions := s.functions.push id }

/-- Declares a constant, unless there is one of that name; that one is the answer then. -/
def defineConstant (s : Store) (v : VarSymbol) : Except VarHandle (VarHandle × Store) :=
  match s.constants.findIdx? (·.name == v.name) with
  | some i => .error (.constant i)
  | none => .ok (.constant s.constants.size, { s with constants := s.constants.push v })

/-- The constant of a name. -/
def lookupConstant (s : Store) (name : String) : Option VarHandle :=
  (s.constants.findIdx? (·.name == name)).map .constant

/-- The global functions of a name, in order of declaration. -/
def lookupFunctions (s : Store) (name : String) : List (FuncId × FuncSymbol) :=
  s.globalFuncs.filter fun (_, f) => f.name == name

/-- The global function that a call stands for. -/
def resolveFunc (s : Store) (name : String) (args : List Ty) : Option (FuncId × FuncSymbol) :=
  (Overload.select s.globalFuncs name args).map (·.1)

/-- Adds a function scope inside another scope. -/
def openFunction (s : Store) (func : Option FuncId) (enclosing : ScopeId) : ScopeId × Store :=
  (s.scopes.size, { s with scopes := s.scopes.push ⟨.function func, s.chain enclosing, #[]⟩ })

/-- Opens a block scope directly in another scope, which must not be the global one. -/
def openBlock (s : Store) (parent : ScopeId) : Except Fault (ScopeId × Store) :=
  match s.scopes[parent]? with
  | some ⟨.function _, _, _⟩ | some ⟨.block _, _, _⟩ =>
    let id := s.scopes.size
    let scopes := s.scopes.modify parent fun scope => { scope with blocks := scope.blocks.push id }
    .ok (id, { s with scopes := scopes.push ⟨.block #[], s.chain parent, #[]⟩ })
  | _ => .error .blockInGlobalScope

/-- The variable of a name that a block scope declares itself. -/
def lookupOwn (s : Store) (id : ScopeId) (name : String) : Option VarHandle :=
  match s.scopes[id]? with
  | some ⟨.block vars, _, _⟩ => (vars.findIdx? (·.name == name)).map (.inner id)
  | _ => none

/-- The parameter of a name in a function scope. -/
def lookupParam (s : Store) (id : ScopeId) (name : String) : Option VarHandle := do
  let f ← s.scopeFunc? id
  let i ← f.params.findIdx? (·.name == name)
  return .param id i

/-- What a scope declares itself under a name. -/
def lookupIn (s : Store) (name : String) (id : ScopeId) : Option VarHandle :=
  match s.scopes[id]? with
  | some ⟨.global, _, _⟩ => s.lookupConstant name
  | some ⟨.function _, _, _⟩ => s.lookupParam id name
  | some ⟨.block _, _, _⟩ => s.lookupOwn id name
  | none => none

/-- What a name stands for in a scope: the declaration in the innermost scope that has one. -/
def lookupVar (s : Store) (id : ScopeId) (name : String) : Option VarHandle :=
  (s.chain id).findSome? (s.lookupIn name)

/-- Whether a scope is that of a function. -/
def isFunction (s : Store) (id : ScopeId) : Bool :=
  match s.scopes[id]? with
  | some ⟨.function _, _, _⟩ => true
  | _ => false

/-- The innermost function scope around a scope, which may be that scope itself. -/
def enclosingFunction (s : Store) (id : ScopeId) : Option ScopeId :=
  (s.chain id).find? s.isFunction

/-- Declares a variable in a block scope, unless the scope has one of that name; that one is the
answer then. -/
def defineVar (s : Store) (id : ScopeId) (v : VarSymbol) : Except VarHandle (VarHandle × Store) :=
  match s.lookupOwn id v.name with
  | some existing => .error existing
  | none =>
    let declare (scope : Scope) : Scope :=
      match scope.body with
      | .block vars => { scope with body := .block (vars.push v) }
      | _ => scope
    let count := match s.scopes[id]? with
      | some ⟨.block vars, _, _⟩ => vars.size
      | _ => 0
    .ok (.inner id count, { s with scopes := s.scopes.modify id declare })

/-- Whether a scope is that of a block. -/
def isBlock (s : Store) (id : ScopeId) : Bool :=
  match s.scopes[id]? with
  | some ⟨.block _, _, _⟩ => true
  | _ => false

/-- Gives a constant its type, unless it has one. -/
def setConstantType? (s : Store) (index : Nat) (type : Ty) : Option Store := do
  let v ← (← s.constants[index]?).withType? type
  return { s with constants := s.constants.setIfInBounds index v }

/-- Gives a function its result type, unless it has one. -/
def setRet? (s : Store) (id : FuncId) (type : Ty) : Option Store := do
  let f ← (← s.func? id).withRet? type
  return { s with funcs := s.funcs.setIfInBounds id f }

/-- Declares the builtin functions. -/
def registerBuiltins (s : Store) : Store :=
  Builtin.all.foldl (fun s f =>
    let (id, s') := s.addFunc f
    match s'.defineFunction id with
    | .ok s'' => s''
    | .error _ => s') s

end Store

end Frontend
