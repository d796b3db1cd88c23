import Frontend.Analysis.Call
import Frontend.Analysis.Rules
import Frontend.Tree.Describe

/-!
# Analysing bodies

The second pass: every name in a body is resolved, every expression typed, every statement
checked, in source order. The walk is a recursion on the tree; what lies outside the body at
hand is asked of a `Demand`. The hint of an expression is the type that its context expects:
empty literals and lambdas without annotations take their types from it.
-/

namespace Frontend

/-- The hints for the elements of a tuple. -/
def tupleHints (hint : Option Ty) (count : Nat) : List (Option Ty) :=
  match hint with
  | some (.tuple types) => if types.length = count then types.map some else []
  | _ => []

/-- The hint for the elements of an array. -/
def elemHint : Option Ty → Option Ty
  | some (.array elem) => some elem
  | _ => none

/-- The hints for the keys and the values of a dictionary. -/
def dictHints : Option Ty → Option Ty × Option Ty
  | some (.dict key value) => (some key, some value)
  | _ => (none, none)

/-- The hint for a single value that is to be taken apart: a tuple, if all types are known. -/
def joinHints (hints : List (Option Ty)) : Option Ty := (hints.mapM id).map .tuple

/-- The hints for the values of a return statement, from the result type if it is known. -/
def returnHints (ret : Option Ty) (count : Nat) : List (Option Ty) :=
  match ret, count with
  | some type, 1 => [some type]
  | some (.tuple types), n => if 1 < n ∧ types.length = n then types.map some else []
  | _, _ => []

/-- The type of several values taken together: one stands for itself, others form a tuple. -/
def joinTypes : List Ty → Ty
  | [type] => type
  | types => .tuple types

namespace Check

/-- The type of a parameter of a lambda: that of its annotation or else the first hint, which must
not be a placeholder. -/
def lambdaParam (p : Param) (hints : List Ty) : Check Ty :=
  match p.type, hints with
  | some annotation, _ => denoted annotation
  | none, hint :: _ =>
    if hint.isTemplate then notInferred p.name p.info.span.start else pure hint
  | none, [] => notInferred p.name p.info.span.start

/-- The types of the parameters of a lambda. -/
def lambdaParams : List Param → List Ty → Check (List Ty)
  | [], _ => pure []
  | p :: rest, hints => do
    let type ← lambdaParam p hints
    return type :: (← lambdaParams rest hints.tail)

/-- The parameter types that a hint offers for a lambda, and whether it asks for a procedure. -/
def lambdaHint (hint : Option Ty) (count : Nat) : List Ty × Bool :=
  match hint with
  | some (.func params ret) => if params.length = count then (params, ret.isNone) else ([], false)
  | _ => ([], false)

/-- Declares a lambda in the scope that it is written in. -/
def declareLambda (scope : ScopeId) (d : FuncDef) (hints : List Ty) :
    Check (List Ty × FuncId) := do
  let params ← lambdaParams d.params hints
  let (inner, id) ← declareFunction d scope (some params)
  modify fun s => { s with
    store := { s.store with
      lambdas := s.store.lambdas.push id
      lambdaScopes := s.store.lambdaScopes.push inner } }
  return (params, id)

/-- The type of a lambda that has been analysed. -/
def lambdaType (params : List Ty) (id : FuncId) (wantsProc : Bool) : Check Ty := do
  let ret := (← func id).ret.getD .unit
  return .func params (if wantsProc && ret.isUnit then none else some ret)

/-- The type of an index expression. -/
def indexType (receiver index : Expr) (receiverType type : Ty) : Check Ty :=
  match receiverType with
  | .array elem => if type.isIntegral then pure elem
      else mismatch "integer" type index.position
  | .builtin .string => if type.isIntegral then pure .char
      else mismatch "integer" type index.position
  | .dict key value => do
    expectType key type index.position
    return value
  | .tuple elems => match index.tuplePosition?.bind fun i => elems[i]? with
    | some elem => pure elem
    | none => mismatch "constant tuple index" type index.position
  | other => mismatch "indexable value" other receiver.position

/-- The hint for an index. -/
def indexHint : Ty → Option Ty
  | .dict key _ => some key
  | _ => none

/-- The types of `count` targets for a single value of the given type, which is taken apart. -/
def takeApart (count : Nat) (type : Ty) (position : Position) : Check (List Ty) :=
  match type with
  | .tuple elems =>
    if elems.length = count then pure elems else wrongCount count elems.length position
  | _ => wrongCount count 1 position

/-- The types of declarations without values. -/
def declaredTypes : List VarDecl → List (Option Ty) → Check (List Ty)
  | d :: decls, type :: types => do
    match type with
    | some type => return type :: (← declaredTypes decls types)
    | none => notInferred d.name d.info.span.start
  | _, _ => pure []

/-- Refuses the program unless a type is the expected one, where one is expected. -/
def expectTypeIf (expected : Option Ty) (received : Ty) (position : Position) : Check Unit :=
  match expected with
  | some expected => expectType expected received position
  | none => pure ()

/-- Declares a variable in a block scope and links its declaration. An underscore declares
nothing. -/
def declareVar (scope : ScopeId) (info : NodeInfo) (name : String) (type : Ty) (isVar : Bool) :
    Check Unit :=
  if name = "_" then pure ()
  else do
    let handle ← defineLocal scope name type isVar info.span.start
    link info.id (.var handle)

/-- Declares variables with the types of their values, which must be those of the annotations. -/
def declareVars (scope : ScopeId) : List VarDecl → List (Option Ty) → List Ty → Check Unit
  | d :: decls, expected :: explicit, type :: types => do
    expectTypeIf expected type d.info.span.start
    declareVar scope d.info d.name type d.isVar
    declareVars scope decls explicit types
  | _, _, _ => pure ()

/-- Declares the variables of a loop. -/
def declareLoopVars (scope : ScopeId) : List Param → List Ty → Check Unit
  | p :: params, type :: types => do
    expectTypeIf (← denoted? p.type) type p.info.span.start
    declareVar scope p.info p.name type p.isVar
    declareLoopVars scope params types
  | _, _ => pure ()

/-- The types of `count` variables of a loop over elements of the given type: one variable takes
the whole element, several take a tuple apart. -/
def loopTypes (count : Nat) (elem : Ty) (position : Position) : Check (List Ty) :=
  if count = 1 then pure [elem]
  else takeApart count elem position

/-- Whether a target is an underscore that no variable is named after; it takes anything. -/
def isIgnored (s : Store) (scope : ScopeId) : Expr → Bool
  | .varRef _ name _ => name == "_" && (s.lookupVar scope "_").isNone
  | _ => false

/-- Refuses an assignment to anything but an index expression, a member, or a variable that is
declared as assignable. -/
def checkAssignable (target : Expr) : Check Unit := do
  match target with
  | .index .. | .member .. => pure ()
  | .varRef info name _ =>
    let s ← get
    let variableSymbol := match s.links[info.id]? with
      | some (.var handle) => s.store.var? handle
      | _ => none
    if variableSymbol.any (·.isVar) then pure ()
    else fail (.immutableAssignment name) info.span.start
  | other => fail (.immutableAssignment other.label) other.position

/-- Assigns a value of the given type to a target; one that is ignored takes its type from the
value. -/
def assignTarget (target : Expr) (expected : Option Ty) (type : Ty) : Check Unit :=
  match expected with
  | some expected => do
    expectType expected type target.position
    checkAssignable target
  | none => setType target.id type

/-- Assigns values of the given types to targets. -/
def assignTargets : List Expr → List (Option Ty) → List Ty → Check Unit
  | target :: targets, expected :: hints, type :: types => do
    assignTarget target expected type
    assignTargets targets hints types
  | _, _, _ => pure ()

/-- Refuses the program unless a compound operator applies to operands of a type. -/
def expectOperand (op : BinaryOp) (type : Ty) (position : Position) : Check Unit :=
  if (op.result? type).isNone then mismatch op.operands type position else pure ()

/-- The function that a scope belongs to. -/
def currentFunc? (scope : ScopeId) : Check (Option (FuncId × FuncSymbol)) := do
  let s ← store
  return do
    let id ← s.scopeFuncId? (← s.enclosingFunction scope)
    let f ← s.func? id
    return (id, f)

/-- Returns values of the given type from a function, whose first return decides its result type
if it has not been declared. -/
def returnType (id : FuncId) (type : Ty) (position : Position) : Check Unit := do
  let f ← func id
  if f.kind = .proc then
    if type.isUnit then pure ()
    else fail (.invalidReturn ("procedure `" ++ f.name ++ "` cannot return a value")) position
  else match f.ret with
    | some expected => expectType expected type position
    | none => setRet id type

/-- The function that a definition declares, and its scope. -/
def declared (d : NodeInfo) : Check (ScopeId × FuncId) := do
  let s ← get
  match s.scopes[d.id]? with
  | some scope => match s.store.scopeFuncId? scope with
    | some id => return (scope, id)
    | none => fault (.missingScope d.id)
  | none => fault (.missingScope d.id)

/-- Gives a function whose body has been analysed without a return the result type unit. -/
def settleReturn (id : FuncId) : Check Unit := do
  let f ← func id
  if f.kind.returnsValue && f.ret.isNone then setRet id .unit else pure ()

/-- Runs the visit of an expression and gives it the type that is found. -/
def typing (w : Demand) (node : Nat) (act : Check Ty) : Check Ty := visiting w node do
  let type ← act
  setType node type
  return type

mutual

/-- Resolves an expression and gives it its type. -/
def expr (w : Demand) (scope : ScopeId) (hint : Option Ty) (e : Expr) : Check Ty :=
  typing w e.id (match e with
    | .literal _ value => pure value.type
    | .array info [] => match elemHint hint with
      | some elem => pure (.array elem)
      | none => notInferred "[]" info.span.start
    | .array _ (first :: rest) => do
      let elem ← expr w scope (elemHint hint) first
      sameType w scope elem rest
      pure (.array elem)
    | .tuple _ elems => do
      let types ← exprs w scope (tupleHints hint elems.length) elems
      pure (.tuple types)
    | .dict info [] => match dictHints hint with
      | (some key, some value) => pure (.dict key value)
      | _ => notInferred "\x7b\x7d" info.span.start
    | .dict _ ((firstKey, firstValue) :: rest) => do
      let key ← expr w scope (dictHints hint).1 firstKey
      let value ← expr w scope (dictHints hint).2 firstValue
      sameEntries w scope key value rest
      pure (.dict key value)
    | .varRef info name _ => nameType w scope info name
    | .member info receiver name => do
      let receiverType ← expr w scope none receiver
      match receiverType.member? name with
      | some type => pure type
      | none => do
        let (id, type) ← callFunction w name [receiverType] info.span.start
        link info.id (.func id)
        pure type
    | .index _ receiver index => do
      let receiverType ← expr w scope none receiver
      let type ← expr w scope (indexHint receiverType) index
      indexType receiver index receiverType type
    | .call info callee args => do
      let argTypes ← exprs w scope [] args
      let byValue : Check Ty := do
        let type ← expr w scope none callee
        callValue info callee type callee.label argTypes
      match callee with
      | .varRef calleeInfo name _ => do
        if ((← store).lookupVar scope name).isNone then
          callByName w info calleeInfo name argTypes
        else byValue
      | .member calleeInfo receiver name => do
        let receiverType ← expr w scope none receiver
        match if argTypes.isEmpty then receiverType.member? name else none with
        | some type => do
          setType calleeInfo.id type
          pure type
        | none => callByName w info calleeInfo name (receiverType :: argTypes)
      | _ => byValue
    | .unary _ op operand => do
      let type ← expr w scope hint operand
      match op.result type with
      | .ok type => pure type
      | .error expected => mismatch expected type operand.position
    | .binary _ op lhs rhs => do
      let left ← expr w scope none lhs
      let right ← expr w scope (some left) rhs
      expectType left right rhs.position
      match op.result? left with
      | some type => pure type
      | none => mismatch op.operands left lhs.position
    | .cast _ value annotation => do
      let _ ← expr w scope none value
      denoted annotation
    | .typed _ value annotation => do
      let type ← denoted annotation
      let actual ← expr w scope (some type) value
      expectType type actual value.position
      pure type
    | .ifElse _ _ condition thenValue elseValue => do
      let type ← expr w scope (some .bool) condition
      expectType .bool type condition.position
      let thenType ← expr w scope hint thenValue
      let elseType ← expr w scope (some thenType) elseValue
      expectType thenType elseType elseValue.position
      pure thenType
    | .range _ first last _ => do
      let firstType ← expr w scope none first
      let lastType ← expr w scope (some firstType) last
      expectType firstType lastType last.position
      if firstType.isNumeric then pure (.range firstType)
      else mismatch "number" firstType first.position
    | .lambda _ definition => do
      let (hints, wantsProc) := lambdaHint hint definition.params.length
      let (params, id) ← declareLambda scope definition hints
      function w definition
      lambdaType params id wantsProc)

/-- Resolves expressions from left to right, each with its own hint if there is one. -/
def exprs (w : Demand) (scope : ScopeId) (hints : List (Option Ty)) : List Expr → Check (List Ty)
  | [] => pure []
  | e :: rest => do
    let type ← expr w scope (hints.headD none) e
    return type :: (← exprs w scope hints.tail rest)

/-- Resolves expressions that must all have the given type. -/
def sameType (w : Demand) (scope : ScopeId) (type : Ty) : List Expr → Check Unit
  | [] => pure ()
  | e :: rest => do
    let actual ← expr w scope (some type) e
    expectType type actual e.position
    sameType w scope type rest

/-- Resolves entries whose keys and values must have the given types. -/
def sameEntries (w : Demand) (scope : ScopeId) (key value : Ty) :
    List (Expr × Expr) → Check Unit
  | [] => pure ()
  | (k, v) :: rest => do
    let keyType ← expr w scope (some key) k
    expectType key keyType k.position
    let valueType ← expr w scope (some value) v
    expectType value valueType v.position
    sameEntries w scope key value rest

/-- Resolves the values for as many targets as there are hints; a single value for several
targets is taken apart. -/
def values (w : Demand) (scope : ScopeId) (hints : List (Option Ty)) (position : Position) :
    List Expr → Check (List Ty)
  | [] => if hints.isEmpty then pure [] else wrongCount hints.length 0 position
  | e :: rest =>
    if rest.length + 1 = hints.length then do
      let type ← expr w scope (hints.headD none) e
      return type :: (← exprs w scope hints.tail rest)
    else if rest.isEmpty then do
      let type ← expr w scope (joinHints hints) e
      takeApart hints.length type e.position
    else wrongCount hints.length (rest.length + 1) position

/-- Resolves the targets of an assignment; the answer has the type of each that is not
ignored. -/
def targets (w : Demand) (scope : ScopeId) : List Expr → Check (List (Option Ty))
  | [] => pure []
  | e :: rest => do
    let ignored := isIgnored (← store) scope e
    let type ← (if ignored then pure none else some <$> expr w scope none e)
    return type :: (← targets w scope rest)

/-- Analyses the body of a declared function. -/
def function (w : Demand) : FuncDef → Check Unit
  | ⟨info, _, _, _, _, body, ensureBody⟩ => analysing w info.id do
    let (scope, id) ← declared info
    block w scope body
    optionalBlock w scope ensureBody
    settleReturn id

/-- Analyses a block in a scope of its own. -/
def block (w : Demand) (parent : ScopeId) : Block → Check Unit
  | ⟨info, body⟩ => do
    let scope ← openBlock parent info.id
    stmts w scope body

/-- Analyses a block, if there is one. -/
def optionalBlock (w : Demand) (parent : ScopeId) : Option Block → Check Unit
  | none => pure ()
  | some b => block w parent b

/-- Analyses an initialize statement: the values first, then the declarations. -/
def initStmt (w : Demand) (scope : ScopeId) : Init → Check Unit
  | ⟨info, decls, es⟩ => do
    let explicit ← decls.mapM fun d => denoted? d.type
    let types ← (if es.isEmpty then declaredTypes decls explicit
      else values w scope explicit info.span.start es)
    declareVars scope decls explicit types

/-- Analyses a statement. -/
def stmt (w : Demand) (scope : ScopeId) (s : Stmt) : Check Unit :=
  visiting w s.info.id do
    match s with
    | .init init => initStmt w scope init
    | .assign _ [target] (some op) [value] => do
      let type ← expr w scope none target
      let valueType ← expr w scope (some type) value
      expectType type valueType value.position
      expectOperand op type target.position
      checkAssignable target
    | .assign info _ (some _) es => wrongCount 1 es.length info.span.start
    | .assign info ts none es => do
      let hints ← targets w scope ts
      let types ← values w scope hints info.span.start es
      assignTargets ts hints types
    | .ifElse _ _ condition thenBlock elseifs elseBlock => do
      let type ← expr w scope (some .bool) condition
      expectType .bool type condition.position
      block w scope thenBlock
      arms w scope elseifs
      optionalBlock w scope elseBlock
    | .ret info es => do
      match ← currentFunc? scope with
      | none => fail (.invalidReturn "return outside of a function") info.span.start
      | some (id, f) =>
        let types ← exprs w scope (returnHints f.ret es.length) es
        returnType id (joinTypes types) info.span.start
    | .case _ whens elseBlock => do
      arms w scope whens
      optionalBlock w scope elseBlock
    | .switch _ target whens elseBlock => do
      let type ← expr w scope none target
      valueArms w scope type whens
      optionalBlock w scope elseBlock
    | .forIn info vars range ⟨bodyInfo, body⟩ => do
      let rangeType ← expr w scope none range
      match rangeType.element? with
      | none => mismatch "iterable value" rangeType range.position
      | some elem =>
        let types ← loopTypes vars.length elem info.span.start
        let inner ← openBlock scope bodyInfo.id
        declareLoopVars inner vars types
        stmts w inner body
    | .whileDo _ condition body => do
      let type ← expr w scope (some .bool) condition
      expectType .bool type condition.position
      block w scope body
    | .guarded _ body _ condition => do
      stmt w scope body
      let type ← expr w scope (some .bool) condition
      expectType .bool type condition.position
    | .letIn info inits child => do
      let inner ← openBlock scope info.id
      initStmts w inner inits
      stmt w inner child
    | .expr value => do
      let _ ← expr w scope none value

/-- Analyses statements in order. -/
def stmts (w : Demand) (scope : ScopeId) : List Stmt → Check Unit
  | [] => pure ()
  | s :: rest => do
    stmt w scope s
    stmts w scope rest

/-- Analyses the bindings of a `let` in order. -/
def initStmts (w : Demand) (scope : ScopeId) : List Init → Check Unit
  | [] => pure ()
  | init :: rest => do
    initStmt w scope init
    initStmts w scope rest

/-- Analyses conditions and the blocks they guard. -/
def arms (w : Demand) (scope : ScopeId) : List (Expr × Block) → Check Unit
  | [] => pure ()
  | (condition, body) :: rest => do
    let type ← expr w scope (some .bool) condition
    expectType .bool type condition.position
    block w scope body
    arms w scope rest

/-- Analyses values, which must have the type of the target, and the blocks that are run for
them. -/
def valueArms (w : Demand) (scope : ScopeId) (type : Ty) :
    List (List Expr × Block) → Check Unit
  | [] => pure ()
  | (es, body) :: rest => do
    sameType w scope type es
    block w scope body
    valueArms w scope type rest

end

/-- A literal is typed by what it is, whatever its context expects. -/
theorem expr_literal (w : Demand) (scope : ScopeId) (hint : Option Ty) (info : NodeInfo)
    (value : Literal) :
    expr w scope hint (.literal info value) = typing w info.id (pure value.type) := by
  rw [expr.eq_def]
  rfl

/-- An initialize statement is visited once, like any other. -/
theorem stmt_init (w : Demand) (scope : ScopeId) (i : Init) :
    stmt w scope (.init i) = visiting w (Stmt.init i).info.id (initStmt w scope i) := by
  rw [stmt]

/-- The handles of declared constants. -/
def constantHandles : List ConstDecl → Check (List VarHandle)
  | [] => pure []
  | d :: rest => do
    match (← store).lookupConstant d.name with
    | some handle => return handle :: (← constantHandles rest)
    | none => fail (.unresolvedName d.name) d.info.span.start

/-- The type of the variable under a handle, if it is known. -/
def typeOf? (handle : VarHandle) : Check (Option Ty) :=
  return ((← store).var? handle).bind (·.type)

/-- Gives a constant the type of its value, which must be that of its annotation. -/
def assignConstant (handle : VarHandle) (type : Ty) (position : Position) : Check Unit := do
  match ← typeOf? handle, handle with
  | some expected, _ => expectType expected type position
  | none, .constant index => modify fun s =>
      { s with store := (s.store.setConstantType? index type).getD s.store }
  | none, _ => pure ()

/-- Gives constants the types of their values. -/
def assignConstants : List ConstDecl → List VarHandle → List Ty → Check Unit
  | d :: decls, handle :: handles, type :: types => do
    assignConstant handle type d.info.span.start
    assignConstants decls handles types
  | _, _, _ => pure ()

/-- Analyses a constant definition. -/
def constants (w : Demand) (d : ConstDef) : Check Unit := analysing w d.info.id do
  let handles ← constantHandles d.decls
  let hints ← handles.mapM typeOf?
  let types ← values w Store.globalScope hints d.info.span.start d.values
  assignConstants d.decls handles types

end Check

end Frontend
