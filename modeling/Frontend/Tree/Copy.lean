import Frontend.Tree.Basic

/-!
# Copies with fresh ids

`FuncDef.copy` rebuilds a function node by node. Everything is taken over but the ids, which are
the next ones of a counter: a type annotation or an expression gets its id after its parts, a
statement, block, declaration or function before them.
-/

namespace Frontend

/-- The next id of the counter. -/
def mint : StateM Nat Nat := modifyGet fun next => (next, next + 1)

/-- The same location under the next id. -/
def NodeInfo.renew (info : NodeInfo) : StateM Nat NodeInfo := do
  return { info with id := ← mint }

mutual

/-- Copies a type annotation. -/
def TypeExpr.copy : TypeExpr → StateM Nat TypeExpr
  | .primary info name args => do
    let args ← TypeExpr.copyAll args
    return .primary (← info.renew) name args
  | .array info elem => do
    let elem ← elem.copy
    return .array (← info.renew) elem
  | .dict info key value => do
    let key ← key.copy
    let value ← value.copy
    return .dict (← info.renew) key value
  | .tuple info elems => do
    let elems ← TypeExpr.copyAll elems
    return .tuple (← info.renew) elems
  | .func info kind params ret => do
    let params ← TypeExpr.copyAll params
    match ret with
    | none => return .func (← info.renew) kind params none
    | some ret => do
      let ret ← ret.copy
      return .func (← info.renew) kind params (some ret)
  | .qualified info qualifier inner => do
    let inner ← inner.copy
    return .qualified (← info.renew) qualifier inner

/-- Copies type annotations from left to right. -/
def TypeExpr.copyAll : List TypeExpr → StateM Nat (List TypeExpr)
  | [] => pure []
  | ty :: rest => do
    let ty ← ty.copy
    return ty :: (← TypeExpr.copyAll rest)

end

/-- Copies an optional type annotation. -/
def TypeExpr.copyOption : Option TypeExpr → StateM Nat (Option TypeExpr)
  | none => pure none
  | some ty => do return some (← ty.copy)

/-- Copies a parameter. -/
def Param.copy (p : Param) : StateM Nat Param := do
  let info ← p.info.renew
  return { p with info, type := ← TypeExpr.copyOption p.type }

/-- Copies a declaration. -/
def VarDecl.copy (d : VarDecl) : StateM Nat VarDecl := do
  let info ← d.info.renew
  return { d with info, type := ← TypeExpr.copyOption d.type }

mutual

/-- Copies an expression. -/
def Expr.copy : Expr → StateM Nat Expr
  | .literal info value => do return .literal (← info.renew) value
  | .array info elems => do
    let elems ← copyExprs elems
    return .array (← info.renew) elems
  | .tuple info elems => do
    let elems ← copyExprs elems
    return .tuple (← info.renew) elems
  | .dict info entries => do
    let entries ← copyEntries entries
    return .dict (← info.renew) entries
  | .varRef info name assigned => do return .varRef (← info.renew) name assigned
  | .member info receiver name => do
    let receiver ← receiver.copy
    return .member (← info.renew) receiver name
  | .index info receiver index => do
    let receiver ← receiver.copy
    let index ← index.copy
    return .index (← info.renew) receiver index
  | .call info callee args => do
    let callee ← callee.copy
    let args ← copyExprs args
    return .call (← info.renew) callee args
  | .unary info op operand => do
    let operand ← operand.copy
    return .unary (← info.renew) op operand
  | .binary info op lhs rhs => do
    let lhs ← lhs.copy
    let rhs ← rhs.copy
    return .binary (← info.renew) op lhs rhs
  | .cast info value type => do
    let value ← value.copy
    let type ← type.copy
    return .cast (← info.renew) value type
  | .typed info value type => do
    let value ← value.copy
    let type ← type.copy
    return .typed (← info.renew) value type
  | .ifElse info kind condition thenValue elseValue => do
    let condition ← condition.copy
    let thenValue ← thenValue.copy
    let elseValue ← elseValue.copy
    return .ifElse (← info.renew) kind condition thenValue elseValue
  | .range info first last inclusive => do
    let first ← first.copy
    let last ← last.copy
    return .range (← info.renew) first last inclusive
  | .lambda info definition => do
    let definition ← definition.copy
    return .lambda (← info.renew) definition

/-- Copies expressions from left to right. -/
def copyExprs : List Expr → StateM Nat (List Expr)
  | [] => pure []
  | e :: rest => do
    let e ← e.copy
    return e :: (← copyExprs rest)

/-- Copies the entries of a dictionary, each key before its value. -/
def copyEntries : List (Expr × Expr) → StateM Nat (List (Expr × Expr))
  | [] => pure []
  | (key, value) :: rest => do
    let key ← key.copy
    let value ← value.copy
    return (key, value) :: (← copyEntries rest)

/-- Copies a function. A lambda keeps its name. -/
def FuncDef.copy : FuncDef → StateM Nat FuncDef
  | ⟨info, kind, name, params, returnType, body, ensureBody⟩ => do
    let info ← info.renew
    let params ← params.mapM Param.copy
    let returnType ← TypeExpr.copyOption returnType
    let body ← body.copy
    match ensureBody with
    | none => return ⟨info, kind, name, params, returnType, body, none⟩
    | some ensureBody => do
      let ensureBody ← ensureBody.copy
      return ⟨info, kind, name, params, returnType, body, some ensureBody⟩

/-- Copies a block. -/
def Block.copy : Block → StateM Nat Block
  | ⟨info, stmts⟩ => do
    let info ← info.renew
    return ⟨info, ← copyStmts stmts⟩

/-- Copies an initialize statement. -/
def Init.copy : Init → StateM Nat Init
  | ⟨info, decls, values⟩ => do
    let info ← info.renew
    let decls ← decls.mapM VarDecl.copy
    return ⟨info, decls, ← copyExprs values⟩

/-- Copies a statement. -/
def Stmt.copy : Stmt → StateM Nat Stmt
  | .init init => do return .init (← init.copy)
  | .assign info targets op values => do
    let info ← info.renew
    let targets ← copyExprs targets
    return .assign info targets op (← copyExprs values)
  | .ifElse info kind condition thenBlock elseifs elseBlock => do
    let info ← info.renew
    let condition ← condition.copy
    let thenBlock ← thenBlock.copy
    let elseifs ← copyArms elseifs
    match elseBlock with
    | none => return .ifElse info kind condition thenBlock elseifs none
    | some block => return .ifElse info kind condition thenBlock elseifs (some (← block.copy))
  | .ret info values => do
    let info ← info.renew
    return .ret info (← copyExprs values)
  | .case info whens elseBlock => do
    let info ← info.renew
    let whens ← copyArms whens
    match elseBlock with
    | none => return .case info whens none
    | some block => return .case info whens (some (← block.copy))
  | .switch info target whens elseBlock => do
    let info ← info.renew
    let target ← target.copy
    let whens ← copyValueArms whens
    match elseBlock with
    | none => return .switch info target whens none
    | some block => return .switch info target whens (some (← block.copy))
  | .forIn info vars range body => do
    let info ← info.renew
    let vars ← vars.mapM Param.copy
    let range ← range.copy
    return .forIn info vars range (← body.copy)
  | .whileDo info condition body => do
    let info ← info.renew
    let condition ← condition.copy
    return .whileDo info condition (← body.copy)
  | .guarded info body kind condition => do
    let info ← info.renew
    let body ← body.copy
    return .guarded info body kind (← condition.copy)
  | .letIn info inits child => do
    let info ← info.renew
    let inits ← copyInits inits
    return .letIn info inits (← child.copy)
  | .expr value => do return .expr (← value.copy)

/-- Copies statements in order. -/
def copyStmts : List Stmt → StateM Nat (List Stmt)
  | [] => pure []
  | stmt :: rest => do
    let stmt ← stmt.copy
    return stmt :: (← copyStmts rest)

/-- Copies initialize statements in order. -/
def copyInits : List Init → StateM Nat (List Init)
  | [] => pure []
  | init :: rest => do
    let init ← init.copy
    return init :: (← copyInits rest)

/-- Copies the arms of a conditional, each condition before its block. -/
def copyArms : List (Expr × Block) → StateM Nat (List (Expr × Block))
  | [] => pure []
  | (condition, block) :: rest => do
    let condition ← condition.copy
    let block ← block.copy
    return (condition, block) :: (← copyArms rest)

/-- Copies the arms of a switch, the values of each before its block. -/
def copyValueArms : List (List Expr × Block) → StateM Nat (List (List Expr × Block))
  | [] => pure []
  | (values, block) :: rest => do
    let values ← copyExprs values
    let block ← block.copy
    return (values, block) :: (← copyValueArms rest)

end

end Frontend
