import Frontend.Parser.Expr

/-!
# Reading statements

The statement forms, and the point where the recursion of the grammar is closed: `Parse.expr`,
`Parse.block` and `Parse.stmt` read nested constructs to a depth bounded by the number of tokens
left.
-/

namespace Frontend.Parse

/-- A name that an initialize statement declares. -/
def varDecl (isVar : Bool) : Parse VarDecl := do
  let start ← position
  let name ← name "expected identifier during variable declaration"
  let type ← optionalType
  return ⟨← infoFrom start, isVar, name, type⟩

/-- An initialize statement without what ends it. Values may be left out if every declaration
has a type. -/
def initStmt (g : Nested) : Parse Init := do
  let keyword ← advance
  let decls ← bounded (commaList (varDecl (keyword.kind = .var)))
  let values ← if ← eat .assignment then exprList g
    else if decls.any (·.type.isNone) then fail "expected rhs or explicit type"
    else pure []
  return ⟨← infoFrom keyword.span.start, decls, values⟩

/-- A return statement without what ends it. -/
def returnStmt (g : Nested) : Parse Stmt := do
  let keyword ← advance
  let values ← match ← kind with
    | .semicolon | .if | .unless => pure []
    | _ => exprList g
  return .ret (← infoFrom keyword.span.start) values

/-- An expression statement, or an assignment if an assignment operator follows. -/
def exprOrAssign (g : Nested) : Parse Stmt := do
  let start ← position
  let exprs ← exprList g
  let kind ← kind
  let op := kind.compoundOp?
  if kind = .assignment ∨ op.isSome then
    let _ ← advance
    let values ← exprList g
    if op.isSome ∧ (exprs.length ≠ 1 ∨ values.length ≠ 1) then
      fail "compound assignment takes exactly one target and value"
    else return .assign (← infoFrom start) (exprs.map Expr.asTarget) op values
  else match exprs with
    | [value] => return .expr value
    | _ => fail "expected `=` after assignment targets"

/-- A condition behind a statement, if there is one. -/
def guard (g : Nested) (start : Position) (body : Stmt) : Parse Stmt := do
  let guarded (kind : IfKind) : Parse Stmt := do
    let _ ← advance
    let condition ← g.expr .default
    return .guarded (← infoFrom start) body kind condition
  match ← kind with
  | .if => guarded .if
  | .unless => guarded .unless
  | _ => return body

/-- A statement that may have a condition behind it and ends with a semicolon. -/
def simpleStmt (g : Nested) (body : Parse Stmt) : Parse Stmt := do
  let start ← position
  let stmt ← guard g start (← body)
  let _ ← expect .semicolon
  return stmt

/-- A condition and the block it guards. -/
def arm (g : Nested) : Parse (Expr × Block) := do
  let condition ← g.expr .default
  return (condition, ← g.block)

/-- Values and the block that is run for them. -/
def valueArm (g : Nested) : Parse (List Expr × Block) := do
  let values ← exprList g
  return (values, ← g.block)

/-- A conditional statement. -/
def ifStmt (g : Nested) (kind : IfKind) : Parse Stmt := do
  let keyword ← advance
  let (condition, thenBlock) ← arm g
  let elseifs ← bounded (introduced .elseif (arm g))
  let elseBlock ← optional .else g.block
  return .ifElse (← infoFrom keyword.span.start) kind condition thenBlock elseifs elseBlock

/-- A choice between conditions or, with a target in front of the braces, between values. -/
def caseStmt (g : Nested) : Parse Stmt := do
  let keyword ← advance
  if ← eat .openCurly then
    let whens ← bounded (introduced .when (arm g))
    let elseBlock ← optional .else g.block
    let _ ← expect .closeCurly
    return .case (← infoFrom keyword.span.start) whens elseBlock
  else
    let target ← g.expr .default
    let _ ← expect .openCurly
    let whens ← bounded (introduced .when (valueArm g))
    let elseBlock ← optional .else g.block
    let _ ← expect .closeCurly
    return .switch (← infoFrom keyword.span.start) target whens elseBlock

/-- A loop over the elements of a value. -/
def forStmt (g : Nested) : Parse Stmt := do
  let keyword ← advance
  let vars ← bounded (commaList param)
  let _ ← expect .in
  let range ← g.expr .default
  let body ← g.block
  return .forIn (← infoFrom keyword.span.start) vars range body

/-- A loop under a condition. -/
def whileStmt (g : Nested) : Parse Stmt := do
  let keyword ← advance
  let condition ← g.expr .default
  let body ← g.block
  return .whileDo (← infoFrom keyword.span.start) condition body

/-- The bindings of a `let`, with semicolons between them. -/
def letInits (g : Nested) : Nat → Parse (List Init)
  | 0 => outOfFuel
  | n + 1 => do
    match ← kind with
    | .var | .val =>
      let first ← initStmt g
      if ← eat .semicolon then return first :: (← letInits g n) else return [first]
    | _ => fail "expected `var` or `val` after `let`"

/-- Bindings and the statement they are for. -/
def letStmt (g : Nested) : Parse Stmt := do
  let keyword ← advance
  let inits ← bounded (letInits g)
  let _ ← expect .in
  let child ← g.stmt
  return .letIn (← infoFrom keyword.span.start) inits child

/-- A statement. -/
def stmtWith (g : Nested) : Parse Stmt := do
  match ← kind with
  | .var | .val => simpleStmt g (return .init (← initStmt g))
  | .return => simpleStmt g (returnStmt g)
  | .if => ifStmt g .if
  | .unless => ifStmt g .unless
  | .case => caseStmt g
  | .for => forStmt g
  | .while => whileStmt g
  | .let => letStmt g
  | _ => simpleStmt g (exprOrAssign g)

/-- The statements of a block, up to the brace that closes it. -/
def stmtsUntilClose (g : Nested) : Nat → Parse (List Stmt)
  | 0 => outOfFuel
  | n + 1 => do
    let s ← get
    if s.kind = .closeCurly then return []
    else if !s.hasTokens then fail "expected `\x7d`"
    else
      let first ← g.stmt
      return first :: (← stmtsUntilClose g n)

/-- Statements between braces. -/
def blockWith (g : Nested) : Parse Block := do
  let start ← position
  let _ ← expect .openCurly
  let stmts ← bounded (stmtsUntilClose g)
  let _ ← expect .closeCurly
  return ⟨← infoFrom start, stmts⟩

mutual

/-- An expression nested at most `n` deep. -/
def exprAt : Nat → Power → TokenStream → EStateM.Result Failure TokenStream Expr
  | 0, _, s => .error (.fault .outOfFuel) s
  | n + 1, power, s => exprWith ⟨exprAt n, blockAt n, stmtAt n⟩ power s

/-- A block nested at most `n` deep. -/
def blockAt : Nat → TokenStream → EStateM.Result Failure TokenStream Block
  | 0, s => .error (.fault .outOfFuel) s
  | n + 1, s => blockWith ⟨exprAt n, blockAt n, stmtAt n⟩ s

/-- A statement nested at most `n` deep. -/
def stmtAt : Nat → TokenStream → EStateM.Result Failure TokenStream Stmt
  | 0, s => .error (.fault .outOfFuel) s
  | n + 1, s => stmtWith ⟨exprAt n, blockAt n, stmtAt n⟩ s

end

/-- The depth to which constructs can be nested in a number of tokens. Each token opens at most
one construct, and a statement may begin with an expression. -/
def depth (bound : Nat) : Nat := 2 * bound + 1

/-- An expression in a context that binds with the given power. -/
def expr (power : Power) : Parse Expr := bounded fun n => exprAt (depth n) power

/-- A block. -/
def block : Parse Block := bounded fun n => blockAt (depth n)

/-- A statement. -/
def stmt : Parse Stmt := bounded fun n => stmtAt (depth n)

/-- Readers of whatever may be nested, without a bound to give. -/
def nested : Nested := ⟨expr, block, stmt⟩

end Frontend.Parse
