import Frontend.Proofs.Tree.Written

/-!
# Trees without identity and location

Two trees are the same program text up to layout if they agree once ids and spans are taken away.
The name of a lambda is made from its own id, so this part of the name goes as well.
-/

namespace Frontend

/-- What stands for every identity and location. -/
def NodeInfo.erased : NodeInfo := ⟨0, .null⟩

mutual

/-- A type annotation without ids and spans. -/
@[simp] def TypeExpr.erase : TypeExpr → TypeExpr
  | .primary _ name args => .primary .erased name (eraseTypes args)
  | .array _ elem => .array .erased elem.erase
  | .dict _ key value => .dict .erased key.erase value.erase
  | .tuple _ elems => .tuple .erased (eraseTypes elems)
  | .func _ kind params none => .func .erased kind (eraseTypes params) none
  | .func _ kind params (some ret) => .func .erased kind (eraseTypes params) (some ret.erase)
  | .qualified _ qualifier inner => .qualified .erased qualifier inner.erase

/-- Type annotations without ids and spans. -/
@[simp] def eraseTypes : List TypeExpr → List TypeExpr
  | [] => []
  | t :: rest => t.erase :: eraseTypes rest

end

/-- A parameter without ids and spans. -/
def Param.erase (p : Param) : Param :=
  { p with info := .erased, type := p.type.map TypeExpr.erase }

/-- A declared name without ids and spans. -/
def VarDecl.erase (d : VarDecl) : VarDecl :=
  { d with info := .erased, type := d.type.map TypeExpr.erase }

/-- A declared constant without ids and spans. -/
def ConstDecl.erase (d : ConstDecl) : ConstDecl :=
  { d with info := .erased, type := d.type.map TypeExpr.erase }

/-- The name of a definition without the id that is part of the name of a lambda. -/
def eraseName (info : NodeInfo) (kind : FuncKind) (name : String) : String :=
  if kind = .lambda ∧ name = "lambda." ++ info.id.repr then "lambda." else name

mutual

/-- An expression without ids and spans. -/
@[simp] def Expr.erase : Expr → Expr
  | .literal _ value => .literal .erased value
  | .varRef _ name assigned => .varRef .erased name assigned
  | .array _ elems => .array .erased (eraseExprs elems)
  | .tuple _ elems => .tuple .erased (eraseExprs elems)
  | .dict _ entries => .dict .erased (eraseEntries entries)
  | .member _ receiver name => .member .erased receiver.erase name
  | .index _ receiver index => .index .erased receiver.erase index.erase
  | .call _ callee args => .call .erased callee.erase (eraseExprs args)
  | .unary _ op operand => .unary .erased op operand.erase
  | .binary _ op lhs rhs => .binary .erased op lhs.erase rhs.erase
  | .cast _ value type => .cast .erased value.erase type.erase
  | .typed _ value type => .typed .erased value.erase type.erase
  | .ifElse _ kind condition thenValue elseValue =>
    .ifElse .erased kind condition.erase thenValue.erase elseValue.erase
  | .range _ first last inclusive => .range .erased first.erase last.erase inclusive
  | .lambda _ d => .lambda .erased d.erase

/-- Expressions without ids and spans. -/
@[simp] def eraseExprs : List Expr → List Expr
  | [] => []
  | e :: rest => e.erase :: eraseExprs rest

/-- Entries of a dictionary without ids and spans. -/
@[simp] def eraseEntries : List (Expr × Expr) → List (Expr × Expr)
  | [] => []
  | (key, value) :: rest => (key.erase, value.erase) :: eraseEntries rest

/-- A function without ids and spans. -/
@[simp] def FuncDef.erase : FuncDef → FuncDef
  | ⟨info, kind, name, params, returnType, body, ensureBody⟩ =>
    ⟨.erased, kind, eraseName info kind name, params.map Param.erase,
      returnType.map TypeExpr.erase, body.erase, eraseBlock ensureBody⟩

/-- A block without ids and spans. -/
@[simp] def Block.erase : Block → Block
  | ⟨_, stmts⟩ => ⟨.erased, eraseStmts stmts⟩

/-- An optional block without ids and spans. -/
@[simp] def eraseBlock : Option Block → Option Block
  | none => none
  | some b => some b.erase

/-- An initialize statement without ids and spans. -/
@[simp] def Init.erase : Init → Init
  | ⟨_, decls, values⟩ => ⟨.erased, decls.map VarDecl.erase, eraseExprs values⟩

/-- A statement without ids and spans. -/
@[simp] def Stmt.erase : Stmt → Stmt
  | .init init => .init init.erase
  | .assign _ targets op values => .assign .erased (eraseExprs targets) op (eraseExprs values)
  | .ifElse _ kind condition thenBlock elseifs elseBlock =>
    .ifElse .erased kind condition.erase thenBlock.erase (eraseArms elseifs)
      (eraseBlock elseBlock)
  | .ret _ values => .ret .erased (eraseExprs values)
  | .case _ whens elseBlock => .case .erased (eraseArms whens) (eraseBlock elseBlock)
  | .switch _ target whens elseBlock =>
    .switch .erased target.erase (eraseValueArms whens) (eraseBlock elseBlock)
  | .forIn _ vars range body => .forIn .erased (vars.map Param.erase) range.erase body.erase
  | .whileDo _ condition body => .whileDo .erased condition.erase body.erase
  | .guarded _ body kind condition => .guarded .erased body.erase kind condition.erase
  | .letIn _ inits child => .letIn .erased (eraseInits inits) child.erase
  | .expr value => .expr value.erase

/-- Statements without ids and spans. -/
@[simp] def eraseStmts : List Stmt → List Stmt
  | [] => []
  | s :: rest => s.erase :: eraseStmts rest

/-- Initialize statements without ids and spans. -/
@[simp] def eraseInits : List Init → List Init
  | [] => []
  | init :: rest => init.erase :: eraseInits rest

/-- Conditions and the blocks they guard, without ids and spans. -/
@[simp] def eraseArms : List (Expr × Block) → List (Expr × Block)
  | [] => []
  | (condition, block) :: rest => (condition.erase, block.erase) :: eraseArms rest

/-- Values and the blocks that are run for them, without ids and spans. -/
@[simp] def eraseValueArms : List (List Expr × Block) → List (List Expr × Block)
  | [] => []
  | (values, block) :: rest => (eraseExprs values, block.erase) :: eraseValueArms rest

end

/-- A constant definition without ids and spans. -/
def ConstDef.erase (d : ConstDef) : ConstDef :=
  ⟨.erased, d.decls.map ConstDecl.erase, d.values.map Expr.erase⟩

/-- A definition without ids and spans. -/
def Definition.erase : Definition → Definition
  | .function d => .function d.erase
  | .constant d => .constant d.erase

/-- A program without ids and spans. -/
def Program.erase (p : Program) : Program := ⟨.erased, p.definitions.map Definition.erase⟩

/-! ### Lists of parts -/

@[simp] theorem eraseTypes_eq (ts : List TypeExpr) : eraseTypes ts = ts.map TypeExpr.erase := by
  induction ts with
  | nil => rw [eraseTypes, List.map_nil]
  | cons t rest ih => rw [eraseTypes, ih, List.map_cons]

@[simp] theorem eraseExprs_eq (es : List Expr) : eraseExprs es = es.map Expr.erase := by
  induction es with
  | nil => rw [eraseExprs, List.map_nil]
  | cons e rest ih => rw [eraseExprs, ih, List.map_cons]

@[simp] theorem eraseEntries_eq (es : List (Expr × Expr)) :
    eraseEntries es = es.map fun e => (e.1.erase, e.2.erase) := by
  induction es with
  | nil => rw [eraseEntries, List.map_nil]
  | cons e rest ih => rw [eraseEntries, ih, List.map_cons]

@[simp] theorem eraseBlock_eq (b : Option Block) : eraseBlock b = b.map Block.erase := by
  cases b <;> simp [eraseBlock]

@[simp] theorem eraseStmts_eq (ss : List Stmt) : eraseStmts ss = ss.map Stmt.erase := by
  induction ss with
  | nil => rw [eraseStmts, List.map_nil]
  | cons s rest ih => rw [eraseStmts, ih, List.map_cons]

@[simp] theorem eraseInits_eq (is : List Init) : eraseInits is = is.map Init.erase := by
  induction is with
  | nil => rw [eraseInits, List.map_nil]
  | cons i rest ih => rw [eraseInits, ih, List.map_cons]

@[simp] theorem eraseArms_eq (whens : List (Expr × Block)) :
    eraseArms whens = whens.map fun a => (a.1.erase, a.2.erase) := by
  induction whens with
  | nil => rw [eraseArms, List.map_nil]
  | cons a rest ih => rw [eraseArms, ih, List.map_cons]

@[simp] theorem eraseValueArms_eq (whens : List (List Expr × Block)) :
    eraseValueArms whens = whens.map fun a => (a.1.map Expr.erase, a.2.erase) := by
  induction whens with
  | nil => rw [eraseValueArms, List.map_nil]
  | cons a rest ih => rw [eraseValueArms, ih, eraseExprs_eq, List.map_cons]

/-- Marking a target and taking its id away are independent. -/
theorem Expr.erase_asTarget (e : Expr) : e.asTarget.erase = e.erase.asTarget := by
  cases e <;> simp [asTarget, erase]

/-- A lambda that is named after its own id keeps only the word in front of the id. -/
theorem eraseName_lambda (info : NodeInfo) :
    eraseName info .lambda ("lambda." ++ info.id.repr) = "lambda." :=
  if_pos ⟨rfl, rfl⟩

theorem eraseName_of_ne {info : NodeInfo} {kind : FuncKind} {name : String} (h : kind ≠ .lambda) :
    eraseName info kind name = name :=
  if_neg fun hand => h hand.1

end Frontend
