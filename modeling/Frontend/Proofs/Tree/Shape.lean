import Frontend.Tree.Ids

/-!
# Well-shaped trees

What a tree promises beyond its type: a lambda is of its own kind, names that are assigned to are
marked, a compound assignment has one target and one value, and what is declared without values is
declared with types.
-/

namespace Frontend

mutual

/-- An expression is well shaped at every depth. -/
def Expr.WellShaped : Expr → Prop
  | .literal .. | .varRef .. => True
  | .array _ elems | .tuple _ elems => exprsWellShaped elems
  | .dict _ entries => entriesWellShaped entries
  | .member _ receiver _ => receiver.WellShaped
  | .index _ receiver index => receiver.WellShaped ∧ index.WellShaped
  | .call _ callee args => callee.WellShaped ∧ exprsWellShaped args
  | .unary _ _ operand => operand.WellShaped
  | .binary _ _ lhs rhs => lhs.WellShaped ∧ rhs.WellShaped
  | .cast _ value _ | .typed _ value _ => value.WellShaped
  | .ifElse _ _ condition thenValue elseValue =>
    condition.WellShaped ∧ thenValue.WellShaped ∧ elseValue.WellShaped
  | .range _ first last _ => first.WellShaped ∧ last.WellShaped
  | .lambda _ d => d.kind = .lambda ∧ d.WellShaped

/-- Expressions are well shaped. -/
def exprsWellShaped : List Expr → Prop
  | [] => True
  | e :: rest => e.WellShaped ∧ exprsWellShaped rest

/-- The entries of a dictionary are well shaped. -/
def entriesWellShaped : List (Expr × Expr) → Prop
  | [] => True
  | (key, value) :: rest => key.WellShaped ∧ value.WellShaped ∧ entriesWellShaped rest

/-- The bodies of a function are well shaped. -/
def FuncDef.WellShaped : FuncDef → Prop
  | ⟨_, _, _, _, _, body, ensureBody⟩ => body.WellShaped ∧ optionalWellShaped ensureBody

/-- A block is well shaped. -/
def Block.WellShaped : Block → Prop
  | ⟨_, stmts⟩ => stmtsWellShaped stmts

/-- An optional block is well shaped. -/
def optionalWellShaped : Option Block → Prop
  | none => True
  | some b => b.WellShaped

/-- An initialize statement is well shaped. -/
def Init.WellShaped : Init → Prop
  | ⟨_, decls, values⟩ => (values = [] → ∀ d ∈ decls, d.type.isSome) ∧ exprsWellShaped values

/-- A statement is well shaped. -/
def Stmt.WellShaped : Stmt → Prop
  | .init init => init.WellShaped
  | .assign _ targets op values =>
    (op.isSome → targets.length = 1 ∧ values.length = 1) ∧ (∀ t ∈ targets, t.asTarget = t) ∧
      exprsWellShaped targets ∧ exprsWellShaped values
  | .ifElse _ _ condition thenBlock elseifs elseBlock =>
    condition.WellShaped ∧ thenBlock.WellShaped ∧ armsWellShaped elseifs ∧
      optionalWellShaped elseBlock
  | .ret _ values => exprsWellShaped values
  | .case _ whens elseBlock => armsWellShaped whens ∧ optionalWellShaped elseBlock
  | .switch _ target whens elseBlock =>
    target.WellShaped ∧ valueArmsWellShaped whens ∧ optionalWellShaped elseBlock
  | .forIn _ _ range body => range.WellShaped ∧ body.WellShaped
  | .whileDo _ condition body => condition.WellShaped ∧ body.WellShaped
  | .guarded _ body _ condition => body.WellShaped ∧ condition.WellShaped
  | .letIn _ inits child => initsWellShaped inits ∧ child.WellShaped
  | .expr value => value.WellShaped

/-- Statements are well shaped. -/
def stmtsWellShaped : List Stmt → Prop
  | [] => True
  | s :: rest => s.WellShaped ∧ stmtsWellShaped rest

/-- Initialize statements are well shaped. -/
def initsWellShaped : List Init → Prop
  | [] => True
  | init :: rest => init.WellShaped ∧ initsWellShaped rest

/-- Conditions and the blocks they guard are well shaped. -/
def armsWellShaped : List (Expr × Block) → Prop
  | [] => True
  | (condition, block) :: rest =>
    condition.WellShaped ∧ block.WellShaped ∧ armsWellShaped rest

/-- Values and the blocks that are run for them are well shaped. -/
def valueArmsWellShaped : List (List Expr × Block) → Prop
  | [] => True
  | (values, block) :: rest =>
    exprsWellShaped values ∧ block.WellShaped ∧ valueArmsWellShaped rest

end

/-- A definition is well shaped. -/
def Definition.WellShaped : Definition → Prop
  | .function d => d.WellShaped
  | .constant d => exprsWellShaped d.values

/-- The definitions of a program are well shaped. -/
def Program.WellShaped (p : Program) : Prop := ∀ d ∈ p.definitions, d.WellShaped

/-! ### Lists of parts -/

theorem TypeExpr.idsAll_eq (ts : List TypeExpr) : TypeExpr.idsAll ts = ts.flatMap TypeExpr.ids := by
  induction ts with
  | nil => simp [idsAll]
  | cons t rest ih => simp [idsAll, ih]

theorem exprIds_eq (es : List Expr) : exprIds es = es.flatMap Expr.ids := by
  induction es with
  | nil => simp [exprIds]
  | cons e rest ih => simp [exprIds, ih]

theorem entryIds_eq (es : List (Expr × Expr)) :
    entryIds es = es.flatMap fun e => e.1.ids ++ e.2.ids := by
  induction es with
  | nil => simp [entryIds]
  | cons e rest ih => simp [entryIds, ih]

theorem armIds_eq (whens : List (Expr × Block)) :
    armIds whens = whens.flatMap fun a => a.1.ids ++ a.2.ids := by
  induction whens with
  | nil => simp [armIds]
  | cons a rest ih => simp [armIds, ih]

theorem valueArmIds_eq (whens : List (List Expr × Block)) :
    valueArmIds whens = whens.flatMap fun a => exprIds a.1 ++ a.2.ids := by
  induction whens with
  | nil => simp [valueArmIds]
  | cons a rest ih => simp [valueArmIds, ih]

theorem stmtIds_eq (ss : List Stmt) : stmtIds ss = ss.flatMap Stmt.ids := by
  induction ss with
  | nil => simp [stmtIds]
  | cons s rest ih => simp [stmtIds, ih]

theorem initIds_eq (is : List Init) : initIds is = is.flatMap Init.ids := by
  induction is with
  | nil => simp [initIds]
  | cons i rest ih => simp [initIds, ih]

theorem blockIds_eq (b : Option Block) : blockIds b = (b.map Block.ids).getD [] := by
  cases b <;> simp [blockIds]

/-! ### Targets -/

theorem Expr.asTarget_asTarget (e : Expr) : e.asTarget.asTarget = e.asTarget := by
  cases e <;> rfl

theorem Expr.ids_asTarget (e : Expr) : e.asTarget.ids = e.ids := by
  cases e <;> simp [asTarget, ids]

end Frontend
