import Frontend.Proofs.Layout.Plan

/-!
# The scopes of lambdas

The lambdas at the sites of a tree have their scopes among those of the tree.
-/

namespace Frontend

/-- A function has its scope among others, inside whatever it is written in. -/
def FuncDef.HasShape (d : FuncDef) (shapes : List Shape) : Prop :=
  ∃ home, d.shape home ∈ shapes

variable {lam : FuncDef}

namespace FuncDef

theorem hasShape_append {shapes shapes' : List Shape} :
    lam.HasShape (shapes ++ shapes') ↔ lam.HasShape shapes ∨ lam.HasShape shapes' := by
  simp only [HasShape, List.mem_append, exists_or]

theorem HasShape.cons {shapes : List Shape} (h : lam.HasShape shapes) (σ : Shape) :
    lam.HasShape (σ :: shapes) := by
  obtain ⟨home, hm⟩ := h
  exact ⟨home, List.mem_cons_of_mem σ hm⟩

end FuncDef

/-- The scopes of one piece of text after another. -/
@[simp] theorem Plan.shapes_append (q r : Plan) : (q ++ r).shapes = q.shapes ++ r.shapes := rfl

@[simp] theorem Plan.shapes_of (shapes : List Shape) : (Plan.of shapes).shapes = shapes := rfl

mutual

theorem Expr.lambda_hasShape {env : Env} {home : Option Nat} :
    ∀ e : Expr, .lambda lam ∈ e.parts env → lam.HasShape (e.shapes home)
  | .literal .., h | .varRef .., h => by simp [Expr.parts] at h
  | .array _ elems, h | .tuple _ elems, h => by
    rw [Expr.parts] at h
    rw [Expr.shapes]
    exact exprs_lambda_hasShape elems h
  | .dict _ entries, h => by
    rw [Expr.parts] at h
    rw [Expr.shapes]
    exact entries_lambda_hasShape entries h
  | .member _ receiver _, h | .unary _ _ receiver, h => by
    simp only [Expr.parts, List.mem_cons, reduceCtorEq, false_or] at h
    rw [Expr.shapes]
    exact receiver.lambda_hasShape h
  | .index _ first second, h | .binary _ _ first second, h | .range _ first second _, h => by
    simp only [Expr.parts, List.mem_append, List.mem_cons, reduceCtorEq, false_or] at h
    rw [Expr.shapes, FuncDef.hasShape_append]
    exact h.imp first.lambda_hasShape second.lambda_hasShape
  | .call _ callee args, h => by
    have hcallee : ¬ Site.lambda lam = callee.asCallee := by
      cases callee <;> simp [Expr.asCallee]
    simp only [Expr.parts, List.mem_append, List.mem_cons, hcallee, false_or] at h
    rw [Expr.shapes, FuncDef.hasShape_append]
    exact h.imp callee.lambda_hasShape (exprs_lambda_hasShape args)
  | .cast _ value _, h | .typed _ value _, h => by
    simp only [Expr.parts, List.mem_cons, reduceCtorEq, false_or] at h
    rw [Expr.shapes]
    exact value.lambda_hasShape h
  | .ifElse _ _ condition thenValue elseValue, h => by
    simp only [Expr.parts, List.mem_append, List.mem_cons, reduceCtorEq, false_or, or_assoc] at h
    rw [Expr.shapes, FuncDef.hasShape_append, FuncDef.hasShape_append]
    exact h.imp condition.lambda_hasShape
      (Or.imp thenValue.lambda_hasShape elseValue.lambda_hasShape)
  | .lambda _ d, h => by
    simp only [Expr.parts, List.mem_cons, Site.lambda.injEq] at h
    rw [Expr.shapes]
    rcases h with rfl | h
    · exact ⟨home, lam.shapes_eq_cons home ▸ List.mem_cons_self⟩
    · exact d.lambda_hasShape h

theorem exprs_lambda_hasShape {env : Env} {home : Option Nat} :
    ∀ es : List Expr, .lambda lam ∈ exprsSites env es → lam.HasShape (exprsShapes home es)
  | [], h => by simp [exprsSites] at h
  | e :: rest, h => by
    simp only [exprsSites, List.mem_append, List.mem_cons, reduceCtorEq, false_or] at h
    rw [exprsShapes, FuncDef.hasShape_append]
    exact h.imp e.lambda_hasShape (exprs_lambda_hasShape rest)

theorem entries_lambda_hasShape {env : Env} {home : Option Nat} :
    ∀ es : List (Expr × Expr), .lambda lam ∈ entriesSites env es →
      lam.HasShape (entriesShapes home es)
  | [], h => by simp [entriesSites] at h
  | (key, value) :: rest, h => by
    simp only [entriesSites, List.mem_append, List.mem_cons, reduceCtorEq, false_or, or_assoc] at h
    rw [entriesShapes, FuncDef.hasShape_append, FuncDef.hasShape_append]
    exact h.imp key.lambda_hasShape (Or.imp value.lambda_hasShape (entries_lambda_hasShape rest))

theorem FuncDef.lambda_hasShape {env : Env} {home : Option Nat} :
    ∀ d : FuncDef, .lambda lam ∈ d.sites env → lam.HasShape (d.shapes home)
  | ⟨info, kind, name, params, returnType, body, ensureBody⟩, h => by
    simp only [FuncDef.sites, paramSites, List.mem_append, List.mem_cons, List.mem_map,
      reduceCtorEq, and_false, exists_false, false_or] at h
    rw [FuncDef.shapes, Plan.function]
    refine .cons ?_ _
    rw [Plan.shapes_append, FuncDef.hasShape_append]
    exact h.imp body.lambda_hasShape (optional_lambda_hasShape ensureBody)

theorem Block.lambda_hasShape {env : Env} {home : Option Nat} :
    ∀ b : Block, .lambda lam ∈ b.sites env → lam.HasShape (b.plan home).shapes
  | ⟨info, stmts⟩, h => by
    simp only [Block.sites, List.mem_cons, reduceCtorEq, false_or] at h
    rw [Block.plan, Plan.enclose]
    exact .cons (stmts_lambda_hasShape stmts h) _

theorem optional_lambda_hasShape {env : Env} {home : Option Nat} :
    ∀ b : Option Block, .lambda lam ∈ optionalSites env b →
      lam.HasShape (optionalPlan home b).shapes
  | none, h => by simp [optionalSites] at h
  | some b, h => by
    rw [optionalSites] at h
    rw [optionalPlan]
    exact b.lambda_hasShape h

theorem Init.lambda_hasShape {env : Env} {home : Option Nat} :
    ∀ i : Init, .lambda lam ∈ i.sites env → lam.HasShape (i.plan home).shapes
  | ⟨info, decls, values⟩, h => by
    simp only [Init.sites, List.mem_append, List.mem_map, reduceCtorEq, and_false, exists_false,
      or_false] at h
    rw [Init.plan, Plan.shapes_append, Plan.shapes_of, List.append_nil]
    exact exprs_lambda_hasShape values h

theorem Stmt.lambda_hasShape {env : Env} {home : Option Nat} :
    ∀ s : Stmt, .lambda lam ∈ s.sites env → lam.HasShape (s.plan home).shapes
  | .init init, h => by
    rw [Stmt.sites] at h
    rw [Stmt.plan]
    exact init.lambda_hasShape h
  | .assign _ targets _ values, h => by
    simp only [Stmt.sites, List.mem_append] at h
    rw [Stmt.plan, Plan.shapes_of, FuncDef.hasShape_append]
    exact h.imp (exprs_lambda_hasShape targets) (exprs_lambda_hasShape values)
  | .ifElse _ _ condition thenBlock elseifs elseBlock, h => by
    simp only [Stmt.sites, List.mem_append, List.mem_cons, reduceCtorEq, false_or, or_assoc] at h
    simp only [Stmt.plan, Plan.shapes_append, Plan.shapes_of, FuncDef.hasShape_append]
    exact h.imp condition.lambda_hasShape (Or.imp thenBlock.lambda_hasShape
      (Or.imp (arms_lambda_hasShape elseifs) (optional_lambda_hasShape elseBlock)))
  | .ret _ values, h => by
    rw [Stmt.sites] at h
    rw [Stmt.plan]
    exact exprs_lambda_hasShape values h
  | .case _ whens elseBlock, h => by
    simp only [Stmt.sites, List.mem_append] at h
    simp only [Stmt.plan, Plan.shapes_append, FuncDef.hasShape_append]
    exact h.imp (arms_lambda_hasShape whens) (optional_lambda_hasShape elseBlock)
  | .switch _ target whens elseBlock, h => by
    simp only [Stmt.sites, List.mem_append, List.mem_cons, reduceCtorEq, false_or, or_assoc] at h
    simp only [Stmt.plan, Plan.shapes_append, Plan.shapes_of, FuncDef.hasShape_append]
    exact h.imp target.lambda_hasShape
      (Or.imp (valueArms_lambda_hasShape whens) (optional_lambda_hasShape elseBlock))
  | .forIn _ vars range ⟨bodyInfo, stmts⟩, h => by
    simp only [Stmt.sites, paramSites, List.mem_append, List.mem_cons, List.mem_map, reduceCtorEq,
      and_false, exists_false, false_or, or_false] at h
    simp only [Stmt.plan, Plan.shapes_append, Plan.shapes_of, FuncDef.hasShape_append, Plan.enclose,
      List.nil_append]
    exact h.imp range.lambda_hasShape fun h => .cons (stmts_lambda_hasShape stmts h) _
  | .whileDo _ condition body, h => by
    simp only [Stmt.sites, List.mem_append, List.mem_cons, reduceCtorEq, false_or] at h
    simp only [Stmt.plan, Plan.shapes_append, Plan.shapes_of, FuncDef.hasShape_append]
    exact h.imp condition.lambda_hasShape body.lambda_hasShape
  | .guarded _ body _ condition, h => by
    simp only [Stmt.sites, List.mem_append, List.mem_cons, reduceCtorEq, false_or] at h
    simp only [Stmt.plan, Plan.shapes_append, Plan.shapes_of, FuncDef.hasShape_append]
    exact h.imp body.lambda_hasShape condition.lambda_hasShape
  | .letIn info inits child, h => by
    simp only [Stmt.sites, List.mem_append, List.mem_cons, reduceCtorEq, false_or] at h
    rw [Stmt.plan, Plan.enclose]
    refine .cons ?_ _
    rw [Plan.shapes_append, FuncDef.hasShape_append]
    exact h.imp (inits_lambda_hasShape inits) child.lambda_hasShape
  | .expr value, h => by
    simp only [Stmt.sites, List.mem_cons, reduceCtorEq, false_or] at h
    rw [Stmt.plan]
    exact value.lambda_hasShape h

theorem stmts_lambda_hasShape {env : Env} {home : Option Nat} :
    ∀ ss : List Stmt, .lambda lam ∈ stmtsSites env ss → lam.HasShape (stmtsPlan home ss).shapes
  | [], h => by simp [stmtsSites] at h
  | s :: rest, h => by
    rw [stmtsSites, List.mem_append] at h
    rw [stmtsPlan, Plan.shapes_append, FuncDef.hasShape_append]
    exact h.imp s.lambda_hasShape (stmts_lambda_hasShape rest)

theorem inits_lambda_hasShape {env : Env} {home : Option Nat} :
    ∀ is : List Init, .lambda lam ∈ initsSites env is → lam.HasShape (initsPlan home is).shapes
  | [], h => by simp [initsSites] at h
  | i :: rest, h => by
    rw [initsSites, List.mem_append] at h
    rw [initsPlan, Plan.shapes_append, FuncDef.hasShape_append]
    exact h.imp i.lambda_hasShape (inits_lambda_hasShape rest)

theorem arms_lambda_hasShape {env : Env} {home : Option Nat} :
    ∀ arms : List (Expr × Block), .lambda lam ∈ armsSites env arms →
      lam.HasShape (armsPlan home arms).shapes
  | [], h => by simp [armsSites] at h
  | (condition, block) :: rest, h => by
    simp only [armsSites, List.mem_append, List.mem_cons, reduceCtorEq, false_or, or_assoc] at h
    simp only [armsPlan, Plan.shapes_append, Plan.shapes_of, FuncDef.hasShape_append]
    exact h.imp condition.lambda_hasShape
      (Or.imp block.lambda_hasShape (arms_lambda_hasShape rest))

theorem valueArms_lambda_hasShape {env : Env} {home : Option Nat} :
    ∀ arms : List (List Expr × Block), .lambda lam ∈ valueArmsSites env arms →
      lam.HasShape (valueArmsPlan home arms).shapes
  | [], h => by simp [valueArmsSites] at h
  | (values, block) :: rest, h => by
    simp only [valueArmsSites, List.mem_append, or_assoc] at h
    simp only [valueArmsPlan, Plan.shapes_append, Plan.shapes_of, FuncDef.hasShape_append]
    exact h.imp (exprs_lambda_hasShape values)
      (Or.imp block.lambda_hasShape (valueArms_lambda_hasShape rest))

end

/-- Each lambda at a site of a definition has its scope among those of the definition. -/
theorem Definition.lambda_hasShape {p : Program} {e : Definition} (h : .lambda lam ∈ e.sites p) :
    lam.HasShape e.shapes := by
  cases e with
  | function d =>
    rw [Definition.sites] at h
    exact FuncDef.lambda_hasShape d h
  | constant d =>
    simp only [Definition.sites, List.mem_append, List.mem_map, reduceCtorEq, and_false,
      exists_false, false_or] at h
    exact exprs_lambda_hasShape d.values h

end Frontend
