import Frontend.Proofs.Scoping.Site
import Frontend.Tree.Ids

/-!
# Where lambdas stand

The lambdas at the sites of a tree are parts of that tree: their nodes are among its nodes.
-/

namespace Frontend

variable {lam : FuncDef} {node : Nat}

mutual

theorem Expr.lambda_mem_ids {env : Env} (hnode : node ∈ lam.ids) :
    ∀ e : Expr, .lambda lam ∈ e.parts env → node ∈ e.ids
  | .literal .., h | .varRef .., h => by simp [Expr.parts] at h
  | .array info elems, h | .tuple info elems, h => by
    rw [Expr.parts] at h
    rw [Expr.ids]
    exact List.mem_cons_of_mem _ (exprs_lambda_mem_ids hnode elems h)
  | .dict info entries, h => by
    rw [Expr.parts] at h
    rw [Expr.ids]
    exact List.mem_cons_of_mem _ (entries_lambda_mem_ids hnode entries h)
  | .member info receiver _, h | .unary info _ receiver, h => by
    simp only [Expr.parts, List.mem_cons, reduceCtorEq, false_or] at h
    rw [Expr.ids]
    exact List.mem_cons_of_mem _ (receiver.lambda_mem_ids hnode h)
  | .index info first second, h | .binary info _ first second, h
  | .range info first second _, h => by
    simp only [Expr.parts, List.mem_append, List.mem_cons, reduceCtorEq, false_or] at h
    simp only [Expr.ids, List.mem_cons, List.mem_append]
    exact .inr (h.imp (first.lambda_mem_ids hnode) (second.lambda_mem_ids hnode))
  | .call info callee args, h => by
    have hcallee : ¬ Site.lambda lam = callee.asCallee := by
      cases callee <;> simp [Expr.asCallee]
    simp only [Expr.parts, List.mem_append, List.mem_cons, hcallee, false_or] at h
    simp only [Expr.ids, List.mem_cons, List.mem_append]
    exact .inr (h.imp (callee.lambda_mem_ids hnode) (exprs_lambda_mem_ids hnode args))
  | .cast info value type, h | .typed info value type, h => by
    simp only [Expr.parts, List.mem_cons, reduceCtorEq, false_or] at h
    simp only [Expr.ids, List.mem_cons, List.mem_append]
    exact .inr (.inl (value.lambda_mem_ids hnode h))
  | .ifElse info _ condition thenValue elseValue, h => by
    simp only [Expr.parts, List.mem_append, List.mem_cons, reduceCtorEq, false_or] at h
    simp only [Expr.ids, List.mem_cons, List.mem_append]
    exact .inr (h.imp (Or.imp (condition.lambda_mem_ids hnode) (thenValue.lambda_mem_ids hnode))
      (elseValue.lambda_mem_ids hnode))
  | .lambda info d, h => by
    simp only [Expr.parts, List.mem_cons, Site.lambda.injEq] at h
    rw [Expr.ids]
    refine List.mem_cons_of_mem _ ?_
    rcases h with rfl | h
    · exact hnode
    · exact d.lambda_mem_ids hnode h

theorem exprs_lambda_mem_ids {env : Env} (hnode : node ∈ lam.ids) :
    ∀ es : List Expr, .lambda lam ∈ exprsSites env es → node ∈ exprIds es
  | [], h => by simp [exprsSites] at h
  | e :: rest, h => by
    simp only [exprsSites, List.mem_append, List.mem_cons, reduceCtorEq, false_or] at h
    rw [exprIds, List.mem_append]
    exact h.imp (e.lambda_mem_ids hnode) (exprs_lambda_mem_ids hnode rest)

theorem entries_lambda_mem_ids {env : Env} (hnode : node ∈ lam.ids) :
    ∀ es : List (Expr × Expr), .lambda lam ∈ entriesSites env es → node ∈ entryIds es
  | [], h => by simp [entriesSites] at h
  | (key, value) :: rest, h => by
    simp only [entriesSites, List.mem_append, List.mem_cons, reduceCtorEq, false_or] at h
    simp only [entryIds, List.mem_append]
    exact h.imp (Or.imp (key.lambda_mem_ids hnode) (value.lambda_mem_ids hnode))
      (entries_lambda_mem_ids hnode rest)

theorem FuncDef.lambda_mem_ids {env : Env} (hnode : node ∈ lam.ids) :
    ∀ d : FuncDef, .lambda lam ∈ d.sites env → node ∈ d.ids
  | ⟨info, kind, name, params, returnType, body, ensureBody⟩, h => by
    simp only [FuncDef.sites, paramSites, List.mem_append, List.mem_cons, List.mem_map,
      reduceCtorEq, and_false, exists_false, false_or] at h
    simp only [FuncDef.ids, List.mem_cons, List.mem_append]
    rcases h with h | h
    · exact .inr (.inl (.inr (body.lambda_mem_ids hnode h)))
    · exact .inr (.inr (optional_lambda_mem_ids hnode ensureBody h))

theorem Block.lambda_mem_ids {env : Env} (hnode : node ∈ lam.ids) :
    ∀ b : Block, .lambda lam ∈ b.sites env → node ∈ b.ids
  | ⟨info, stmts⟩, h => by
    simp only [Block.sites, List.mem_cons, reduceCtorEq, false_or] at h
    rw [Block.ids]
    exact List.mem_cons_of_mem _ (stmts_lambda_mem_ids hnode stmts h)

theorem optional_lambda_mem_ids {env : Env} (hnode : node ∈ lam.ids) :
    ∀ b : Option Block, .lambda lam ∈ optionalSites env b → node ∈ blockIds b
  | none, h => by simp [optionalSites] at h
  | some b, h => by
    rw [optionalSites] at h
    rw [blockIds]
    exact b.lambda_mem_ids hnode h

theorem Init.lambda_mem_ids {env : Env} (hnode : node ∈ lam.ids) :
    ∀ i : Init, .lambda lam ∈ i.sites env → node ∈ i.ids
  | ⟨info, decls, values⟩, h => by
    simp only [Init.sites, List.mem_append, List.mem_map, reduceCtorEq, and_false, exists_false,
      or_false] at h
    simp only [Init.ids, List.mem_cons, List.mem_append]
    exact .inr (.inr (exprs_lambda_mem_ids hnode values h))

theorem Stmt.lambda_mem_ids {env : Env} (hnode : node ∈ lam.ids) :
    ∀ s : Stmt, .lambda lam ∈ s.sites env → node ∈ s.ids
  | .init init, h => by
    rw [Stmt.sites] at h
    rw [Stmt.ids]
    exact init.lambda_mem_ids hnode h
  | .assign info targets _ values, h => by
    simp only [Stmt.sites, List.mem_append] at h
    simp only [Stmt.ids, List.mem_cons, List.mem_append]
    exact .inr (h.imp (exprs_lambda_mem_ids hnode targets) (exprs_lambda_mem_ids hnode values))
  | .ifElse info _ condition thenBlock elseifs elseBlock, h => by
    simp only [Stmt.sites, List.mem_append, List.mem_cons, reduceCtorEq, false_or] at h
    simp only [Stmt.ids, List.mem_cons, List.mem_append]
    exact .inr (h.imp (Or.imp
      (Or.imp (condition.lambda_mem_ids hnode) (thenBlock.lambda_mem_ids hnode))
      (arms_lambda_mem_ids hnode elseifs)) (optional_lambda_mem_ids hnode elseBlock))
  | .ret info values, h => by
    rw [Stmt.sites] at h
    rw [Stmt.ids]
    exact List.mem_cons_of_mem _ (exprs_lambda_mem_ids hnode values h)
  | .case info whens elseBlock, h => by
    simp only [Stmt.sites, List.mem_append] at h
    simp only [Stmt.ids, List.mem_cons, List.mem_append]
    exact .inr (h.imp (arms_lambda_mem_ids hnode whens) (optional_lambda_mem_ids hnode elseBlock))
  | .switch info target whens elseBlock, h => by
    simp only [Stmt.sites, List.mem_append, List.mem_cons, reduceCtorEq, false_or] at h
    simp only [Stmt.ids, List.mem_cons, List.mem_append]
    exact .inr (h.imp (Or.imp (target.lambda_mem_ids hnode) (valueArms_lambda_mem_ids hnode whens))
      (optional_lambda_mem_ids hnode elseBlock))
  | .forIn info vars range ⟨bodyInfo, stmts⟩, h => by
    simp only [Stmt.sites, paramSites, List.mem_append, List.mem_cons, List.mem_map, reduceCtorEq,
      and_false, exists_false, false_or, or_false] at h
    simp only [Stmt.ids, Block.ids, List.mem_cons, List.mem_append]
    rcases h with h | h
    · exact .inr (.inl (.inr (range.lambda_mem_ids hnode h)))
    · exact .inr (.inr (.inr (stmts_lambda_mem_ids hnode stmts h)))
  | .whileDo info condition body, h => by
    simp only [Stmt.sites, List.mem_append, List.mem_cons, reduceCtorEq, false_or] at h
    simp only [Stmt.ids, List.mem_cons, List.mem_append]
    exact .inr (h.imp (condition.lambda_mem_ids hnode) (body.lambda_mem_ids hnode))
  | .guarded info body _ condition, h => by
    simp only [Stmt.sites, List.mem_append, List.mem_cons, reduceCtorEq, false_or] at h
    simp only [Stmt.ids, List.mem_cons, List.mem_append]
    exact .inr (h.imp (body.lambda_mem_ids hnode) (condition.lambda_mem_ids hnode))
  | .letIn info inits child, h => by
    simp only [Stmt.sites, List.mem_append, List.mem_cons, reduceCtorEq, false_or] at h
    simp only [Stmt.ids, List.mem_cons, List.mem_append]
    exact .inr (h.imp (inits_lambda_mem_ids hnode inits) (child.lambda_mem_ids hnode))
  | .expr value, h => by
    simp only [Stmt.sites, List.mem_cons, reduceCtorEq, false_or] at h
    rw [Stmt.ids]
    exact value.lambda_mem_ids hnode h

theorem stmts_lambda_mem_ids {env : Env} (hnode : node ∈ lam.ids) :
    ∀ ss : List Stmt, .lambda lam ∈ stmtsSites env ss → node ∈ stmtIds ss
  | [], h => by simp [stmtsSites] at h
  | s :: rest, h => by
    rw [stmtsSites, List.mem_append] at h
    rw [stmtIds, List.mem_append]
    exact h.imp (s.lambda_mem_ids hnode) (stmts_lambda_mem_ids hnode rest)

theorem inits_lambda_mem_ids {env : Env} (hnode : node ∈ lam.ids) :
    ∀ is : List Init, .lambda lam ∈ initsSites env is → node ∈ initIds is
  | [], h => by simp [initsSites] at h
  | i :: rest, h => by
    rw [initsSites, List.mem_append] at h
    rw [initIds, List.mem_append]
    exact h.imp (i.lambda_mem_ids hnode) (inits_lambda_mem_ids hnode rest)

theorem arms_lambda_mem_ids {env : Env} (hnode : node ∈ lam.ids) :
    ∀ arms : List (Expr × Block), .lambda lam ∈ armsSites env arms → node ∈ armIds arms
  | [], h => by simp [armsSites] at h
  | (condition, block) :: rest, h => by
    simp only [armsSites, List.mem_append, List.mem_cons, reduceCtorEq, false_or] at h
    simp only [armIds, List.mem_append]
    exact h.imp (Or.imp (condition.lambda_mem_ids hnode) (block.lambda_mem_ids hnode))
      (arms_lambda_mem_ids hnode rest)

theorem valueArms_lambda_mem_ids {env : Env} (hnode : node ∈ lam.ids) :
    ∀ arms : List (List Expr × Block), .lambda lam ∈ valueArmsSites env arms →
      node ∈ valueArmIds arms
  | [], h => by simp [valueArmsSites] at h
  | (values, block) :: rest, h => by
    simp only [valueArmsSites, List.mem_append] at h
    simp only [valueArmIds, List.mem_append]
    exact h.imp (Or.imp (exprs_lambda_mem_ids hnode values) (block.lambda_mem_ids hnode))
      (valueArms_lambda_mem_ids hnode rest)

end

end Frontend
