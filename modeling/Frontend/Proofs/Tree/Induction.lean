import Frontend.Tree.Basic

/-!
# Induction on trees

What holds of every node if it holds of a node whenever it holds of its parts. Parts that stand in a
list are given by membership; the receiver of a member access in the place of the function in a call
is given beside the access.
-/

namespace Frontend

/-- One case for each construct. -/
structure TreeInduction (onExpr : Expr → Prop) (onFunction : FuncDef → Prop)
    (onBlock : Block → Prop) (onInit : Init → Prop) (onStmt : Stmt → Prop) : Prop where
  literal : ∀ info value, onExpr (.literal info value)
  array : ∀ info elems, (∀ e ∈ elems, onExpr e) → onExpr (.array info elems)
  tuple : ∀ info elems, (∀ e ∈ elems, onExpr e) → onExpr (.tuple info elems)
  dict : ∀ info entries, (∀ e ∈ entries, onExpr e.1 ∧ onExpr e.2) → onExpr (.dict info entries)
  varRef : ∀ info name assigned, onExpr (.varRef info name assigned)
  member : ∀ info receiver name, onExpr receiver → onExpr (.member info receiver name)
  index : ∀ info receiver index, onExpr receiver → onExpr index →
    onExpr (.index info receiver index)
  call : ∀ info callee args, onExpr callee →
    (∀ {calleeInfo receiver name}, callee = .member calleeInfo receiver name → onExpr receiver) →
      (∀ e ∈ args, onExpr e) → onExpr (.call info callee args)
  unary : ∀ info op operand, onExpr operand → onExpr (.unary info op operand)
  binary : ∀ info op lhs rhs, onExpr lhs → onExpr rhs → onExpr (.binary info op lhs rhs)
  cast : ∀ info value type, onExpr value → onExpr (.cast info value type)
  typed : ∀ info value type, onExpr value → onExpr (.typed info value type)
  ifElse : ∀ info kind condition thenValue elseValue, onExpr condition → onExpr thenValue →
    onExpr elseValue → onExpr (.ifElse info kind condition thenValue elseValue)
  range : ∀ info first last inclusive, onExpr first → onExpr last →
    onExpr (.range info first last inclusive)
  lambda : ∀ info d, onFunction d → onExpr (.lambda info d)
  function : ∀ info kind name params returnType body ensureBody, onBlock body →
    (∀ b ∈ ensureBody, onBlock b) →
      onFunction ⟨info, kind, name, params, returnType, body, ensureBody⟩
  block : ∀ info stmts, (∀ s ∈ stmts, onStmt s) → onBlock ⟨info, stmts⟩
  inits : ∀ info decls values, (∀ e ∈ values, onExpr e) → onInit ⟨info, decls, values⟩
  init : ∀ i, onInit i → onStmt (.init i)
  assign : ∀ info targets op values, (∀ e ∈ targets, onExpr e) → (∀ e ∈ values, onExpr e) →
    onStmt (.assign info targets op values)
  conditional : ∀ info kind condition thenBlock elseifs elseBlock, onExpr condition →
    onBlock thenBlock → (∀ a ∈ elseifs, onExpr a.1 ∧ onBlock a.2) → (∀ b ∈ elseBlock, onBlock b) →
      onStmt (.ifElse info kind condition thenBlock elseifs elseBlock)
  ret : ∀ info values, (∀ e ∈ values, onExpr e) → onStmt (.ret info values)
  case : ∀ info whens elseBlock, (∀ a ∈ whens, onExpr a.1 ∧ onBlock a.2) →
    (∀ b ∈ elseBlock, onBlock b) → onStmt (.case info whens elseBlock)
  switch : ∀ info target whens elseBlock, onExpr target →
    (∀ a ∈ whens, (∀ e ∈ a.1, onExpr e) ∧ onBlock a.2) → (∀ b ∈ elseBlock, onBlock b) →
      onStmt (.switch info target whens elseBlock)
  forIn : ∀ info vars range bodyInfo stmts, onExpr range → (∀ s ∈ stmts, onStmt s) →
    onStmt (.forIn info vars range ⟨bodyInfo, stmts⟩)
  whileDo : ∀ info condition body, onExpr condition → onBlock body →
    onStmt (.whileDo info condition body)
  guarded : ∀ info body kind condition, onStmt body → onExpr condition →
    onStmt (.guarded info body kind condition)
  letIn : ∀ info inits child, (∀ i ∈ inits, onInit i) → onStmt child →
    onStmt (.letIn info inits child)
  expr : ∀ value, onExpr value → onStmt (.expr value)

namespace TreeInduction

variable {onExpr : Expr → Prop} {onFunction : FuncDef → Prop} {onBlock : Block → Prop}
  {onInit : Init → Prop} {onStmt : Stmt → Prop}

mutual

private theorem ofExpr (h : TreeInduction onExpr onFunction onBlock onInit onStmt) :
    (e : Expr) → onExpr e ∧ ∀ {info receiver name}, e = .member info receiver name → onExpr receiver
  | .literal info value => ⟨h.literal info value, nofun⟩
  | .array info elems => ⟨h.array info elems (ofExprs h elems), nofun⟩
  | .tuple info elems => ⟨h.tuple info elems (ofExprs h elems), nofun⟩
  | .dict info entries => ⟨h.dict info entries (ofEntries h entries), nofun⟩
  | .varRef info name assigned => ⟨h.varRef info name assigned, nofun⟩
  | .member info receiver name => by
    refine ⟨h.member info receiver name (ofExpr h receiver).1, ?_⟩
    rintro _ _ _ ⟨⟩
    exact (ofExpr h receiver).1
  | .index info receiver index =>
    ⟨h.index info receiver index (ofExpr h receiver).1 (ofExpr h index).1, nofun⟩
  | .call info callee args =>
    ⟨h.call info callee args (ofExpr h callee).1 (ofExpr h callee).2 (ofExprs h args), nofun⟩
  | .unary info op operand => ⟨h.unary info op operand (ofExpr h operand).1, nofun⟩
  | .binary info op lhs rhs => ⟨h.binary info op lhs rhs (ofExpr h lhs).1 (ofExpr h rhs).1, nofun⟩
  | .cast info value type => ⟨h.cast info value type (ofExpr h value).1, nofun⟩
  | .typed info value type => ⟨h.typed info value type (ofExpr h value).1, nofun⟩
  | .ifElse info kind condition thenValue elseValue =>
    ⟨h.ifElse info kind condition thenValue elseValue (ofExpr h condition).1 (ofExpr h thenValue).1
      (ofExpr h elseValue).1, nofun⟩
  | .range info first last inclusive =>
    ⟨h.range info first last inclusive (ofExpr h first).1 (ofExpr h last).1, nofun⟩
  | .lambda info d => ⟨h.lambda info d (ofFunction h d), nofun⟩

private theorem ofExprs (h : TreeInduction onExpr onFunction onBlock onInit onStmt) :
    (es : List Expr) → ∀ e ∈ es, onExpr e
  | [] => List.forall_mem_nil _
  | e :: rest => List.forall_mem_cons.mpr ⟨(ofExpr h e).1, ofExprs h rest⟩

private theorem ofEntries (h : TreeInduction onExpr onFunction onBlock onInit onStmt) :
    (es : List (Expr × Expr)) → ∀ e ∈ es, onExpr e.1 ∧ onExpr e.2
  | [] => List.forall_mem_nil _
  | (key, value) :: rest =>
    List.forall_mem_cons.mpr ⟨⟨(ofExpr h key).1, (ofExpr h value).1⟩, ofEntries h rest⟩

private theorem ofFunction (h : TreeInduction onExpr onFunction onBlock onInit onStmt) :
    (d : FuncDef) → onFunction d
  | ⟨info, kind, name, params, returnType, body, ensureBody⟩ =>
    h.function info kind name params returnType body ensureBody (ofBlock h body)
      (ofOptional h ensureBody)

private theorem ofBlock (h : TreeInduction onExpr onFunction onBlock onInit onStmt) :
    (b : Block) → onBlock b
  | ⟨info, stmts⟩ => h.block info stmts (ofStmts h stmts)

private theorem ofOptional (h : TreeInduction onExpr onFunction onBlock onInit onStmt) :
    (b : Option Block) → ∀ b' ∈ b, onBlock b'
  | none => nofun
  | some b => by
    rintro _ ⟨⟩
    exact ofBlock h b

private theorem ofInit (h : TreeInduction onExpr onFunction onBlock onInit onStmt) :
    (i : Init) → onInit i
  | ⟨info, decls, values⟩ => h.inits info decls values (ofExprs h values)

private theorem ofStmt (h : TreeInduction onExpr onFunction onBlock onInit onStmt) :
    (s : Stmt) → onStmt s
  | .init i => h.init i (ofInit h i)
  | .assign info targets op values =>
    h.assign info targets op values (ofExprs h targets) (ofExprs h values)
  | .ifElse info kind condition thenBlock elseifs elseBlock =>
    h.conditional info kind condition thenBlock elseifs elseBlock (ofExpr h condition).1
      (ofBlock h thenBlock) (ofArms h elseifs) (ofOptional h elseBlock)
  | .ret info values => h.ret info values (ofExprs h values)
  | .case info whens elseBlock =>
    h.case info whens elseBlock (ofArms h whens) (ofOptional h elseBlock)
  | .switch info target whens elseBlock =>
    h.switch info target whens elseBlock (ofExpr h target).1 (ofValueArms h whens)
      (ofOptional h elseBlock)
  | .forIn info vars range ⟨bodyInfo, stmts⟩ =>
    h.forIn info vars range bodyInfo stmts (ofExpr h range).1 (ofStmts h stmts)
  | .whileDo info condition body =>
    h.whileDo info condition body (ofExpr h condition).1 (ofBlock h body)
  | .guarded info body kind condition =>
    h.guarded info body kind condition (ofStmt h body) (ofExpr h condition).1
  | .letIn info inits child => h.letIn info inits child (ofInits h inits) (ofStmt h child)
  | .expr value => h.expr value (ofExpr h value).1

private theorem ofStmts (h : TreeInduction onExpr onFunction onBlock onInit onStmt) :
    (ss : List Stmt) → ∀ s ∈ ss, onStmt s
  | [] => List.forall_mem_nil _
  | s :: rest => List.forall_mem_cons.mpr ⟨ofStmt h s, ofStmts h rest⟩

private theorem ofInits (h : TreeInduction onExpr onFunction onBlock onInit onStmt) :
    (is : List Init) → ∀ i ∈ is, onInit i
  | [] => List.forall_mem_nil _
  | i :: rest => List.forall_mem_cons.mpr ⟨ofInit h i, ofInits h rest⟩

private theorem ofArms (h : TreeInduction onExpr onFunction onBlock onInit onStmt) :
    (arms : List (Expr × Block)) → ∀ a ∈ arms, onExpr a.1 ∧ onBlock a.2
  | [] => List.forall_mem_nil _
  | (condition, body) :: rest =>
    List.forall_mem_cons.mpr ⟨⟨(ofExpr h condition).1, ofBlock h body⟩, ofArms h rest⟩

private theorem ofValueArms (h : TreeInduction onExpr onFunction onBlock onInit onStmt) :
    (arms : List (List Expr × Block)) → ∀ a ∈ arms, (∀ e ∈ a.1, onExpr e) ∧ onBlock a.2
  | [] => List.forall_mem_nil _
  | (values, body) :: rest =>
    List.forall_mem_cons.mpr ⟨⟨ofExprs h values, ofBlock h body⟩, ofValueArms h rest⟩

end

theorem onExprs (h : TreeInduction onExpr onFunction onBlock onInit onStmt) (e : Expr) :
    onExpr e := (ofExpr h e).1

theorem onFunctions (h : TreeInduction onExpr onFunction onBlock onInit onStmt) (d : FuncDef) :
    onFunction d := ofFunction h d

end TreeInduction

end Frontend
