import Frontend.Proofs.Tree.Copied
import Frontend.Proofs.Tree.Induction

/-!
# Trees without ids

`unnumbered` takes the ids from the nodes of a tree and leaves all else in place: the constructs,
names, literals, operators, marks of targets, spans and annotations. A copy has its own ids, but
without ids it is the tree that it was made from, at every depth (`FuncDef.copy_unnumbered`).
-/

namespace Frontend

/-- A location without the id. -/
def NodeInfo.unnumbered (info : NodeInfo) : NodeInfo := { info with id := 0 }

mutual

/-- A type annotation without ids. -/
def TypeExpr.unnumbered : TypeExpr → TypeExpr
  | .primary info name args => .primary info.unnumbered name (unnumberedTypes args)
  | .array info elem => .array info.unnumbered elem.unnumbered
  | .dict info key value => .dict info.unnumbered key.unnumbered value.unnumbered
  | .tuple info elems => .tuple info.unnumbered (unnumberedTypes elems)
  | .func info kind params none => .func info.unnumbered kind (unnumberedTypes params) none
  | .func info kind params (some ret) =>
    .func info.unnumbered kind (unnumberedTypes params) (some ret.unnumbered)
  | .qualified info qualifier inner => .qualified info.unnumbered qualifier inner.unnumbered

/-- Type annotations without ids. -/
def unnumberedTypes : List TypeExpr → List TypeExpr
  | [] => []
  | t :: rest => t.unnumbered :: unnumberedTypes rest

end

/-- A parameter without ids. -/
def Param.unnumbered (p : Param) : Param :=
  { p with info := p.info.unnumbered, type := p.type.map TypeExpr.unnumbered }

/-- A declared name without ids. -/
def VarDecl.unnumbered (d : VarDecl) : VarDecl :=
  { d with info := d.info.unnumbered, type := d.type.map TypeExpr.unnumbered }

mutual

/-- An expression without ids. -/
def Expr.unnumbered : Expr → Expr
  | .literal info value => .literal info.unnumbered value
  | .array info elems => .array info.unnumbered (unnumberedExprs elems)
  | .tuple info elems => .tuple info.unnumbered (unnumberedExprs elems)
  | .dict info entries => .dict info.unnumbered (unnumberedEntries entries)
  | .varRef info name assigned => .varRef info.unnumbered name assigned
  | .member info receiver name => .member info.unnumbered receiver.unnumbered name
  | .index info receiver index => .index info.unnumbered receiver.unnumbered index.unnumbered
  | .call info callee args => .call info.unnumbered callee.unnumbered (unnumberedExprs args)
  | .unary info op operand => .unary info.unnumbered op operand.unnumbered
  | .binary info op lhs rhs => .binary info.unnumbered op lhs.unnumbered rhs.unnumbered
  | .cast info value type => .cast info.unnumbered value.unnumbered type.unnumbered
  | .typed info value type => .typed info.unnumbered value.unnumbered type.unnumbered
  | .ifElse info kind condition thenValue elseValue =>
    .ifElse info.unnumbered kind condition.unnumbered thenValue.unnumbered elseValue.unnumbered
  | .range info first last inclusive =>
    .range info.unnumbered first.unnumbered last.unnumbered inclusive
  | .lambda info d => .lambda info.unnumbered d.unnumbered

/-- Expressions without ids. -/
def unnumberedExprs : List Expr → List Expr
  | [] => []
  | e :: rest => e.unnumbered :: unnumberedExprs rest

/-- Entries of a dictionary without ids. -/
def unnumberedEntries : List (Expr × Expr) → List (Expr × Expr)
  | [] => []
  | (key, value) :: rest => (key.unnumbered, value.unnumbered) :: unnumberedEntries rest

/-- A function without ids. The name of a lambda stays. -/
def FuncDef.unnumbered : FuncDef → FuncDef
  | ⟨info, kind, name, params, returnType, body, ensureBody⟩ =>
    ⟨info.unnumbered, kind, name, params.map Param.unnumbered,
      returnType.map TypeExpr.unnumbered, body.unnumbered, unnumberedBlock ensureBody⟩

/-- A block without ids. -/
def Block.unnumbered : Block → Block
  | ⟨info, stmts⟩ => ⟨info.unnumbered, unnumberedStmts stmts⟩

/-- An optional block without ids. -/
def unnumberedBlock : Option Block → Option Block
  | none => none
  | some b => some b.unnumbered

/-- An initialize statement without ids. -/
def Init.unnumbered : Init → Init
  | ⟨info, decls, values⟩ =>
    ⟨info.unnumbered, decls.map VarDecl.unnumbered, unnumberedExprs values⟩

/-- A statement without ids. -/
def Stmt.unnumbered : Stmt → Stmt
  | .init init => .init init.unnumbered
  | .assign info targets op values =>
    .assign info.unnumbered (unnumberedExprs targets) op (unnumberedExprs values)
  | .ifElse info kind condition thenBlock elseifs elseBlock =>
    .ifElse info.unnumbered kind condition.unnumbered thenBlock.unnumbered
      (unnumberedArms elseifs) (unnumberedBlock elseBlock)
  | .ret info values => .ret info.unnumbered (unnumberedExprs values)
  | .case info whens elseBlock =>
    .case info.unnumbered (unnumberedArms whens) (unnumberedBlock elseBlock)
  | .switch info target whens elseBlock =>
    .switch info.unnumbered target.unnumbered (unnumberedValueArms whens)
      (unnumberedBlock elseBlock)
  | .forIn info vars range body =>
    .forIn info.unnumbered (vars.map Param.unnumbered) range.unnumbered body.unnumbered
  | .whileDo info condition body =>
    .whileDo info.unnumbered condition.unnumbered body.unnumbered
  | .guarded info body kind condition =>
    .guarded info.unnumbered body.unnumbered kind condition.unnumbered
  | .letIn info inits child =>
    .letIn info.unnumbered (unnumberedInits inits) child.unnumbered
  | .expr value => .expr value.unnumbered

/-- Statements without ids. -/
def unnumberedStmts : List Stmt → List Stmt
  | [] => []
  | s :: rest => s.unnumbered :: unnumberedStmts rest

/-- Initialize statements without ids. -/
def unnumberedInits : List Init → List Init
  | [] => []
  | init :: rest => init.unnumbered :: unnumberedInits rest

/-- Conditions and the blocks they guard, without ids. -/
def unnumberedArms : List (Expr × Block) → List (Expr × Block)
  | [] => []
  | (condition, block) :: rest => (condition.unnumbered, block.unnumbered) :: unnumberedArms rest

/-- Values and the blocks that are run for them, without ids. -/
def unnumberedValueArms : List (List Expr × Block) → List (List Expr × Block)
  | [] => []
  | (values, block) :: rest =>
    (unnumberedExprs values, block.unnumbered) :: unnumberedValueArms rest

end

/-! ### Type annotations and declarations -/

theorem NodeInfo.renew_unnumbered (info : NodeInfo) :
    Builds info.renew fun info' => info'.unnumbered = info.unnumbered :=
  fun _ => .renew rfl

mutual

theorem TypeExpr.copy_unnumbered :
    ∀ t : TypeExpr, Builds t.copy fun t' => t'.unnumbered = t.unnumbered
  | .primary info name args => by
    rw [TypeExpr.copy]
    refine .bind (copyAll_unnumbered args) fun args' hargs => ?_
    refine .bind info.renew_unnumbered fun info' hinfo => .pure ?_
    simp only [TypeExpr.unnumbered, hargs, hinfo]
  | .array info elem => by
    rw [TypeExpr.copy]
    refine .bind elem.copy_unnumbered fun elem' helem => ?_
    refine .bind info.renew_unnumbered fun info' hinfo => .pure ?_
    simp only [TypeExpr.unnumbered, helem, hinfo]
  | .dict info key value => by
    rw [TypeExpr.copy]
    refine .bind key.copy_unnumbered fun key' hkey => ?_
    refine .bind value.copy_unnumbered fun value' hvalue => ?_
    refine .bind info.renew_unnumbered fun info' hinfo => .pure ?_
    simp only [TypeExpr.unnumbered, hkey, hvalue, hinfo]
  | .tuple info elems => by
    rw [TypeExpr.copy]
    refine .bind (copyAll_unnumbered elems) fun elems' helems => ?_
    refine .bind info.renew_unnumbered fun info' hinfo => .pure ?_
    simp only [TypeExpr.unnumbered, helems, hinfo]
  | .func info kind params none => by
    rw [TypeExpr.copy]
    refine .bind (copyAll_unnumbered params) fun params' hparams => ?_
    refine .bind info.renew_unnumbered fun info' hinfo => .pure ?_
    simp only [TypeExpr.unnumbered, hparams, hinfo]
  | .func info kind params (some ret) => by
    rw [TypeExpr.copy]
    refine .bind (copyAll_unnumbered params) fun params' hparams => ?_
    refine .bind ret.copy_unnumbered fun ret' hret => ?_
    refine .bind info.renew_unnumbered fun info' hinfo => .pure ?_
    simp only [TypeExpr.unnumbered, hparams, hret, hinfo]
  | .qualified info qualifier inner => by
    rw [TypeExpr.copy]
    refine .bind inner.copy_unnumbered fun inner' hinner => ?_
    refine .bind info.renew_unnumbered fun info' hinfo => .pure ?_
    simp only [TypeExpr.unnumbered, hinner, hinfo]

theorem copyAll_unnumbered : ∀ ts : List TypeExpr,
    Builds (TypeExpr.copyAll ts) fun ts' => unnumberedTypes ts' = unnumberedTypes ts
  | [] => by
    rw [TypeExpr.copyAll]
    exact .pure rfl
  | t :: rest => by
    rw [TypeExpr.copyAll]
    refine .bind t.copy_unnumbered fun t' ht => ?_
    refine .bind (copyAll_unnumbered rest) fun rest' hrest => .pure ?_
    simp only [unnumberedTypes, ht, hrest]

end

theorem TypeExpr.copyOption_unnumbered (t : Option TypeExpr) : Builds (TypeExpr.copyOption t)
    fun t' => t'.map TypeExpr.unnumbered = t.map TypeExpr.unnumbered := by
  cases t with
  | none => exact .pure rfl
  | some t => exact .bind t.copy_unnumbered fun _ ht => .pure (congrArg some ht)

theorem Param.copy_unnumbered (p : Param) :
    Builds p.copy fun p' => p'.unnumbered = p.unnumbered := by
  refine .bind p.info.renew_unnumbered fun info' hinfo => ?_
  refine .bind (TypeExpr.copyOption_unnumbered p.type) fun type' htype => .pure ?_
  simp only [Param.unnumbered, hinfo, htype]

theorem VarDecl.copy_unnumbered (d : VarDecl) :
    Builds d.copy fun d' => d'.unnumbered = d.unnumbered := by
  refine .bind d.info.renew_unnumbered fun info' hinfo => ?_
  refine .bind (TypeExpr.copyOption_unnumbered d.type) fun type' htype => .pure ?_
  simp only [VarDecl.unnumbered, hinfo, htype]

/-- Parts that are copied one after another. -/
theorem Builds.mapM_eq {α β : Type} {act : α → StateM Nat α} {look : α → β} (as : List α)
    (h : ∀ a, Builds (act a) fun a' => look a' = look a) :
    Builds (as.mapM act) fun as' => as'.map look = as.map look := by
  induction as with
  | nil =>
    rw [List.mapM_nil]
    exact .pure rfl
  | cons a rest ih =>
    rw [List.mapM_cons]
    refine .bind (h a) fun a' ha => .bind ih fun rest' hrest => .pure ?_
    rw [List.map_cons, List.map_cons, ha, hrest]

/-! ### Lists of parts -/

/-- The copy of an expression looks the same without ids. -/
abbrev Expr.CopiesAlike (e : Expr) : Prop := Builds e.copy fun e' => e'.unnumbered = e.unnumbered

/-- The copy of a block looks the same without ids. -/
abbrev Block.CopiesAlike (b : Block) : Prop := Builds b.copy fun b' => b'.unnumbered = b.unnumbered

/-- The copy of an initialize statement looks the same without ids. -/
abbrev Init.CopiesAlike (i : Init) : Prop := Builds i.copy fun i' => i'.unnumbered = i.unnumbered

/-- The copy of a statement looks the same without ids. -/
abbrev Stmt.CopiesAlike (s : Stmt) : Prop := Builds s.copy fun s' => s'.unnumbered = s.unnumbered

theorem copyExprs_unnumbered {es : List Expr} (h : ∀ e ∈ es, e.CopiesAlike) :
    Builds (copyExprs es) fun es' => unnumberedExprs es' = unnumberedExprs es := by
  induction es with
  | nil =>
    rw [copyExprs]
    exact .pure rfl
  | cons e rest ih =>
    rw [List.forall_mem_cons] at h
    rw [copyExprs]
    refine .bind h.1 fun e' he => .bind (ih h.2) fun rest' hrest => .pure ?_
    simp only [unnumberedExprs, he, hrest]

theorem copyEntries_unnumbered {es : List (Expr × Expr)}
    (h : ∀ e ∈ es, e.1.CopiesAlike ∧ e.2.CopiesAlike) :
    Builds (copyEntries es) fun es' => unnumberedEntries es' = unnumberedEntries es := by
  induction es with
  | nil =>
    rw [copyEntries]
    exact .pure rfl
  | cons e rest ih =>
    rw [List.forall_mem_cons] at h
    rw [copyEntries]
    refine .bind h.1.1 fun key' hkey => .bind h.1.2 fun value' hvalue => ?_
    refine .bind (ih h.2) fun rest' hrest => .pure ?_
    simp only [unnumberedEntries, hkey, hvalue, hrest]

theorem copyStmts_unnumbered {ss : List Stmt} (h : ∀ s ∈ ss, s.CopiesAlike) :
    Builds (copyStmts ss) fun ss' => unnumberedStmts ss' = unnumberedStmts ss := by
  induction ss with
  | nil =>
    rw [copyStmts]
    exact .pure rfl
  | cons s rest ih =>
    rw [List.forall_mem_cons] at h
    rw [copyStmts]
    refine .bind h.1 fun s' hs => .bind (ih h.2) fun rest' hrest => .pure ?_
    simp only [unnumberedStmts, hs, hrest]

theorem copyInits_unnumbered {is : List Init} (h : ∀ i ∈ is, i.CopiesAlike) :
    Builds (copyInits is) fun is' => unnumberedInits is' = unnumberedInits is := by
  induction is with
  | nil =>
    rw [copyInits]
    exact .pure rfl
  | cons i rest ih =>
    rw [List.forall_mem_cons] at h
    rw [copyInits]
    refine .bind h.1 fun i' hi => .bind (ih h.2) fun rest' hrest => .pure ?_
    simp only [unnumberedInits, hi, hrest]

theorem copyArms_unnumbered {arms : List (Expr × Block)}
    (h : ∀ a ∈ arms, a.1.CopiesAlike ∧ a.2.CopiesAlike) :
    Builds (copyArms arms) fun arms' => unnumberedArms arms' = unnumberedArms arms := by
  induction arms with
  | nil =>
    rw [copyArms]
    exact .pure rfl
  | cons a rest ih =>
    rw [List.forall_mem_cons] at h
    rw [copyArms]
    refine .bind h.1.1 fun condition' hcondition => .bind h.1.2 fun block' hblock => ?_
    refine .bind (ih h.2) fun rest' hrest => .pure ?_
    simp only [unnumberedArms, hcondition, hblock, hrest]

theorem copyValueArms_unnumbered {arms : List (List Expr × Block)}
    (h : ∀ a ∈ arms, (∀ e ∈ a.1, e.CopiesAlike) ∧ a.2.CopiesAlike) :
    Builds (copyValueArms arms)
      fun arms' => unnumberedValueArms arms' = unnumberedValueArms arms := by
  induction arms with
  | nil =>
    rw [copyValueArms]
    exact .pure rfl
  | cons a rest ih =>
    rw [List.forall_mem_cons] at h
    rw [copyValueArms]
    refine .bind (copyExprs_unnumbered h.1.1) fun values' hvalues => ?_
    refine .bind h.1.2 fun block' hblock => .bind (ih h.2) fun rest' hrest => .pure ?_
    simp only [unnumberedValueArms, hvalues, hblock, hrest]

theorem Block.copiesAlike (info : NodeInfo) {stmts : List Stmt} (h : ∀ s ∈ stmts, s.CopiesAlike) :
    Block.CopiesAlike ⟨info, stmts⟩ := by
  rw [Block.CopiesAlike, Block.copy]
  refine .bind info.renew_unnumbered fun info' hinfo => ?_
  refine .bind (copyStmts_unnumbered h) fun stmts' hstmts => .pure ?_
  simp only [Block.unnumbered, hinfo, hstmts]

/-! ### All trees -/

/-- The copy of a tree looks the same without ids, whatever the construct. -/
theorem copiesAlike : TreeInduction Expr.CopiesAlike
    (fun d => Builds d.copy fun d' => d'.unnumbered = d.unnumbered) Block.CopiesAlike
    Init.CopiesAlike Stmt.CopiesAlike where
  literal info value := by
    rw [Expr.CopiesAlike, Expr.copy]
    refine .bind info.renew_unnumbered fun info' hinfo => .pure ?_
    simp only [Expr.unnumbered, hinfo]
  array info elems ih := by
    rw [Expr.CopiesAlike, Expr.copy]
    refine .bind (copyExprs_unnumbered ih) fun elems' helems => ?_
    refine .bind info.renew_unnumbered fun info' hinfo => .pure ?_
    simp only [Expr.unnumbered, helems, hinfo]
  tuple info elems ih := by
    rw [Expr.CopiesAlike, Expr.copy]
    refine .bind (copyExprs_unnumbered ih) fun elems' helems => ?_
    refine .bind info.renew_unnumbered fun info' hinfo => .pure ?_
    simp only [Expr.unnumbered, helems, hinfo]
  dict info entries ih := by
    rw [Expr.CopiesAlike, Expr.copy]
    refine .bind (copyEntries_unnumbered ih) fun entries' hentries => ?_
    refine .bind info.renew_unnumbered fun info' hinfo => .pure ?_
    simp only [Expr.unnumbered, hentries, hinfo]
  varRef info name assigned := by
    rw [Expr.CopiesAlike, Expr.copy]
    refine .bind info.renew_unnumbered fun info' hinfo => .pure ?_
    simp only [Expr.unnumbered, hinfo]
  member info receiver name ih := by
    rw [Expr.CopiesAlike, Expr.copy]
    refine .bind ih fun receiver' hreceiver => ?_
    refine .bind info.renew_unnumbered fun info' hinfo => .pure ?_
    simp only [Expr.unnumbered, hreceiver, hinfo]
  index info receiver index ihr ihi := by
    rw [Expr.CopiesAlike, Expr.copy]
    refine .bind ihr fun receiver' hreceiver => .bind ihi fun index' hindex => ?_
    refine .bind info.renew_unnumbered fun info' hinfo => .pure ?_
    simp only [Expr.unnumbered, hreceiver, hindex, hinfo]
  call info callee args ihc _ iha := by
    rw [Expr.CopiesAlike, Expr.copy]
    refine .bind ihc fun callee' hcallee => .bind (copyExprs_unnumbered iha) fun args' hargs => ?_
    refine .bind info.renew_unnumbered fun info' hinfo => .pure ?_
    simp only [Expr.unnumbered, hcallee, hargs, hinfo]
  unary info op operand ih := by
    rw [Expr.CopiesAlike, Expr.copy]
    refine .bind ih fun operand' hoperand => ?_
    refine .bind info.renew_unnumbered fun info' hinfo => .pure ?_
    simp only [Expr.unnumbered, hoperand, hinfo]
  binary info op lhs rhs ihl ihr := by
    rw [Expr.CopiesAlike, Expr.copy]
    refine .bind ihl fun lhs' hlhs => .bind ihr fun rhs' hrhs => ?_
    refine .bind info.renew_unnumbered fun info' hinfo => .pure ?_
    simp only [Expr.unnumbered, hlhs, hrhs, hinfo]
  cast info value type ih := by
    rw [Expr.CopiesAlike, Expr.copy]
    refine .bind ih fun value' hvalue => .bind type.copy_unnumbered fun type' htype => ?_
    refine .bind info.renew_unnumbered fun info' hinfo => .pure ?_
    simp only [Expr.unnumbered, hvalue, htype, hinfo]
  typed info value type ih := by
    rw [Expr.CopiesAlike, Expr.copy]
    refine .bind ih fun value' hvalue => .bind type.copy_unnumbered fun type' htype => ?_
    refine .bind info.renew_unnumbered fun info' hinfo => .pure ?_
    simp only [Expr.unnumbered, hvalue, htype, hinfo]
  ifElse info kind condition thenValue elseValue ihc iht ihe := by
    rw [Expr.CopiesAlike, Expr.copy]
    refine .bind ihc fun condition' hcondition => .bind iht fun then' hthen => ?_
    refine .bind ihe fun else' helse => ?_
    refine .bind info.renew_unnumbered fun info' hinfo => .pure ?_
    simp only [Expr.unnumbered, hcondition, hthen, helse, hinfo]
  range info first last inclusive ihf ihl := by
    rw [Expr.CopiesAlike, Expr.copy]
    refine .bind ihf fun first' hfirst => .bind ihl fun last' hlast => ?_
    refine .bind info.renew_unnumbered fun info' hinfo => .pure ?_
    simp only [Expr.unnumbered, hfirst, hlast, hinfo]
  lambda info d ih := by
    rw [Expr.CopiesAlike, Expr.copy]
    refine .bind ih fun d' hd => .bind info.renew_unnumbered fun info' hinfo => .pure ?_
    simp only [Expr.unnumbered, hd, hinfo]
  function info kind name params returnType body ensureBody ihb ihe := by
    rw [FuncDef.copy]
    refine .bind info.renew_unnumbered fun info' hinfo => ?_
    refine .bind (.mapM_eq params Param.copy_unnumbered) fun params' hparams => ?_
    refine .bind (TypeExpr.copyOption_unnumbered returnType) fun type' htype => ?_
    refine .bind ihb fun body' hbody => ?_
    cases ensureBody with
    | none =>
      refine .pure ?_
      simp only [FuncDef.unnumbered, unnumberedBlock, hinfo, hparams, htype, hbody]
    | some b =>
      refine .bind (ihe b rfl) fun b' hb => .pure ?_
      simp only [FuncDef.unnumbered, unnumberedBlock, hinfo, hparams, htype, hbody, hb]
  block info stmts ih := Block.copiesAlike info ih
  inits info decls values ih := by
    rw [Init.CopiesAlike, Init.copy]
    refine .bind info.renew_unnumbered fun info' hinfo => ?_
    refine .bind (.mapM_eq decls VarDecl.copy_unnumbered) fun decls' hdecls => ?_
    refine .bind (copyExprs_unnumbered ih) fun values' hvalues => .pure ?_
    simp only [Init.unnumbered, hinfo, hdecls, hvalues]
  init i ih := by
    rw [Stmt.CopiesAlike, Stmt.copy]
    refine .bind ih fun i' hi => .pure ?_
    simp only [Stmt.unnumbered, hi]
  assign info targets op values iht ihv := by
    rw [Stmt.CopiesAlike, Stmt.copy]
    refine .bind info.renew_unnumbered fun info' hinfo => ?_
    refine .bind (copyExprs_unnumbered iht) fun targets' htargets => ?_
    refine .bind (copyExprs_unnumbered ihv) fun values' hvalues => .pure ?_
    simp only [Stmt.unnumbered, hinfo, htargets, hvalues]
  conditional info kind condition thenBlock elseifs elseBlock ihc iht iha ihe := by
    rw [Stmt.CopiesAlike, Stmt.copy]
    refine .bind info.renew_unnumbered fun info' hinfo => .bind ihc fun condition' hcondition => ?_
    refine .bind iht fun then' hthen => .bind (copyArms_unnumbered iha) fun arms' harms => ?_
    cases elseBlock with
    | none =>
      refine .pure ?_
      simp only [Stmt.unnumbered, unnumberedBlock, hinfo, hcondition, hthen, harms]
    | some b =>
      refine .bind (ihe b rfl) fun b' hb => .pure ?_
      simp only [Stmt.unnumbered, unnumberedBlock, hinfo, hcondition, hthen, harms, hb]
  ret info values ih := by
    rw [Stmt.CopiesAlike, Stmt.copy]
    refine .bind info.renew_unnumbered fun info' hinfo => ?_
    refine .bind (copyExprs_unnumbered ih) fun values' hvalues => .pure ?_
    simp only [Stmt.unnumbered, hinfo, hvalues]
  case info whens elseBlock iha ihe := by
    rw [Stmt.CopiesAlike, Stmt.copy]
    refine .bind info.renew_unnumbered fun info' hinfo => ?_
    refine .bind (copyArms_unnumbered iha) fun whens' hwhens => ?_
    cases elseBlock with
    | none =>
      refine .pure ?_
      simp only [Stmt.unnumbered, unnumberedBlock, hinfo, hwhens]
    | some b =>
      refine .bind (ihe b rfl) fun b' hb => .pure ?_
      simp only [Stmt.unnumbered, unnumberedBlock, hinfo, hwhens, hb]
  switch info target whens elseBlock iht iha ihe := by
    rw [Stmt.CopiesAlike, Stmt.copy]
    refine .bind info.renew_unnumbered fun info' hinfo => .bind iht fun target' htarget => ?_
    refine .bind (copyValueArms_unnumbered iha) fun whens' hwhens => ?_
    cases elseBlock with
    | none =>
      refine .pure ?_
      simp only [Stmt.unnumbered, unnumberedBlock, hinfo, htarget, hwhens]
    | some b =>
      refine .bind (ihe b rfl) fun b' hb => .pure ?_
      simp only [Stmt.unnumbered, unnumberedBlock, hinfo, htarget, hwhens, hb]
  forIn info vars range bodyInfo stmts ihr ihb := by
    rw [Stmt.CopiesAlike, Stmt.copy]
    refine .bind info.renew_unnumbered fun info' hinfo => ?_
    refine .bind (.mapM_eq vars Param.copy_unnumbered) fun vars' hvars => ?_
    refine .bind ihr fun range' hrange => ?_
    refine .bind (Block.copiesAlike bodyInfo ihb) fun body' hbody => .pure ?_
    simp only [Stmt.unnumbered, hinfo, hvars, hrange, hbody]
  whileDo info condition body ihc ihb := by
    rw [Stmt.CopiesAlike, Stmt.copy]
    refine .bind info.renew_unnumbered fun info' hinfo => .bind ihc fun condition' hcondition => ?_
    refine .bind ihb fun body' hbody => .pure ?_
    simp only [Stmt.unnumbered, hinfo, hcondition, hbody]
  guarded info body kind condition ihb ihc := by
    rw [Stmt.CopiesAlike, Stmt.copy]
    refine .bind info.renew_unnumbered fun info' hinfo => .bind ihb fun body' hbody => ?_
    refine .bind ihc fun condition' hcondition => .pure ?_
    simp only [Stmt.unnumbered, hinfo, hbody, hcondition]
  letIn info inits child ihi ihc := by
    rw [Stmt.CopiesAlike, Stmt.copy]
    refine .bind info.renew_unnumbered fun info' hinfo => ?_
    refine .bind (copyInits_unnumbered ihi) fun inits' hinits => .bind ihc fun child' hchild => ?_
    refine .pure ?_
    simp only [Stmt.unnumbered, hinfo, hinits, hchild]
  expr value ih := by
    rw [Stmt.CopiesAlike, Stmt.copy]
    refine .bind ih fun value' hvalue => .pure ?_
    simp only [Stmt.unnumbered, hvalue]

/-- The copy of a function is the function but for the ids. -/
theorem FuncDef.copy_unnumbered (d : FuncDef) (n : Nat) :
    (d.copy.run n).1.unnumbered = d.unnumbered := copiesAlike.onFunctions d n

end Frontend
