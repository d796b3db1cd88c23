import Frontend.Proofs.Tree.Fresh
import Frontend.Proofs.Tree.Regular

/-!
# Copies of regular trees

A copy stands where the original stands, node by node, and only its ids are others. So the copy of
a regular function is regular, as far as the ids behind those given out may be had.
-/

namespace Frontend

/-- Whatever the next id is, what an action builds is as promised. -/
def Builds {α : Type} (act : StateM Nat α) (good : α → Prop) : Prop :=
  ∀ n, Minting act n fun a _ => good a

namespace Builds

variable {α β : Type} {act : StateM Nat α} {good : α → Prop}

theorem pure {a : α} (h : good a) : Builds (pure a) good := fun _ => .pure h

theorem bind {f : α → StateM Nat β} {good' : β → Prop} (h : Builds act good)
    (hf : ∀ a, good a → Builds (f a) good') : Builds (act >>= f) good' :=
  fun n => .bind ((h n).imp fun a m ha => hf a ha m)

theorem mapM {f : β → StateM Nat α} {bs : List β} (h : ∀ b ∈ bs, Builds (f b) good) :
    Builds (bs.mapM f) fun as => ∀ a ∈ as, good a := by
  induction bs with
  | nil =>
    rw [List.mapM_nil]
    exact .pure (List.forall_mem_nil _)
  | cons b rest ih =>
    rw [List.forall_mem_cons] at h
    rw [List.mapM_cons]
    refine .bind h.1 fun a ha => ?_
    refine .bind (ih h.2) fun as has => ?_
    exact .pure (List.forall_mem_cons.mpr ⟨ha, has⟩)

end Builds

/-- The same places, with any id and any role. -/
abbrev Ground.anyId (g : Ground) : Ground := g.onto (fun _ => True) fun _ _ => True

variable {g : Ground}

theorem NodeInfo.On.renew {info : NodeInfo} (h : info.On g) :
    Builds info.renew fun info' => info'.On g.anyId :=
  fun _ => .renew ⟨h.place, trivial⟩

/-! ### Type annotations, parameters and declarations -/

mutual

theorem TypeExpr.Regular.copy : ∀ {t : TypeExpr}, t.Regular g →
    Builds t.copy fun t' => t'.Regular g.anyId
  | .primary info name args, h => by
    rw [TypeExpr.copy]
    rw [TypeExpr.Regular] at h
    refine .bind (typesRegular_copy h.2) fun args' hargs => ?_
    refine .bind h.1.renew fun info' hinfo => ?_
    apply Builds.pure
    simp only [TypeExpr.Regular]
    exact ⟨hinfo, hargs.1⟩
  | .array info elem, h => by
    rw [TypeExpr.copy]
    rw [TypeExpr.Regular] at h
    refine .bind h.2.copy fun elem' helem => ?_
    refine .bind h.1.renew fun info' hinfo => ?_
    apply Builds.pure
    simp only [TypeExpr.Regular]
    exact ⟨hinfo, helem⟩
  | .dict info key value, h => by
    rw [TypeExpr.copy]
    rw [TypeExpr.Regular] at h
    refine .bind h.2.1.copy fun key' hkey => ?_
    refine .bind h.2.2.copy fun value' hvalue => ?_
    refine .bind h.1.renew fun info' hinfo => ?_
    apply Builds.pure
    simp only [TypeExpr.Regular]
    exact ⟨hinfo, hkey, hvalue⟩
  | .tuple info elems, h => by
    rw [TypeExpr.copy]
    rw [TypeExpr.Regular] at h
    refine .bind (typesRegular_copy h.2.2) fun elems' helems => ?_
    refine .bind h.1.renew fun info' hinfo => ?_
    apply Builds.pure
    simp only [TypeExpr.Regular, helems.2]
    exact ⟨hinfo, h.2.1, helems.1⟩
  | .func info kind params none, h => by
    rw [TypeExpr.copy]
    rw [TypeExpr.Regular] at h
    refine .bind (typesRegular_copy h.2) fun params' hparams => ?_
    refine .bind h.1.renew fun info' hinfo => ?_
    apply Builds.pure
    simp only [TypeExpr.Regular]
    exact ⟨hinfo, hparams.1⟩
  | .func info kind params (some ret), h => by
    rw [TypeExpr.copy]
    rw [TypeExpr.Regular] at h
    refine .bind (typesRegular_copy h.2.1) fun params' hparams => ?_
    refine .bind h.2.2.copy fun ret' hret => ?_
    refine .bind h.1.renew fun info' hinfo => ?_
    apply Builds.pure
    simp only [TypeExpr.Regular]
    exact ⟨hinfo, hparams.1, hret⟩
  | .qualified info qualifier inner, h => by
    rw [TypeExpr.copy]
    rw [TypeExpr.Regular] at h
    refine .bind h.2.copy fun inner' hinner => ?_
    refine .bind h.1.renew fun info' hinfo => ?_
    apply Builds.pure
    simp only [TypeExpr.Regular]
    exact ⟨hinfo, hinner⟩

theorem typesRegular_copy : ∀ {ts : List TypeExpr}, typesRegular g ts →
    Builds (TypeExpr.copyAll ts) fun ts' => typesRegular g.anyId ts' ∧ ts'.length = ts.length
  | [], _ => by
    rw [TypeExpr.copyAll]
    exact .pure (by simp only [typesRegular, and_self])
  | t :: rest, h => by
    rw [TypeExpr.copyAll]
    rw [typesRegular] at h
    refine .bind h.1.copy fun t' ht => ?_
    refine .bind (typesRegular_copy h.2) fun rest' hrest => ?_
    apply Builds.pure
    simp only [typesRegular]
    exact ⟨⟨ht, hrest.1⟩, congrArg Nat.succ hrest.2⟩

end

theorem optionRegular_copy {t : Option TypeExpr} (h : ∀ t' ∈ t, t'.Regular g) :
    Builds (TypeExpr.copyOption t) fun copy => ∀ t' ∈ copy, t'.Regular g.anyId := by
  cases t with
  | none => exact .pure nofun
  | some t =>
    refine .bind (h t rfl).copy fun t' ht => .pure ?_
    rintro _ ⟨⟩
    exact ht

theorem Param.Regular.copy {p : Param} (h : p.Regular g) :
    Builds p.copy fun p' => p'.Regular g.anyId :=
  .bind h.info.renew fun _ hinfo => .bind (optionRegular_copy h.type) fun _ htype =>
    .pure ⟨hinfo, htype⟩

theorem VarDecl.Regular.copy {d : VarDecl} (h : d.Regular g) :
    Builds d.copy fun d' => d'.Regular g.anyId :=
  .bind h.info.renew fun _ hinfo => .bind (optionRegular_copy h.type) fun _ htype =>
    .pure ⟨hinfo, htype⟩

theorem paramsRegular_copy {ps : List Param} (h : ∀ p ∈ ps, p.Regular g) :
    Builds (ps.mapM Param.copy) fun ps' => ∀ p ∈ ps', p.Regular g.anyId :=
  .mapM fun p hp => (h p hp).copy

theorem declsRegular_copy {ds : List VarDecl} (h : ∀ d ∈ ds, d.Regular g) :
    Builds (ds.mapM VarDecl.copy) fun ds' => ∀ d ∈ ds', d.Regular g.anyId :=
  .mapM fun d hd => (h d hd).copy

/-! ### Expressions, statements and functions -/

mutual

theorem Expr.Regular.copy : ∀ {e : Expr}, e.Regular g → Builds e.copy fun e' => e'.Regular g.anyId
  | .literal info value, h => by
    rw [Expr.copy]
    rw [Expr.Regular] at h
    refine .bind h.renew fun info' hinfo => ?_
    apply Builds.pure
    simpa only [Expr.Regular] using hinfo
  | .array info elems, h => by
    rw [Expr.copy]
    rw [Expr.Regular] at h
    refine .bind (exprsRegular_copy h.2) fun elems' helems => ?_
    refine .bind h.1.renew fun info' hinfo => ?_
    apply Builds.pure
    simp only [Expr.Regular]
    exact ⟨hinfo, helems.1⟩
  | .tuple info elems, h => by
    rw [Expr.copy]
    rw [Expr.Regular] at h
    refine .bind (exprsRegular_copy h.2.2) fun elems' helems => ?_
    refine .bind h.1.renew fun info' hinfo => ?_
    apply Builds.pure
    simp only [Expr.Regular, helems.2]
    exact ⟨hinfo, h.2.1, helems.1⟩
  | .dict info entries, h => by
    rw [Expr.copy]
    rw [Expr.Regular] at h
    refine .bind (entriesRegular_copy h.2) fun entries' hentries => ?_
    refine .bind h.1.renew fun info' hinfo => ?_
    apply Builds.pure
    simp only [Expr.Regular]
    exact ⟨hinfo, hentries⟩
  | .varRef info name assigned, h => by
    rw [Expr.copy]
    rw [Expr.Regular] at h
    refine .bind h.renew fun info' hinfo => ?_
    apply Builds.pure
    simpa only [Expr.Regular] using hinfo
  | .member info receiver name, h => by
    rw [Expr.copy]
    rw [Expr.Regular] at h
    refine .bind h.2.copy fun receiver' hreceiver => ?_
    refine .bind h.1.renew fun info' hinfo => ?_
    apply Builds.pure
    simp only [Expr.Regular]
    exact ⟨hinfo, hreceiver⟩
  | .index info receiver index, h => by
    rw [Expr.copy]
    rw [Expr.Regular] at h
    refine .bind h.2.1.copy fun receiver' hreceiver => ?_
    refine .bind h.2.2.copy fun index' hindex => ?_
    refine .bind h.1.renew fun info' hinfo => ?_
    apply Builds.pure
    simp only [Expr.Regular]
    exact ⟨hinfo, hreceiver, hindex⟩
  | .call info callee args, h => by
    rw [Expr.copy]
    rw [Expr.Regular] at h
    refine .bind h.2.2.1.copy fun callee' hcallee => ?_
    refine .bind (exprsRegular_copy h.2.2.2) fun args' hargs => ?_
    refine .bind h.1.renew fun info' hinfo => ?_
    apply Builds.pure
    simp only [Expr.Regular]
    exact ⟨hinfo, trivial, hcallee, hargs.1⟩
  | .unary info op operand, h => by
    rw [Expr.copy]
    rw [Expr.Regular] at h
    refine .bind h.2.copy fun operand' hoperand => ?_
    refine .bind h.1.renew fun info' hinfo => ?_
    apply Builds.pure
    simp only [Expr.Regular]
    exact ⟨hinfo, hoperand⟩
  | .binary info op lhs rhs, h => by
    rw [Expr.copy]
    rw [Expr.Regular] at h
    refine .bind h.2.1.copy fun lhs' hlhs => ?_
    refine .bind h.2.2.copy fun rhs' hrhs => ?_
    refine .bind h.1.renew fun info' hinfo => ?_
    apply Builds.pure
    simp only [Expr.Regular]
    exact ⟨hinfo, hlhs, hrhs⟩
  | .cast info value type, h => by
    rw [Expr.copy]
    rw [Expr.Regular] at h
    refine .bind h.2.1.copy fun value' hvalue => ?_
    refine .bind h.2.2.copy fun type' htype => ?_
    refine .bind h.1.renew fun info' hinfo => ?_
    apply Builds.pure
    simp only [Expr.Regular]
    exact ⟨hinfo, hvalue, htype⟩
  | .typed info value type, h => by
    rw [Expr.copy]
    rw [Expr.Regular] at h
    refine .bind h.2.1.copy fun value' hvalue => ?_
    refine .bind h.2.2.copy fun type' htype => ?_
    refine .bind h.1.renew fun info' hinfo => ?_
    apply Builds.pure
    simp only [Expr.Regular]
    exact ⟨hinfo, hvalue, htype⟩
  | .ifElse info kind condition thenValue elseValue, h => by
    rw [Expr.copy]
    rw [Expr.Regular] at h
    refine .bind h.2.1.copy fun condition' hcondition => ?_
    refine .bind h.2.2.1.copy fun thenValue' hthen => ?_
    refine .bind h.2.2.2.copy fun elseValue' helse => ?_
    refine .bind h.1.renew fun info' hinfo => ?_
    apply Builds.pure
    simp only [Expr.Regular]
    exact ⟨hinfo, hcondition, hthen, helse⟩
  | .range info first last inclusive, h => by
    rw [Expr.copy]
    rw [Expr.Regular] at h
    refine .bind h.2.1.copy fun first' hfirst => ?_
    refine .bind h.2.2.copy fun last' hlast => ?_
    refine .bind h.1.renew fun info' hinfo => ?_
    apply Builds.pure
    simp only [Expr.Regular]
    exact ⟨hinfo, hfirst, hlast⟩
  | .lambda info definition, h => by
    rw [Expr.copy]
    rw [Expr.Regular] at h
    refine .bind (FuncDef.Regular.copy h.2.2 h.2.1.place) fun definition' hdefinition => ?_
    refine .bind h.1.renew fun info' hinfo => ?_
    apply Builds.pure
    simp only [Expr.Regular]
    exact ⟨hinfo, ⟨hdefinition.2, trivial⟩, hdefinition.1⟩

theorem exprsRegular_copy : ∀ {es : List Expr}, exprsRegular g es →
    Builds (copyExprs es) fun es' => exprsRegular g.anyId es' ∧ es'.length = es.length
  | [], _ => by
    rw [copyExprs]
    exact .pure (by simp only [exprsRegular, and_self])
  | e :: rest, h => by
    rw [copyExprs]
    rw [exprsRegular] at h
    refine .bind h.1.copy fun e' he => ?_
    refine .bind (exprsRegular_copy h.2) fun rest' hrest => ?_
    apply Builds.pure
    simp only [exprsRegular]
    exact ⟨⟨he, hrest.1⟩, congrArg Nat.succ hrest.2⟩

theorem entriesRegular_copy : ∀ {es : List (Expr × Expr)}, entriesRegular g es →
    Builds (copyEntries es) fun es' => entriesRegular g.anyId es'
  | [], _ => by
    rw [copyEntries]
    exact .pure (by simp only [entriesRegular])
  | (key, value) :: rest, h => by
    rw [copyEntries]
    rw [entriesRegular] at h
    refine .bind h.1.copy fun key' hkey => ?_
    refine .bind h.2.1.copy fun value' hvalue => ?_
    refine .bind (entriesRegular_copy h.2.2) fun rest' hrest => ?_
    apply Builds.pure
    simp only [entriesRegular]
    exact ⟨hkey, hvalue, hrest⟩

/-- The copy of a function begins where the function begins. -/
theorem FuncDef.Regular.copy : ∀ {d : FuncDef}, d.Regular g → g.place d.info.span.start →
    Builds d.copy fun d' => d'.Regular g.anyId ∧ g.place d'.info.span.start
  | ⟨info, kind, name, params, returnType, body, none⟩, h, hplace => by
    rw [FuncDef.copy]
    rw [FuncDef.Regular] at h
    have hinfo : Builds info.renew fun info' => g.place info'.span.start := fun _ => .renew hplace
    refine .bind hinfo fun info' hinfo => ?_
    refine .bind (paramsRegular_copy h.1) fun params' hparams => ?_
    refine .bind (optionRegular_copy h.2.1) fun returnType' hret => ?_
    refine .bind h.2.2.1.copy fun body' hbody => ?_
    apply Builds.pure
    simp only [FuncDef.Regular, blockRegular, and_true]
    exact ⟨⟨hparams, hret, hbody⟩, hinfo⟩
  | ⟨info, kind, name, params, returnType, body, some ensureBody⟩, h, hplace => by
    rw [FuncDef.copy]
    rw [FuncDef.Regular, blockRegular] at h
    have hinfo : Builds info.renew fun info' => g.place info'.span.start := fun _ => .renew hplace
    refine .bind hinfo fun info' hinfo => ?_
    refine .bind (paramsRegular_copy h.1) fun params' hparams => ?_
    refine .bind (optionRegular_copy h.2.1) fun returnType' hret => ?_
    refine .bind h.2.2.1.copy fun body' hbody => ?_
    refine .bind h.2.2.2.copy fun ensureBody' hensure => ?_
    apply Builds.pure
    simp only [FuncDef.Regular, blockRegular]
    exact ⟨⟨hparams, hret, hbody, hensure⟩, hinfo⟩

theorem Block.Regular.copy : ∀ {b : Block}, b.Regular g →
    Builds b.copy fun b' => b'.Regular g.anyId
  | ⟨info, stmts⟩, h => by
    rw [Block.copy]
    rw [Block.Regular] at h
    refine .bind h.1.renew fun info' hinfo => ?_
    refine .bind (stmtsRegular_copy h.2) fun stmts' hstmts => ?_
    apply Builds.pure
    simp only [Block.Regular]
    exact ⟨hinfo, hstmts⟩

theorem Init.Regular.copy : ∀ {i : Init}, i.Regular g → Builds i.copy fun i' => i'.Regular g.anyId
  | ⟨info, decls, values⟩, h => by
    rw [Init.copy]
    rw [Init.Regular] at h
    refine .bind h.1.toOn.renew fun info' hinfo => ?_
    refine .bind (declsRegular_copy h.2.1) fun decls' hdecls => ?_
    refine .bind (exprsRegular_copy h.2.2) fun values' hvalues => ?_
    apply Builds.pure
    simp only [Init.Regular]
    exact ⟨⟨hinfo, trivial⟩, hdecls, hvalues.1⟩

theorem Stmt.Regular.copy : ∀ {s : Stmt}, s.Regular g → Builds s.copy fun s' => s'.Regular g.anyId
  | .init init, h => by
    rw [Stmt.copy]
    rw [Stmt.Regular] at h
    refine .bind h.copy fun init' hinit => ?_
    apply Builds.pure
    simpa only [Stmt.Regular] using hinit
  | .assign info targets op values, h => by
    rw [Stmt.copy]
    rw [Stmt.Regular] at h
    refine .bind h.1.toOn.renew fun info' hinfo => ?_
    refine .bind (exprsRegular_copy h.2.1) fun targets' ht => ?_
    refine .bind (exprsRegular_copy h.2.2) fun values' hvalues => ?_
    apply Builds.pure
    simp only [Stmt.Regular]
    exact ⟨⟨hinfo, trivial⟩, ht.1, hvalues.1⟩
  | .ifElse info kind condition thenBlock elseifs none, h => by
    rw [Stmt.copy]
    rw [Stmt.Regular] at h
    refine .bind h.1.toOn.renew fun info' hinfo => ?_
    refine .bind h.2.1.copy fun condition' hcondition => ?_
    refine .bind h.2.2.1.copy fun thenBlock' hthen => ?_
    refine .bind (armsRegular_copy h.2.2.2.1) fun elseifs' helseifs => ?_
    apply Builds.pure
    simp only [Stmt.Regular, blockRegular]
    exact ⟨⟨hinfo, trivial⟩, hcondition, hthen, helseifs, trivial⟩
  | .ifElse info kind condition thenBlock elseifs (some elseBlock), h => by
    rw [Stmt.copy]
    rw [Stmt.Regular, blockRegular] at h
    refine .bind h.1.toOn.renew fun info' hinfo => ?_
    refine .bind h.2.1.copy fun condition' hcondition => ?_
    refine .bind h.2.2.1.copy fun thenBlock' hthen => ?_
    refine .bind (armsRegular_copy h.2.2.2.1) fun elseifs' helseifs => ?_
    refine .bind h.2.2.2.2.copy fun elseBlock' helse => ?_
    apply Builds.pure
    simp only [Stmt.Regular, blockRegular]
    exact ⟨⟨hinfo, trivial⟩, hcondition, hthen, helseifs, helse⟩
  | .ret info values, h => by
    rw [Stmt.copy]
    rw [Stmt.Regular] at h
    refine .bind h.1.toOn.renew fun info' hinfo => ?_
    refine .bind (exprsRegular_copy h.2) fun values' hvalues => ?_
    apply Builds.pure
    simp only [Stmt.Regular]
    exact ⟨⟨hinfo, trivial⟩, hvalues.1⟩
  | .case info whens none, h => by
    rw [Stmt.copy]
    rw [Stmt.Regular] at h
    refine .bind h.1.toOn.renew fun info' hinfo => ?_
    refine .bind (armsRegular_copy h.2.1) fun whens' hwhens => ?_
    apply Builds.pure
    simp only [Stmt.Regular, blockRegular]
    exact ⟨⟨hinfo, trivial⟩, hwhens, trivial⟩
  | .case info whens (some elseBlock), h => by
    rw [Stmt.copy]
    rw [Stmt.Regular, blockRegular] at h
    refine .bind h.1.toOn.renew fun info' hinfo => ?_
    refine .bind (armsRegular_copy h.2.1) fun whens' hwhens => ?_
    refine .bind h.2.2.copy fun elseBlock' helse => ?_
    apply Builds.pure
    simp only [Stmt.Regular, blockRegular]
    exact ⟨⟨hinfo, trivial⟩, hwhens, helse⟩
  | .switch info target whens none, h => by
    rw [Stmt.copy]
    rw [Stmt.Regular] at h
    refine .bind h.1.toOn.renew fun info' hinfo => ?_
    refine .bind h.2.1.copy fun target' ht => ?_
    refine .bind (valueArmsRegular_copy h.2.2.1) fun whens' hwhens => ?_
    apply Builds.pure
    simp only [Stmt.Regular, blockRegular]
    exact ⟨⟨hinfo, trivial⟩, ht, hwhens, trivial⟩
  | .switch info target whens (some elseBlock), h => by
    rw [Stmt.copy]
    rw [Stmt.Regular, blockRegular] at h
    refine .bind h.1.toOn.renew fun info' hinfo => ?_
    refine .bind h.2.1.copy fun target' ht => ?_
    refine .bind (valueArmsRegular_copy h.2.2.1) fun whens' hwhens => ?_
    refine .bind h.2.2.2.copy fun elseBlock' helse => ?_
    apply Builds.pure
    simp only [Stmt.Regular, blockRegular]
    exact ⟨⟨hinfo, trivial⟩, ht, hwhens, helse⟩
  | .forIn info vars range body, h => by
    rw [Stmt.copy]
    rw [Stmt.Regular] at h
    refine .bind h.1.toOn.renew fun info' hinfo => ?_
    refine .bind (paramsRegular_copy h.2.1) fun vars' hvars => ?_
    refine .bind h.2.2.1.copy fun range' hrange => ?_
    refine .bind h.2.2.2.copy fun body' hbody => ?_
    apply Builds.pure
    simp only [Stmt.Regular]
    exact ⟨⟨hinfo, trivial⟩, hvars, hrange, hbody⟩
  | .whileDo info condition body, h => by
    rw [Stmt.copy]
    rw [Stmt.Regular] at h
    refine .bind h.1.toOn.renew fun info' hinfo => ?_
    refine .bind h.2.1.copy fun condition' hcondition => ?_
    refine .bind h.2.2.copy fun body' hbody => ?_
    apply Builds.pure
    simp only [Stmt.Regular]
    exact ⟨⟨hinfo, trivial⟩, hcondition, hbody⟩
  | .guarded info body kind condition, h => by
    rw [Stmt.copy]
    rw [Stmt.Regular] at h
    refine .bind h.1.toOn.renew fun info' hinfo => ?_
    refine .bind h.2.1.copy fun body' hbody => ?_
    refine .bind h.2.2.copy fun condition' hcondition => ?_
    apply Builds.pure
    simp only [Stmt.Regular]
    exact ⟨⟨hinfo, trivial⟩, hbody, hcondition⟩
  | .letIn info inits child, h => by
    rw [Stmt.copy]
    rw [Stmt.Regular] at h
    refine .bind h.1.toOn.renew fun info' hinfo => ?_
    refine .bind (initsRegular_copy h.2.1) fun inits' hinits => ?_
    refine .bind h.2.2.copy fun child' hchild => ?_
    apply Builds.pure
    simp only [Stmt.Regular]
    exact ⟨⟨hinfo, trivial⟩, hinits, hchild⟩
  | .expr value, h => by
    rw [Stmt.copy]
    rw [Stmt.Regular] at h
    refine .bind h.copy fun value' hvalue => ?_
    apply Builds.pure
    simpa only [Stmt.Regular] using hvalue

theorem stmtsRegular_copy : ∀ {ss : List Stmt}, stmtsRegular g ss →
    Builds (copyStmts ss) fun ss' => stmtsRegular g.anyId ss'
  | [], _ => by
    rw [copyStmts]
    exact .pure (by simp only [stmtsRegular])
  | s :: rest, h => by
    rw [copyStmts]
    rw [stmtsRegular] at h
    refine .bind h.1.copy fun s' hs => ?_
    refine .bind (stmtsRegular_copy h.2) fun rest' hrest => ?_
    apply Builds.pure
    simp only [stmtsRegular]
    exact ⟨hs, hrest⟩

theorem initsRegular_copy : ∀ {is : List Init}, initsRegular g is →
    Builds (copyInits is) fun is' => initsRegular g.anyId is'
  | [], _ => by
    rw [copyInits]
    exact .pure (by simp only [initsRegular])
  | i :: rest, h => by
    rw [copyInits]
    rw [initsRegular] at h
    refine .bind h.1.copy fun i' hi => ?_
    refine .bind (initsRegular_copy h.2) fun rest' hrest => ?_
    apply Builds.pure
    simp only [initsRegular]
    exact ⟨hi, hrest⟩

theorem armsRegular_copy : ∀ {whens : List (Expr × Block)}, armsRegular g whens →
    Builds (copyArms whens) fun whens' => armsRegular g.anyId whens'
  | [], _ => by
    rw [copyArms]
    exact .pure (by simp only [armsRegular])
  | (condition, block) :: rest, h => by
    rw [copyArms]
    rw [armsRegular] at h
    refine .bind h.1.copy fun condition' hcondition => ?_
    refine .bind h.2.1.copy fun block' hblock => ?_
    refine .bind (armsRegular_copy h.2.2) fun rest' hrest => ?_
    apply Builds.pure
    simp only [armsRegular]
    exact ⟨hcondition, hblock, hrest⟩

theorem valueArmsRegular_copy : ∀ {whens : List (List Expr × Block)}, valueArmsRegular g whens →
    Builds (copyValueArms whens) fun whens' => valueArmsRegular g.anyId whens'
  | [], _ => by
    rw [copyValueArms]
    exact .pure (by simp only [valueArmsRegular])
  | (values, block) :: rest, h => by
    rw [copyValueArms]
    rw [valueArmsRegular] at h
    refine .bind (exprsRegular_copy h.1) fun values' hvalues => ?_
    refine .bind h.2.1.copy fun block' hblock => ?_
    refine .bind (valueArmsRegular_copy h.2.2) fun rest' hrest => ?_
    apply Builds.pure
    simp only [valueArmsRegular]
    exact ⟨hvalues.1, hblock, hrest⟩

end

/-- A copy is regular if the ids that it takes may be had and its nodes may play their roles. -/
theorem FuncDef.Regular.minted {d : FuncDef} {n : Nat} (h : d.Regular g)
    (hplace : g.place d.info.span.start) (hfree : ∀ k, n ≤ k → g.free k) :
    Minting d.copy n fun copy _ => copy.info.On g ∧ ∀ {plays : Role → Nat → Prop},
      Played plays copy.roles → copy.Regular { g with plays } := by
  have hfresh : Minting d.copy n fun copy m => Fresh n m copy.ids :=
    (d.copy_fresh n).imp fun _ _ h => h.1
  have hcopy : Minting d.copy n fun copy _ =>
    copy.Regular g.anyId ∧ g.place copy.info.span.start := h.copy hplace n
  unfold Minting at hfresh hcopy ⊢
  generalize (d.copy.run n).1 = copy at hfresh hcopy
  have hids : ∀ node ∈ copy.ids, g.free node := fun node hm => hfree _ (hfresh.bounds node hm).1
  have hid : copy.info.id ∈ copy.ids := by
    cases copy
    simp only [FuncDef.ids, List.mem_cons, true_or]
  exact ⟨⟨hcopy.2, hids _ hid⟩, fun hroles =>
    hcopy.1.onto (fun node hn => hids node (List.mem_of_mem_tail hn)) hroles⟩

end Frontend
