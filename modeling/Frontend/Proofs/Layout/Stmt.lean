import Frontend.Proofs.Layout.Expr

/-!
# Plans along statements

A statement carries out its plan: a block is opened where the text has one, what stands in it is
carried out inside, and a declaration adds its names to the block it is made in, a name for each
type that there is.
-/

namespace Frontend

variable {p : Program} {w : Demand} {home : Option Nat} {cur : ScopeId} {position : Position}

/-- The results of an action have a property, whatever the state. -/
def Gives {α : Type} (act : Check α) (holds : α → Prop) : Prop :=
  ∀ s, Ensures (fun _ _ => True) act s fun a _ => holds a

namespace Gives

variable {α β : Type} {act : Check α} {holds : α → Prop} {holds' : β → Prop}

theorem pure {a : α} (h : holds a) : Gives (pure a : Check α) holds := fun _ => .pure h

theorem fail {cause : Cause} : Gives (Check.fail cause position : Check α) holds := fun _ =>
  .fail trivial

theorem bind {f : α → Check β} (h : Gives act holds) (hf : ∀ a, holds a → Gives (f a) holds') :
    Gives (act >>= f) holds' := fun s => .bind ((h s).imp fun a t _ ha => hf a ha t)

/-- What comes last decides. -/
theorem after {f : α → Check β} (hf : ∀ a, Gives (f a) holds') : Gives (act >>= f) holds' := by
  have hact : Gives act fun _ => True := fun s => by
    unfold Ensures
    split <;> trivial
  exact hact.bind fun a _ => hf a

end Gives

/-- What an action carries out, and what is known of its result. -/
theorem Follows.bindGiven {α β : Type} {act : Check α} {f : α → Check β} {q r : Plan}
    {holds : α → Prop} (h : Follows p home cur q act) (hgives : Gives act holds)
    (hf : ∀ a, holds a → Follows p home cur r (f a)) : Follows p home cur (q ++ r) (act >>= f) :=
  fun s => .bind (((h s).and (hgives s)).imp fun a t _ hst =>
    (hf a hst.2 t).imp fun _ _ _ htu => hst.1.append htu)

/-- An action without effect on the scopes comes first, and something is known of its result. -/
theorem Follows.afterGiven {α β : Type} {act : Check α} {f : α → Check β} {q : Plan}
    {holds : α → Prop} (h : Stateless act) (hgives : Gives act holds)
    (hf : ∀ a, holds a → Follows p home cur q (f a)) : Follows p home cur q (act >>= f) :=
  q.of_nil_append ▸ (Follows.stateless h).bindGiven hgives hf

/-- Runs over a block carry out its plan. -/
def Block.KeepsLayout (p : Program) (w : Demand) (b : Block) : Prop :=
  ∀ home cur, Follows p home cur (b.plan home) (Check.block w cur b)

/-- Runs over an initialize statement carry out its plan. -/
def Init.KeepsLayout (p : Program) (w : Demand) (i : Init) : Prop :=
  ∀ home cur, Follows p home cur (i.plan home) (Check.initStmt w cur i)

/-- Runs over a statement carry out its plan. -/
def Stmt.KeepsLayout (p : Program) (w : Demand) (st : Stmt) : Prop :=
  ∀ home cur, Follows p home cur (st.plan home) (Check.stmt w cur st)

namespace Check

/-! ### As many types as names -/

theorem takeApart_gives (count : Nat) (type : Ty) :
    Gives (takeApart count type position) fun types => types.length = count := by
  unfold takeApart
  split
  · split
    · next hlen => exact .pure hlen
    · exact .fail
  · exact .fail

theorem loopTypes_gives (count : Nat) (elem : Ty) :
    Gives (loopTypes count elem position) fun types => types.length = count := by
  unfold loopTypes
  split
  · next hone => exact .pure hone.symm
  · exact takeApart_gives count elem

theorem denotedTypes_gives (decls : List VarDecl) :
    Gives (decls.mapM fun d => denoted? d.type) fun types => types.length = decls.length := by
  refine fun s => Ensures.imp (Ensures.mapM fun d _ => ?_) fun _ _ _ h => h.2
  exact ((denoted?_stateless d.type).readsOnly s).imp_both (fun _ _ _ => trivial) fun _ _ h => h

theorem declaredTypes_gives {decls : List VarDecl} {explicit : List (Option Ty)}
    (hlen : explicit.length = decls.length) :
    Gives (declaredTypes decls explicit) fun types => types.length = decls.length := by
  induction decls generalizing explicit with
  | nil => exact .pure rfl
  | cons d rest ih =>
    obtain ⟨type, explicit, rfl⟩ := List.exists_cons_of_length_eq_add_one hlen
    cases type with
    | none => exact .fail
    | some type => exact (ih (Nat.succ.inj hlen)).bind fun _ h => .pure (congrArg Nat.succ h)

theorem exprs_gives (es : List Expr) (hints : List (Option Ty)) :
    Gives (exprs w cur hints es) fun types => types.length = es.length := by
  induction es generalizing hints with
  | nil =>
    rw [exprs]
    exact .pure rfl
  | cons e rest ih =>
    rw [exprs]
    exact .after fun _ => (ih _).bind fun _ h => .pure (congrArg Nat.succ h)

theorem values_gives (es : List Expr) (hints : List (Option Ty)) :
    Gives (values w cur hints position es) fun types => types.length = hints.length := by
  cases es with
  | nil =>
    rw [values]
    split
    · next hempty => exact .pure (congrArg List.length (List.isEmpty_iff.mp hempty)).symm
    · exact .fail
  | cons e rest =>
    rw [values]
    split
    · next hlen =>
      exact .after fun _ => (exprs_gives rest _).bind fun _ h =>
        .pure ((congrArg Nat.succ h).trans hlen)
    · split
      · exact .after fun type => takeApart_gives _ type
      · exact .fail

/-! ### Lists of statements -/

theorem stmts_follows {ss : List Stmt} (h : ∀ st ∈ ss, st.KeepsLayout p w) :
    Follows p home cur (stmtsPlan home ss) (stmts w cur ss) := by
  induction ss with
  | nil =>
    rw [stmts, stmtsPlan]
    exact .pure ()
  | cons st rest ih =>
    rw [List.forall_mem_cons] at h
    rw [stmts, stmtsPlan]
    exact (h.1 home cur).bind fun _ => ih h.2

theorem block_keepsLayout (info : NodeInfo) {ss : List Stmt}
    (h : ∀ st ∈ ss, st.KeepsLayout p w) : (Block.mk info ss).KeepsLayout p w := by
  intro home cur
  rw [block, Block.plan]
  exact openBlock_bind_follows _ fun inner => stmts_follows h

theorem optionalBlock_follows {b : Option Block} (h : ∀ b' ∈ b, b'.KeepsLayout p w) :
    Follows p home cur (optionalPlan home b) (optionalBlock w cur b) := by
  cases b with
  | none =>
    rw [optionalBlock, optionalPlan]
    exact .pure ()
  | some b =>
    rw [optionalBlock, optionalPlan]
    exact h b rfl home cur

theorem initStmts_follows {is : List Init} (h : ∀ i ∈ is, i.KeepsLayout p w) :
    Follows p home cur (initsPlan home is) (initStmts w cur is) := by
  induction is with
  | nil =>
    rw [initStmts, initsPlan]
    exact .pure ()
  | cons i rest ih =>
    rw [List.forall_mem_cons] at h
    rw [initStmts, initsPlan]
    exact (h.1 home cur).bind fun _ => ih h.2

/-- A condition comes first. -/
theorem condition_follows {α : Type} {condition : Expr} {f : Check α} {q : Plan}
    (hc : condition.KeepsLayout p w) (hf : Follows p home cur q f) :
    Follows p home cur (.of (condition.shapes home) ++ q) (do
      let type ← expr w cur (some .bool) condition
      expectType .bool type condition.position
      f) :=
  (hc home cur _).bind fun _ => .after (.stateless (expectType_stateless _ _)) fun _ => hf

theorem arms_follows {whens : List (Expr × Block)}
    (h : ∀ a ∈ whens, a.1.KeepsLayout p w ∧ a.2.KeepsLayout p w) :
    Follows p home cur (armsPlan home whens) (arms w cur whens) := by
  induction whens with
  | nil =>
    rw [arms, armsPlan]
    exact .pure ()
  | cons a rest ih =>
    rw [List.forall_mem_cons] at h
    obtain ⟨condition, body⟩ := a
    rw [arms, armsPlan]
    exact condition_follows h.1.1 ((h.1.2 home cur).bind fun _ => ih h.2)

theorem valueArms_follows {whens : List (List Expr × Block)}
    (h : ∀ a ∈ whens, (∀ e ∈ a.1, e.KeepsLayout p w) ∧ a.2.KeepsLayout p w) (type : Ty) :
    Follows p home cur (valueArmsPlan home whens) (valueArms w cur type whens) := by
  induction whens with
  | nil =>
    rw [valueArms, valueArmsPlan]
    exact .pure ()
  | cons a rest ih =>
    rw [List.forall_mem_cons] at h
    obtain ⟨es, body⟩ := a
    rw [valueArms, valueArmsPlan]
    exact (sameType_follows h.1.1 type).bind fun _ => (h.1.2 home cur).bind fun _ => ih h.2

/-- The values of an initialize statement come before its names. -/
theorem init_keepsLayout (info : NodeInfo) (decls : List VarDecl) {es : List Expr}
    (h : ∀ e ∈ es, e.KeepsLayout p w) : (Init.mk info decls es).KeepsLayout p w := by
  intro home cur
  rw [initStmt, Init.plan]
  refine .afterGiven (.mapM (fun d => denoted?_stateless _) decls) (denotedTypes_gives decls)
    fun explicit hexplicit => ?_
  have hvalues : Follows p home cur (.of (exprsShapes home es))
      (if es.isEmpty then declaredTypes decls explicit
        else values w cur explicit info.span.start es) := by
    split
    · next hnil =>
      rw [List.isEmpty_iff.mp hnil, exprsShapes]
      exact .stateless (declaredTypes_stateless _ _)
    · exact values_follows h _
  have htypes : Gives (if es.isEmpty then declaredTypes decls explicit
      else values w cur explicit info.span.start es) fun types => types.length = decls.length := by
    split
    · exact declaredTypes_gives hexplicit
    · rw [← hexplicit]
      exact values_gives es explicit
  exact hvalues.bindGiven htypes fun types hlen => declareVars_follows hexplicit hlen

end Check

/-! ### Statements -/

namespace Stmt

open Check

theorem init_keepsLayout (hw : w.KeepsLayout p) {i : Init} (h : i.KeepsLayout p w) :
    (Stmt.init i).KeepsLayout p w := by
  intro home cur
  rw [stmt_init, Stmt.plan]
  exact visiting_follows hw _ (h home cur)

variable (hw : w.KeepsLayout p) (info : NodeInfo)
include hw

theorem expr_keepsLayout {e : Expr} (h : e.KeepsLayout p w) : (Stmt.expr e).KeepsLayout p w := by
  intro home cur
  rw [stmt, Stmt.plan]
  exact visiting_follows hw _ (.thenPure (h home cur _) fun _ => .pure _)

theorem assign_keepsLayout (op : Option BinaryOp) {ts es : List Expr}
    (ht : ∀ e ∈ ts, e.KeepsLayout p w) (he : ∀ e ∈ es, e.KeepsLayout p w) :
    (Stmt.assign info ts op es).KeepsLayout p w := by
  intro home cur
  rw [Stmt.plan, Plan.of_append]
  cases op with
  | none =>
    rw [stmt]
    exact visiting_follows hw _ ((targets_follows ht).bind fun _ =>
      .thenPure (values_follows he _) fun _ => assignTargets_follows _ _ _)
  | some op =>
    by_cases hone : ∃ target value, ts = [target] ∧ es = [value]
    · obtain ⟨target, value, rfl, rfl⟩ := hone
      rw [List.forall_mem_singleton] at ht he
      rw [stmt, exprsShapes, exprsShapes, List.append_nil, exprsShapes, exprsShapes,
        List.append_nil]
      exact visiting_follows hw _ ((ht home cur none).bind fun type =>
        .thenPure (he home cur _) fun _ => .after (.stateless (expectType_stateless _ _)) fun _ =>
          .after (.stateless (expectOperand_stateless op type)) fun _ =>
            .readsOnly (checkAssignable_readsOnly target))
    · rw [stmt]
      · exact visiting_follows hw _ .fail
      · intro target value hts hes
        exact hone ⟨target, value, hts, hes⟩

theorem ret_keepsLayout {es : List Expr} (h : ∀ e ∈ es, e.KeepsLayout p w) :
    (Stmt.ret info es).KeepsLayout p w := by
  intro home cur
  rw [stmt, Stmt.plan]
  refine visiting_follows hw _ (.after (.readsOnly (.bind store_readsOnly fun _ => .pure _))
    fun current => ?_)
  split
  · exact .fail
  · exact .thenPure (exprs_follows h _) fun _ => returnType_follows _ _ _

theorem ifElse_keepsLayout (kind : IfKind) {condition : Expr} {thenBlock : Block}
    {elseifs : List (Expr × Block)} {elseBlock : Option Block} (hc : condition.KeepsLayout p w)
    (ht : thenBlock.KeepsLayout p w)
    (ha : ∀ a ∈ elseifs, a.1.KeepsLayout p w ∧ a.2.KeepsLayout p w)
    (he : ∀ b ∈ elseBlock, b.KeepsLayout p w) :
    (Stmt.ifElse info kind condition thenBlock elseifs elseBlock).KeepsLayout p w := by
  intro home cur
  rw [stmt, Stmt.plan]
  exact visiting_follows hw _ (condition_follows hc ((ht home cur).bind fun _ =>
    (arms_follows ha).bind fun _ => optionalBlock_follows he))

theorem case_keepsLayout {whens : List (Expr × Block)} {elseBlock : Option Block}
    (ha : ∀ a ∈ whens, a.1.KeepsLayout p w ∧ a.2.KeepsLayout p w)
    (he : ∀ b ∈ elseBlock, b.KeepsLayout p w) :
    (Stmt.case info whens elseBlock).KeepsLayout p w := by
  intro home cur
  rw [stmt, Stmt.plan]
  exact visiting_follows hw _ ((arms_follows ha).bind fun _ => optionalBlock_follows he)

theorem switch_keepsLayout {target : Expr} {whens : List (List Expr × Block)}
    {elseBlock : Option Block} (ht : target.KeepsLayout p w)
    (ha : ∀ a ∈ whens, (∀ e ∈ a.1, e.KeepsLayout p w) ∧ a.2.KeepsLayout p w)
    (he : ∀ b ∈ elseBlock, b.KeepsLayout p w) :
    (Stmt.switch info target whens elseBlock).KeepsLayout p w := by
  intro home cur
  rw [stmt, Stmt.plan]
  exact visiting_follows hw _ ((ht home cur none).bind fun type =>
    (valueArms_follows ha type).bind fun _ => optionalBlock_follows he)

theorem whileDo_keepsLayout {condition : Expr} {body : Block} (hc : condition.KeepsLayout p w)
    (hb : body.KeepsLayout p w) : (Stmt.whileDo info condition body).KeepsLayout p w := by
  intro home cur
  rw [stmt, Stmt.plan]
  exact visiting_follows hw _ (condition_follows hc (hb home cur))

theorem guarded_keepsLayout {body : Stmt} (kind : IfKind) {condition : Expr}
    (hb : body.KeepsLayout p w) (hc : condition.KeepsLayout p w) :
    (Stmt.guarded info body kind condition).KeepsLayout p w := by
  intro home cur
  rw [stmt, Stmt.plan]
  exact visiting_follows hw _ ((hb home cur).bind fun _ => .thenPure (hc home cur _) fun _ =>
    .stateless (expectType_stateless _ _))

/-- The variables of a loop come first in the block that is its body. -/
theorem forIn_keepsLayout (bodyInfo : NodeInfo) (vars : List Param) {range : Expr}
    {ss : List Stmt} (hrange : range.KeepsLayout p w) (h : ∀ st ∈ ss, st.KeepsLayout p w) :
    (Stmt.forIn info vars range ⟨bodyInfo, ss⟩).KeepsLayout p w := by
  intro home cur
  rw [stmt, Stmt.plan]
  refine visiting_follows hw _ ((hrange home cur none).bind fun type => ?_)
  split
  · exact .fail
  · exact .afterGiven (loopTypes_stateless _ _) (loopTypes_gives _ _) fun types htypes =>
      openBlock_bind_follows _ fun inner => (declareLoopVars_follows htypes).bind fun _ =>
        stmts_follows h

theorem letIn_keepsLayout {inits : List Init} {child : Stmt}
    (hi : ∀ i ∈ inits, i.KeepsLayout p w) (hc : child.KeepsLayout p w) :
    (Stmt.letIn info inits child).KeepsLayout p w := by
  intro home cur
  rw [stmt, Stmt.plan]
  exact visiting_follows hw _ (openBlock_bind_follows _ fun inner =>
    (initStmts_follows hi).bind fun _ => hc _ inner)

end Stmt

end Frontend
