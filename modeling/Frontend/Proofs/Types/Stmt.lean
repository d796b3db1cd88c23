import Frontend.Proofs.Types.Expr

/-!
# Statements keep types proper

Variables are declared with the types of their values or of the elements they run through, and a
function gets the result type of the values that it returns. One lemma for each construct, from its
parts.
-/

namespace Frontend

/-- Runs over a block keep types proper, wherever it stands. -/
def Block.KeepsTypes (p : Program) (l : Terrain) (w : Demand) (b : Block) : Prop :=
  ∀ plays scope s, b.Regular ⟨l, plays⟩ →
    Proceeds p ⟨l, plays⟩ scope (Check.block w scope b) s fun _ _ => True

/-- Runs over an initialize statement keep types proper, wherever it stands. -/
def Init.KeepsTypes (p : Program) (l : Terrain) (w : Demand) (i : Init) : Prop :=
  ∀ plays scope s, i.Regular ⟨l, plays⟩ →
    Proceeds p ⟨l, plays⟩ scope (Check.initStmt w scope i) s fun _ _ => True

/-- Runs over a statement keep types proper, wherever it stands. -/
def Stmt.KeepsTypes (p : Program) (l : Terrain) (w : Demand) (st : Stmt) : Prop :=
  ∀ plays scope s, st.Regular ⟨l, plays⟩ →
    Proceeds p ⟨l, plays⟩ scope (Check.stmt w scope st) s fun _ _ => True

variable {p : Program} {l : Terrain} {g : Ground} {w : Demand} {scope : ScopeId}
  {s : AnalysisState}

namespace Check

/-! ### Declarations and assignments -/

theorem declareVars_proceeds (inside : ScopeId) {decls : List VarDecl}
    (hd : ∀ d ∈ decls, d.Regular g) (explicit : List (Option Ty)) {types : List Ty}
    (ht : typesProper types) :
    Proceeds p g scope (declareVars inside decls explicit types) s fun _ _ => True := by
  induction decls generalizing s explicit types with
  | nil => exact .pure trivial
  | cons d rest ih =>
    rw [List.forall_mem_cons] at hd
    match explicit, types, ht with
    | [], _, _ => exact .pure trivial
    | _ :: _, [], _ => exact .pure trivial
    | expected :: explicit, type :: types, ht =>
      rw [typesProper] at ht
      refine .check (expectTypeIf_yields hd.1.info.place _ _) fun _ _ => ?_
      refine .bind (declareVar_proceeds hd.1.info.place _ ht.1 _) fun _ _ _ _ => ?_
      exact ih hd.2 explicit ht.2

theorem declareLoopVars_proceeds (inside : ScopeId) {params : List Param}
    (hp : ∀ q ∈ params, q.Regular g) {types : List Ty} (ht : typesProper types) :
    Proceeds p g scope (declareLoopVars inside params types) s fun _ _ => True := by
  induction params generalizing s types with
  | nil => exact .pure trivial
  | cons q rest ih =>
    rw [List.forall_mem_cons] at hp
    match types, ht with
    | [], _ => exact .pure trivial
    | type :: types, ht =>
      rw [typesProper] at ht
      refine .check (.denoted? hp.1.type) fun _ _ => ?_
      refine .check (expectTypeIf_yields hp.1.info.place _ _) fun _ _ => ?_
      refine .bind (declareVar_proceeds hp.1.info.place _ ht.1 _) fun _ _ _ _ => ?_
      exact ih hp.2 ht.2

theorem checkAssignable_proceeds {target : Expr} (ht : target.Regular g) :
    Proceeds p g scope (checkAssignable target) s fun _ _ => True := by
  unfold checkAssignable
  split
  · exact .pure trivial
  · exact .pure trivial
  · refine .get ?_
    dsimp only
    generalize Option.any _ _ = assignable
    split
    · exact .pure trivial
    · exact .fail ht.position
  · exact .fail ht.position

theorem assignTargets_proceeds {targets : List Expr} (htargets : exprsRegular g targets)
    (hints : List (Option Ty)) {types : List Ty} (ht : typesProper types) :
    Proceeds p g scope (assignTargets targets hints types) s fun _ _ => True := by
  induction targets generalizing s hints types with
  | nil => exact .pure trivial
  | cons target rest ih =>
    rw [exprsRegular] at htargets
    match hints, types, ht with
    | [], _, _ => exact .pure trivial
    | _ :: _, [], _ => exact .pure trivial
    | hint :: hints, type :: types, ht =>
      rw [typesProper] at ht
      have hfirst : Proceeds p g scope (assignTarget target hint type) s fun _ _ => True := by
        cases hint with
        | none => exact (setType_proceeds (.inl ht.1)).imp fun _ _ _ _ => trivial
        | some expected =>
          exact .check (expectType_yields htargets.1.position _ _) fun _ _ =>
            checkAssignable_proceeds htargets.1
      exact .bind hfirst fun _ _ _ _ => ih htargets.2 hints ht.2

theorem expectBool_yields {condition : Expr} (hc : condition.Regular g) (type : Ty) :
    Yields g.place (expectType .bool type condition.position) fun _ => True :=
  (expectType_yields hc.position _ _).imp fun _ _ => trivial

/-- A condition comes first. -/
theorem condition_proceeds {α : Type} {condition : Expr} {f : Check α}
    {post : α → AnalysisState → Prop} (h : condition.KeepsTypes p g.toTerrain w)
    (hc : condition.Regular g) (hf : ∀ t, Proceeds p g scope f t post) :
    Proceeds p g scope (do
      let type ← expr w scope (some .bool) condition
      expectType .bool type condition.position
      f) s post := by
  refine .bind (h.proper hc (hintProper_some Ty.bool_proper)) fun type t _ _ => ?_
  refine .check (expectBool_yields hc type) fun _ _ => ?_
  exact hf t

/-! ### Lists of statements -/

theorem stmts_proceeds {ss : List Stmt} (h : ∀ st ∈ ss, st.KeepsTypes p g.toTerrain w)
    (hs : stmtsRegular g ss) : Proceeds p g scope (stmts w scope ss) s fun _ _ => True := by
  induction ss generalizing s with
  | nil =>
    rw [stmts]
    exact .pure trivial
  | cons st rest ih =>
    rw [List.forall_mem_cons] at h
    rw [stmtsRegular] at hs
    rw [stmts]
    exact .bind (h.1 _ _ _ hs.1) fun _ _ _ _ => ih h.2 hs.2

theorem block_keepsTypes (info : NodeInfo) {ss : List Stmt}
    (h : ∀ st ∈ ss, st.KeepsTypes p l w) : (Block.mk info ss).KeepsTypes p l w := by
  intro plays scope s hb
  rw [Block.Regular] at hb
  rw [block]
  exact openBlock_bind_proceeds _ fun inner _ => stmts_proceeds h hb.2

theorem optionalBlock_proceeds {b : Option Block} (h : ∀ b' ∈ b, b'.KeepsTypes p g.toTerrain w)
    (hb : blockRegular g b) :
    Proceeds p g scope (optionalBlock w scope b) s fun _ _ => True := by
  cases b with
  | none =>
    rw [optionalBlock]
    exact .pure trivial
  | some b =>
    rw [blockRegular] at hb
    rw [optionalBlock]
    exact h b rfl _ _ _ hb

theorem initStmts_proceeds {is : List Init} (h : ∀ i ∈ is, i.KeepsTypes p g.toTerrain w)
    (hi : initsRegular g is) : Proceeds p g scope (initStmts w scope is) s fun _ _ => True := by
  induction is generalizing s with
  | nil =>
    rw [initStmts]
    exact .pure trivial
  | cons i rest ih =>
    rw [List.forall_mem_cons] at h
    rw [initsRegular] at hi
    rw [initStmts]
    exact .bind (h.1 _ _ _ hi.1) fun _ _ _ _ => ih h.2 hi.2

theorem arms_proceeds {whens : List (Expr × Block)}
    (h : ∀ a ∈ whens, a.1.KeepsTypes p g.toTerrain w ∧ a.2.KeepsTypes p g.toTerrain w)
    (ha : armsRegular g whens) : Proceeds p g scope (arms w scope whens) s fun _ _ => True := by
  induction whens generalizing s with
  | nil =>
    rw [arms]
    exact .pure trivial
  | cons a rest ih =>
    obtain ⟨condition, body⟩ := a
    rw [List.forall_mem_cons] at h
    rw [armsRegular] at ha
    rw [arms]
    exact condition_proceeds h.1.1 ha.1 fun _ => .bind (h.1.2 _ _ _ ha.2.1) fun _ _ _ _ =>
      ih h.2 ha.2.2

theorem valueArms_proceeds {whens : List (List Expr × Block)}
    (h : ∀ a ∈ whens, (∀ e ∈ a.1, e.KeepsTypes p g.toTerrain w) ∧
      a.2.KeepsTypes p g.toTerrain w)
    (ha : valueArmsRegular g whens) {type : Ty} (ht : type.Proper) :
    Proceeds p g scope (valueArms w scope type whens) s fun _ _ => True := by
  induction whens generalizing s with
  | nil =>
    rw [valueArms]
    exact .pure trivial
  | cons a rest ih =>
    obtain ⟨es, body⟩ := a
    rw [List.forall_mem_cons] at h
    rw [valueArmsRegular] at ha
    rw [valueArms]
    refine .bind (sameType_proceeds h.1.1 ha.1 ht) fun _ _ _ _ => ?_
    refine .bind (h.1.2 _ _ _ ha.2.1) fun _ _ _ _ => ?_
    exact ih h.2 ha.2.2

/-- The types of annotations on declared names. -/
theorem explicit_yields {decls : List VarDecl} (hd : ∀ d ∈ decls, d.Regular g) :
    Yields g.place (decls.mapM fun d => denoted? d.type) HintsProper := by
  induction decls with
  | nil =>
    rw [List.mapM_nil]
    exact .pure hintsProper_nil
  | cons d rest ih =>
    rw [List.forall_mem_cons] at hd
    rw [List.mapM_cons]
    refine .bind (.denoted? hd.1.type) fun _ hfirst => ?_
    refine .bind (ih hd.2) fun _ hrest => ?_
    exact .pure (List.forall_mem_cons.mpr ⟨hfirst, hrest⟩)

theorem init_keepsTypes (info : NodeInfo) (decls : List VarDecl) {es : List Expr}
    (h : ∀ e ∈ es, e.KeepsTypes p l w) : (Init.mk info decls es).KeepsTypes p l w := by
  intro plays scope s hi
  rw [Init.Regular] at hi
  obtain ⟨hinfo, hdecls, hes⟩ := hi
  rw [initStmt]
  refine .check (explicit_yields hdecls) fun explicit hexplicit => ?_
  have hvalues : Proceeds p ⟨l, plays⟩ scope (if es.isEmpty then declaredTypes decls explicit
      else values w scope explicit info.span.start es) s fun types _ => typesProper types := by
    split
    · exact .yields (declaredTypes_yields (fun d hm => (hdecls d hm).info.place) hexplicit)
    · exact values_proceeds h hes hexplicit hinfo.place
  exact .bind hvalues fun types _ _ htypes => declareVars_proceeds scope hdecls explicit htypes

end Check

/-! ### Statements -/

namespace Stmt

open Check

theorem init_keepsTypes (hw : w.KeepsTypes p l) {i : Init} (h : i.KeepsTypes p l w) :
    (Stmt.init i).KeepsTypes p l w := by
  intro plays scope s hs
  rw [Stmt.Regular] at hs
  rw [stmt_init]
  obtain ⟨info, decls, values⟩ := i
  exact stating_proceeds hw hs.stated (h _ _ _ hs)

variable (hw : w.KeepsTypes p l) (info : NodeInfo)
include hw

theorem expr_keepsTypes {e : Expr} (h : e.KeepsTypes p l w) : (Stmt.expr e).KeepsTypes p l w := by
  intro plays scope s hs
  rw [Stmt.Regular] at hs
  rw [stmt]
  have hvalue : Proceeds p ⟨l, plays⟩ scope (Check.expr w scope none e >>= fun _ => pure ()) s
      fun _ t => ∃ type, t.types[e.id]? = some type ∧ type.Proper :=
    .bind (h _ _ _ _ hs hintProper_none) fun type _ _ ht => .pure ⟨type, ht.2, ht.1⟩
  have hleave : ∀ (_ : Unit) (t : AnalysisState), Standing p ⟨l, plays⟩ scope t →
      (∃ type, t.types[e.id]? = some type ∧ type.Proper) → (Visit.leave e.id).Clear p t :=
    fun _ _ _ ht => .inr ht
  exact (visiting_proceeds hw e.id hvalue hleave).imp fun _ _ _ _ => trivial

theorem assign_keepsTypes (op : Option BinaryOp) {ts es : List Expr}
    (ht : ∀ e ∈ ts, e.KeepsTypes p l w) (he : ∀ e ∈ es, e.KeepsTypes p l w) :
    (Stmt.assign info ts op es).KeepsTypes p l w := by
  intro plays scope s hs
  rw [Stmt.Regular] at hs
  obtain ⟨hinfo, hts, hes⟩ := hs
  cases op with
  | none =>
    rw [stmt]
    exact stating_proceeds hw hinfo (.bind (targets_proceeds ht hts) fun hints _ _ hhints =>
      .bind (values_proceeds he hes hhints hinfo.place) fun types _ _ htypes =>
        assignTargets_proceeds hts hints htypes)
  | some op =>
    by_cases hone : ∃ target value, ts = [target] ∧ es = [value]
    · obtain ⟨target, value, rfl, rfl⟩ := hone
      rw [List.forall_mem_singleton] at ht he
      simp only [exprsRegular, and_true] at hts hes
      rw [stmt]
      exact stating_proceeds hw hinfo (.bind (ht.proper hts hintProper_none) fun type _ _ htype =>
        .bind (he.proper hes (hintProper_some htype)) fun _ _ _ _ =>
          .check (expectType_yields hes.position _ _) fun _ _ =>
            .check (expectOperand_yields hts.position op type) fun _ _ =>
              checkAssignable_proceeds hts)
    · rw [stmt]
      · exact stating_proceeds hw hinfo (.fail hinfo.place)
      · intro target value hts hes
        exact hone ⟨target, value, hts, hes⟩

theorem ifElse_keepsTypes (kind : IfKind) {condition : Expr} {thenBlock : Block}
    {elseifs : List (Expr × Block)} {elseBlock : Option Block} (hc : condition.KeepsTypes p l w)
    (ht : thenBlock.KeepsTypes p l w)
    (ha : ∀ a ∈ elseifs, a.1.KeepsTypes p l w ∧ a.2.KeepsTypes p l w)
    (he : ∀ b ∈ elseBlock, b.KeepsTypes p l w) :
    (Stmt.ifElse info kind condition thenBlock elseifs elseBlock).KeepsTypes p l w := by
  intro plays scope s hs
  rw [Stmt.Regular] at hs
  obtain ⟨hinfo, hcondition, hthen, helseifs, helse⟩ := hs
  rw [stmt]
  exact stating_proceeds hw hinfo (condition_proceeds hc hcondition fun _ =>
    .bind (ht _ _ _ hthen) fun _ _ _ _ => .bind (arms_proceeds ha helseifs) fun _ _ _ _ =>
      optionalBlock_proceeds he helse)

/-- The values of a return statement decide the result type of the function around it. -/
theorem ret_keepsTypes {es : List Expr} (h : ∀ e ∈ es, e.KeepsTypes p l w) :
    (Stmt.ret info es).KeepsTypes p l w := by
  intro plays scope s hs
  rw [Stmt.Regular] at hs
  rw [stmt]
  have hcurrent : Proceeds p ⟨l, plays⟩ scope (currentFunc? scope) s fun found t =>
      t = s ∧ ∀ id f, found = some (id, f) → s.store.func? id = some f := by
    refine .store (.pure ⟨rfl, fun id f hfound => ?_⟩)
    obtain ⟨inside, -, hfound⟩ := Option.bind_eq_some_iff.mp hfound
    obtain ⟨id', -, hfound⟩ := Option.bind_eq_some_iff.mp hfound
    obtain ⟨f', hf, hfound⟩ := Option.bind_eq_some_iff.mp hfound
    cases hfound
    exact hf
  refine stating_proceeds hw hs.1 (.standing fun hstanding => .bind hcurrent
    fun found t _ hfound => ?_)
  obtain ⟨rfl, hfound⟩ := hfound
  cases found with
  | none => exact .fail hs.1.place
  | some found =>
    obtain ⟨id, f⟩ := found
    have hret := (hstanding.kept.func (hfound id f rfl)).ret
    exact .bind (exprs_proceeds h hs.2 (returnHints_proper hret _)) fun types _ _ htypes =>
      returnType_proceeds id (joinTypes_proper htypes.1) hs.1.place

theorem case_keepsTypes {whens : List (Expr × Block)} {elseBlock : Option Block}
    (ha : ∀ a ∈ whens, a.1.KeepsTypes p l w ∧ a.2.KeepsTypes p l w)
    (he : ∀ b ∈ elseBlock, b.KeepsTypes p l w) :
    (Stmt.case info whens elseBlock).KeepsTypes p l w := by
  intro plays scope s hs
  rw [Stmt.Regular] at hs
  rw [stmt]
  exact stating_proceeds hw hs.1 (.bind (arms_proceeds ha hs.2.1) fun _ _ _ _ =>
    optionalBlock_proceeds he hs.2.2)

theorem switch_keepsTypes {target : Expr} {whens : List (List Expr × Block)}
    {elseBlock : Option Block} (ht : target.KeepsTypes p l w)
    (ha : ∀ a ∈ whens, (∀ e ∈ a.1, e.KeepsTypes p l w) ∧ a.2.KeepsTypes p l w)
    (he : ∀ b ∈ elseBlock, b.KeepsTypes p l w) :
    (Stmt.switch info target whens elseBlock).KeepsTypes p l w := by
  intro plays scope s hs
  rw [Stmt.Regular] at hs
  obtain ⟨hinfo, htarget, hwhens, helse⟩ := hs
  rw [stmt]
  exact stating_proceeds hw hinfo (.bind (ht.proper htarget hintProper_none) fun _ _ _ htype =>
    .bind (valueArms_proceeds ha hwhens htype) fun _ _ _ _ => optionalBlock_proceeds he helse)

theorem whileDo_keepsTypes {condition : Expr} {body : Block} (hc : condition.KeepsTypes p l w)
    (hb : body.KeepsTypes p l w) : (Stmt.whileDo info condition body).KeepsTypes p l w := by
  intro plays scope s hs
  rw [Stmt.Regular] at hs
  rw [stmt]
  exact stating_proceeds hw hs.1 (condition_proceeds hc hs.2.1 fun _ => hb _ _ _ hs.2.2)

theorem guarded_keepsTypes {body : Stmt} (kind : IfKind) {condition : Expr}
    (hb : body.KeepsTypes p l w) (hc : condition.KeepsTypes p l w) :
    (Stmt.guarded info body kind condition).KeepsTypes p l w := by
  intro plays scope s hs
  rw [Stmt.Regular] at hs
  rw [stmt]
  exact stating_proceeds hw hs.1 (.bind (hb _ _ _ hs.2.1) fun _ _ _ _ =>
    .bind (hc.proper hs.2.2 (hintProper_some Ty.bool_proper)) fun type _ _ _ =>
      .yields (expectBool_yields hs.2.2 type))

theorem forIn_keepsTypes (bodyInfo : NodeInfo) (vars : List Param) {range : Expr}
    {ss : List Stmt} (hrange : range.KeepsTypes p l w) (h : ∀ st ∈ ss, st.KeepsTypes p l w) :
    (Stmt.forIn info vars range ⟨bodyInfo, ss⟩).KeepsTypes p l w := by
  intro plays scope s hs
  rw [Stmt.Regular, Block.Regular] at hs
  obtain ⟨hinfo, hvars, hranged, -, hbody⟩ := hs
  rw [stmt]
  refine stating_proceeds hw hinfo (.bind (hrange.proper hranged hintProper_none)
    fun type _ _ htype => ?_)
  split
  · exact .fail hranged.position
  · next elem helem =>
    exact .check (loopTypes_yields hinfo.place _ (htype.element? helem)) fun types htypes =>
      openBlock_bind_proceeds _ fun inner _ => .bind (declareLoopVars_proceeds inner hvars htypes)
        fun _ _ _ _ => stmts_proceeds h hbody

theorem letIn_keepsTypes {inits : List Init} {child : Stmt} (hi : ∀ i ∈ inits, i.KeepsTypes p l w)
    (hc : child.KeepsTypes p l w) : (Stmt.letIn info inits child).KeepsTypes p l w := by
  intro plays scope s hs
  rw [Stmt.Regular] at hs
  rw [stmt]
  exact stating_proceeds hw hs.1 (openBlock_bind_proceeds _ fun inner _ =>
    .bind (initStmts_proceeds hi hs.2.1) fun _ _ _ _ => hc _ _ _ hs.2.2)

end Stmt

end Frontend
