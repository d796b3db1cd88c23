import Frontend.Proofs.Analysis.Binding

/-!
# Walks over statements

One lemma for each form of statement. A walk over a statement resolves its sites and leaves a scope
behind that matches the layers around it with what the statement declares added to the innermost;
a walk over a block leaves the scopes around it as they were.
-/

namespace Frontend

open Check

/-- A run over a block, inside of a function, resolves its sites. -/
def Block.Walks (p : Program) (stack : List Nat) (w : Demand) (b : Block) : Prop :=
  ∀ ⦃s : AnalysisState⦄ ⦃env : Env⦄ ⦃scope : ScopeId⦄ ⦃home : FuncId⦄,
    Ready p stack s env scope b.ids → s.store.Within scope home →
    Ensures (Rejected p) (block w scope b) s fun _ t => Walk p none b.ids (b.sites env) b.targets s t

/-- A run over an initialize statement resolves its sites and declares its variables. -/
def Init.Walks (p : Program) (stack : List Nat) (w : Demand) (i : Init) : Prop :=
  ∀ ⦃s : AnalysisState⦄ ⦃env : Env⦄ ⦃scope : ScopeId⦄, Ready p stack s env scope i.ids →
    s.store.isBlock scope = true → Ensures (Rejected p) (initStmt w scope i) s fun _ t =>
      Walk p (some scope) i.ids (i.sites env) i.targets s t ∧
        (env.declare i.declares).Matches t scope

/-- A run over a statement, inside of a function, resolves its sites and declares its variables. -/
def Stmt.Walks (p : Program) (stack : List Nat) (w : Demand) (st : Stmt) : Prop :=
  ∀ ⦃s : AnalysisState⦄ ⦃env : Env⦄ ⦃scope : ScopeId⦄ ⦃home : FuncId⦄,
    Ready p stack s env scope st.ids → s.store.isBlock scope = true → s.store.Within scope home →
    Ensures (Rejected p) (stmt w scope st) s fun _ t =>
      Walk p (some scope) st.ids (st.sites env) st.targets s t ∧
        (env.declare st.declares).Matches t scope

variable {p : Program} {stack : List Nat} {w : Demand} {s t u : AnalysisState} {env : Env}
  {scope : ScopeId} {home : FuncId}

namespace Check

/-- A definition is analysed between two marks; the visits leave the state alone. -/
theorem analysing_ensures (hw : w.Sound p stack) {act : Check Unit} {node : Nat} (hi : Inv p s)
    (hbegin : Orderly p stack (.begin node) s) {post : Unit → AnalysisState → Prop}
    (h : Ensures (Rejected p) act (s.mark node .inProgress) fun _ t =>
      (Inv p (t.mark node .done) ∧ Orderly p stack (.finish node) (t.mark node .done)) ∧
        post () (t.mark node .done)) :
    Ensures (Rejected p) (analysing w node act) s post := by
  refine .bind ((hw.visit (.begin node) hi hbegin).imp fun _ t _ heq => ?_)
  subst heq
  refine .bind (.modify (.bind (h.imp fun _ u _ ha => .bind (.modify ?_))))
  refine (hw.visit (.finish node) ha.1.1 ha.1.2).imp fun _ v _ heq => ?_
  subst heq
  exact ha.2

/-- A statement is visited where it may be walked over. -/
theorem visitingStmt_ensures (hw : w.Sound p stack) {st : Stmt}
    (hr : Ready p stack s env scope st.ids) {act : Check Unit}
    (h : Ensures (Rejected p) act s fun _ t =>
      Walk p (some scope) st.ids (st.sites env) st.targets s t ∧
        (env.declare st.declares).Matches t scope) :
    Ensures (Rejected p) (visiting w st.info.id act) s fun _ t =>
      Walk p (some scope) st.ids (st.sites env) st.targets s t ∧
        (env.declare st.declares).Matches t scope := by
  have henter : Orderly p stack (.enter st.info.id) s :=
    hr.nested.orderly hr.inv nofun nofun nofun
  refine .bind ((hw.visit (.enter st.info.id) hr.inv henter).imp fun _ t _ heq => ?_)
  subst heq
  refine .bind (h.imp fun _ u _ ha => ?_)
  have hleave : Orderly p stack (.leave st.info.id) u :=
    (hr.nested.step ha.1.step).orderly ha.1.step.inv nofun nofun nofun
  refine .bind ((hw.visit (.leave st.info.id) ha.1.step.inv hleave).imp fun _ v _ heq => .pure ?_)
  subst heq
  exact ha

end Check

/-! ### Lists of statements -/

theorem stmts_ensures {ss : List Stmt} (h : ∀ st ∈ ss, st.Walks p stack w)
    (hr : Ready p stack s env scope (stmtIds ss)) (hblock : s.store.isBlock scope = true)
    (hwithin : s.store.Within scope home) :
    Ensures (Rejected p) (stmts w scope ss) s fun _ t =>
      Walk p (some scope) (stmtIds ss) (stmtsSites env ss) (stmtsTargets ss) s t := by
  induction ss generalizing s env with
  | nil =>
    rw [stmts]
    refine .pure ?_
    simp only [stmtIds, stmtsSites, stmtsTargets]
    exact .nil hr.inv
  | cons st rest ih =>
    rw [List.forall_mem_cons] at h
    simp only [stmtIds] at hr
    rw [stmts]
    refine .bind ((h.1 hr.left hblock hwithin).imp fun _ t _ hst => ?_)
    have hgrows := hst.1.step.grows.store
    refine (ih h.2 (hr.next hst.1.step hst.2) (hgrows.isBlock hblock) (hwithin.grows hgrows)).imp
      fun _ u _ hrest => ?_
    simp only [stmtIds, stmtsSites, stmtsTargets]
    exact hst.1.append hr hrest

theorem initStmts_ensures {inits : List Init} (h : ∀ i ∈ inits, i.Walks p stack w)
    (hr : Ready p stack s env scope (initIds inits)) (hblock : s.store.isBlock scope = true) :
    Ensures (Rejected p) (initStmts w scope inits) s fun _ t =>
      Walk p (some scope) (initIds inits) (initsSites env inits) (initsTargets inits) s t ∧
        (env.declare (inits.flatMap Init.declares)).Matches t scope := by
  induction inits generalizing s env with
  | nil =>
    rw [initStmts]
    refine .pure ⟨?_, ?_⟩
    · simp only [initIds, initsSites, initsTargets]
      exact .nil hr.inv
    · rw [List.flatMap_nil, Env.declare_nil]
      exact hr.env
  | cons i rest ih =>
    rw [List.forall_mem_cons] at h
    simp only [initIds] at hr
    rw [initStmts]
    refine .bind ((h.1 hr.left hblock).imp fun _ t _ hinit => ?_)
    refine (ih h.2 (hr.next hinit.1.step hinit.2) (hinit.1.step.grows.store.isBlock hblock)).imp
      fun _ u _ hrest => ?_
    simp only [initIds, initsSites, initsTargets, List.flatMap_cons]
    rw [Env.declare_append]
    exact ⟨hinit.1.append hr hrest.1, hrest.2⟩

theorem arms_ensures {whens : List (Expr × Block)}
    (h : ∀ a ∈ whens, a.1.Walks p stack w ∧ a.2.Walks p stack w)
    (hr : Ready p stack s env scope (armIds whens)) (hwithin : s.store.Within scope home) :
    Ensures (Rejected p) (arms w scope whens) s fun _ t =>
      Walk p none (armIds whens) (armsSites env whens) (armsTargets whens) s t := by
  induction whens generalizing s with
  | nil =>
    rw [arms]
    refine .pure ?_
    simp only [armIds, armsSites, armsTargets]
    exact .nil hr.inv
  | cons a rest ih =>
    obtain ⟨condition, body⟩ := a
    rw [List.forall_mem_cons] at h
    simp only [armIds, List.append_assoc] at hr
    rw [arms]
    refine .bind ((h.1.1 (some .bool) hr.left).imp fun type t _ hc => ?_)
    refine .bind (expectType_ensures hc.1.step.inv fun _ => ?_)
    have hrb := hr.right hc.1.step
    have hwithin' := hwithin.grows hc.1.step.grows.store
    refine .bind ((h.1.2 hrb.left hwithin').imp fun _ u _ hb => ?_)
    refine (ih h.2 (hrb.right hb.step) (hwithin'.grows hb.step.grows.store)).imp
      fun _ v _ hrest => ?_
    simp only [armIds, armsSites, armsTargets, List.append_assoc]
    exact hc.1.append hr (hb.append hrb hrest)

theorem valueArms_ensures {whens : List (List Expr × Block)}
    (h : ∀ a ∈ whens, (∀ e ∈ a.1, e.Walks p stack w) ∧ a.2.Walks p stack w) (type : Ty)
    (hr : Ready p stack s env scope (valueArmIds whens)) (hwithin : s.store.Within scope home) :
    Ensures (Rejected p) (valueArms w scope type whens) s fun _ t =>
      Walk p none (valueArmIds whens) (valueArmsSites env whens) (valueArmsTargets whens) s t := by
  induction whens generalizing s with
  | nil =>
    rw [valueArms]
    refine .pure ?_
    simp only [valueArmIds, valueArmsSites, valueArmsTargets]
    exact .nil hr.inv
  | cons a rest ih =>
    obtain ⟨es, body⟩ := a
    rw [List.forall_mem_cons] at h
    simp only [valueArmIds, List.append_assoc] at hr
    rw [valueArms]
    refine .bind ((sameType_ensures h.1.1 type hr.left).imp fun _ t _ he => ?_)
    have hrb := hr.right he.1.step
    have hwithin' := hwithin.grows he.1.step.grows.store
    refine .bind ((h.1.2 hrb.left hwithin').imp fun _ u _ hb => ?_)
    refine (ih h.2 (hrb.right hb.step) (hwithin'.grows hb.step.grows.store)).imp
      fun _ v _ hrest => ?_
    simp only [valueArmIds, valueArmsSites, valueArmsTargets, List.append_assoc]
    exact he.1.append hr (hb.append hrb hrest)

/-! ### Blocks -/

theorem block_walks (info : NodeInfo) {ss : List Stmt} (h : ∀ st ∈ ss, st.Walks p stack w) :
    (Block.mk info ss).Walks p stack w := by
  intro s env scope home hr hwithin
  simp only [Block.ids] at hr
  have hr' : Ready p stack s env scope ([info.id] ++ stmtIds ss) := hr
  rw [block]
  refine .bind ((openBlock_ensures hr'.left hwithin).imp fun inner t _ ho => ?_)
  obtain ⟨hwo, hnew, hmatches, hblock, hinner⟩ := ho
  refine (stmts_ensures h (hr'.next hwo.step hmatches) hblock hinner).imp fun _ u _ hss => ?_
  simp only [Block.ids, Block.sites, Block.targets]
  refine hwo.append' hr' hss (.inr fun id heq => ?_)
  cases heq
  exact hnew

theorem optionalBlock_ensures {b : Option Block} (h : ∀ b' ∈ b, b'.Walks p stack w)
    (hr : Ready p stack s env scope (blockIds b)) (hwithin : s.store.Within scope home) :
    Ensures (Rejected p) (optionalBlock w scope b) s fun _ t =>
      Walk p none (blockIds b) (optionalSites env b) (optionalTargets b) s t := by
  cases b with
  | none =>
    rw [optionalBlock]
    refine .pure ?_
    simp only [blockIds, optionalSites, optionalTargets]
    exact .nil hr.inv
  | some b =>
    rw [optionalBlock]
    simp only [blockIds, optionalSites, optionalTargets] at hr ⊢
    exact h b rfl hr hwithin

/-! ### Forms of statements -/

/-- What a statement leaves behind whose parts declare nothing in the block around it. -/
private theorem stmt_of_walk {st : Stmt} {ids : List Nat} {sites : List Site} {targets : List Expr}
    (hr : Ready p stack s env scope ids) (h : Walk p none ids sites targets s t)
    (hids : ids ⊆ st.ids) (hsites : st.sites env ⊆ sites) (htargets : st.targets ⊆ targets)
    (hdeclares : st.declares = []) :
    Walk p (some scope) st.ids (st.sites env) st.targets s t ∧
      (env.declare st.declares).Matches t scope := by
  refine ⟨(h.mono hids hsites htargets).lift, ?_⟩
  rw [hdeclares, Env.declare_nil]
  exact h.step.matches_env hr.inv hr.env fun _ _ => nofun

theorem init_walks (info : NodeInfo) {decls : List VarDecl} {es : List Expr}
    (htyped : es = [] → ∀ d ∈ decls, d.type.isSome) (h : ∀ e ∈ es, e.Walks p stack w) :
    (Init.mk info decls es).Walks p stack w := by
  intro s env scope hr hblock
  have hids : (exprIds es ++ decls.map (·.info.id)) ⊆ (Init.mk info decls es).ids := by
    intro node hm
    simp only [Init.ids, List.mem_cons, List.mem_append] at hm ⊢
    exact .inr (hm.symm.imp (fun hd => (heads_sublist VarDecl.head_sublist decls).subset hd) id)
  have hparts : Ready p stack s env scope (exprIds es ++ decls.map (·.info.id)) := by
    simp only [Init.ids] at hr
    exact (hr.sublist (((heads_sublist VarDecl.head_sublist decls).append
      (List.Sublist.refl _)).cons info.id)).perm
      List.perm_append_comm
  rw [initStmt]
  refine .bind ((explicitTypes_ensures hr.inv decls).imp fun explicit t _ hexplicit => ?_)
  obtain ⟨rfl, hlen, hknown⟩ := hexplicit
  have hvalues : Ensures (Rejected p)
      (if es.isEmpty then declaredTypes decls explicit
        else values w scope explicit info.span.start es) t fun types u =>
      Walk p none (exprIds es) (exprsSites env es) (exprsTargets es) t u ∧
        types.length = decls.length := by
    split
    · next hempty =>
      have hnil : es = [] := List.isEmpty_iff.mp hempty
      subst hnil
      refine (declaredTypes_ensures decls explicit hlen
        (hknown (htyped rfl))).imp fun types u _ hd => ?_
      obtain ⟨rfl, hl⟩ := hd
      simp only [exprIds, exprsSites, exprsTargets]
      exact ⟨.nil hr.inv, hl⟩
    · refine (values_ensures h explicit _ hparts.left).imp fun types u _ hv => ?_
      exact ⟨hv.1, hv.2.trans hlen⟩
  refine .bind (hvalues.imp fun types u _ hv => ?_)
  obtain ⟨hwv, htypes⟩ := hv
  refine (declareVars_ensures (hparts.right hwv.step) (hwv.step.grows.store.isBlock hblock) hlen
    htypes).imp fun _ x _ hd => ?_
  refine ⟨(hwv.lift.append hparts hd.1).mono hids ?_ ?_, hd.2⟩
  · simp only [Init.sites]
    exact fun _ h => h
  · simp only [Init.targets]
    exact List.subset_append_left _ _

theorem Stmt.init_walks (hw : w.Sound p stack) {i : Init} (h : i.Walks p stack w) :
    (Stmt.init i).Walks p stack w := by
  intro s env scope home hr hblock hwithin
  rw [stmt_init]
  refine visitingStmt_ensures hw hr ?_
  simp only [Stmt.ids, Stmt.sites_init, Stmt.targets_init, Stmt.declares] at hr ⊢
  exact h hr hblock

theorem Stmt.expr_walks (hw : w.Sound p stack) {e : Expr} (h : e.Walks p stack w) :
    (Stmt.expr e).Walks p stack w := by
  intro s env scope home hr _ _
  have hparts := hr
  simp only [Stmt.ids] at hparts
  rw [stmt]
  refine visitingStmt_ensures hw hr (.bind ((h none hparts).imp fun type t _ he => .pure ?_))
  refine stmt_of_walk hparts he.1 ?_ ?_ ?_ rfl
  · simp only [Stmt.ids]
    exact fun _ h => h
  · simp only [Stmt.sites]
    exact fun _ h => h
  · simp only [Stmt.targets]
    exact fun _ h => h

/-- The function that a scope lies in is found with its symbol. -/
theorem currentFunc?_ensures (hi : Inv p s) (hwithin : s.store.Within scope home)
    {refuse : Failure → AnalysisState → Prop} :
    Ensures refuse (currentFunc? scope) s fun current t =>
      t = s ∧ ∃ f, current = some (home, f) ∧ s.store.func? home = some f := by
  obtain ⟨inside, hinside, hhome⟩ := Option.bind_eq_some_iff.mp hwithin.enclosingFunction
  obtain ⟨f, hf⟩ := Option.isSome_iff_exists.mp (hi.linked hhome)
  refine .bind (.store (.pure ⟨rfl, f, ?_, hf⟩))
  simp only [hinside, hhome, hf, Option.bind_eq_bind, Option.bind_some, Option.pure_def]

/-- A return statement that is not admitted in a procedure is not reported as lying in no
function. -/
theorem not_isStrayReturn_procedure (name : String) (position : Position) :
    ¬ Error.IsStrayReturn ⟨.invalidReturn ("procedure `" ++ name ++ "` cannot return a value"),
      position⟩ := by
  intro h
  have htext := congrArg String.toList (Cause.invalidReturn.inj h)
  simp [String.toList_append] at htext

/-- The first return of a function decides its result type. -/
theorem returnType_ensures (hi : Inv p s) {id : FuncId} {f : FuncSymbol}
    (hf : s.store.func? id = some f) (type : Ty) (position : Position) :
    Ensures (Rejected p) (returnType id type position) s fun _ t => Step p none [] s t := by
  refine .bind (func_ensures hf ?_)
  split
  · split
    · exact .pure (.refl hi)
    · exact .fail (hi.rejected _ (not_isStrayReturn_procedure _ _))
  · split
    · exact expectType_ensures hi fun _ => .refl hi
    · exact (setRet_ensures hi hf type).imp fun _ _ _ h => h.1

theorem Stmt.ret_walks (hw : w.Sound p stack) (info : NodeInfo) {es : List Expr}
    (h : ∀ e ∈ es, e.Walks p stack w) : (Stmt.ret info es).Walks p stack w := by
  intro s env scope home hr hblock hwithin
  have hparts := hr
  simp only [Stmt.ids] at hparts
  replace hparts := hparts.sublist (List.sublist_cons_self info.id (exprIds es))
  rw [stmt]
  refine visitingStmt_ensures hw hr (.bind ((currentFunc?_ensures hr.inv hwithin).imp
    fun current t _ hcur => ?_))
  obtain ⟨rfl, f, rfl, hf⟩ := hcur
  refine .bind ((exprs_ensures h _ hparts).imp fun types u _ he => ?_)
  obtain ⟨g, hg, -⟩ := he.1.step.grows.store.func hf
  refine (returnType_ensures he.1.step.inv hg _ _).imp fun _ v _ hs => ?_
  refine stmt_of_walk hparts (he.1.andThen hparts.writable.owned hs) ?_ ?_ ?_ rfl
  · simp only [Stmt.ids]
    exact List.subset_cons_self _ _
  · simp only [Stmt.sites]
    exact fun _ h => h
  · simp only [Stmt.targets]
    exact fun _ h => h

private theorem compound_walks (hw : w.Sound p stack) (info : NodeInfo) {target value : Expr}
    (op : BinaryOp) (ht : target.Walks p stack w) (hv : value.Walks p stack w) :
    (Stmt.assign info [target] (some op) [value]).Walks p stack w := by
  intro s env scope home hr hblock hwithin
  have hparts := hr
  simp only [Stmt.ids, exprIds, List.append_nil] at hparts
  replace hparts := hparts.sublist (List.sublist_cons_self info.id (target.ids ++ value.ids))
  rw [stmt]
  refine visitingStmt_ensures hw hr (.bind ((ht none hparts.left).imp fun type t _ he => ?_))
  refine .bind ((hv (some type) (hparts.right he.1.step)).imp fun valueType u _ he' => ?_)
  refine .bind (expectType_ensures he'.1.step.inv fun _ => .bind ?_)
  have hwalk := he.1.append hparts he'.1
  unfold expectOperand
  split
  · exact .fail (he'.1.step.inv.rejected _ (by rintro ⟨⟩))
  · refine .pure ((checkAssignable_ensures he'.1.step.inv target).imp fun _ v _ hcheck => ?_)
    obtain ⟨rfl, hassignable⟩ := hcheck
    have hchecked : Found (target.ids ++ value.ids) [] [target] v :=
      ⟨List.forall_mem_nil _, List.forall_mem_singleton.mpr
        ⟨List.mem_append_left _ target.id_mem_ids, hassignable⟩⟩
    refine stmt_of_walk hparts ⟨hwalk.step, hchecked.append hwalk.found⟩ ?_ ?_ ?_ rfl
    · simp only [Stmt.ids, exprIds, List.append_nil]
      exact List.subset_cons_self _ _
    · simp only [Stmt.sites, exprsSites, List.append_nil]
      exact fun _ h => h
    · simp only [Stmt.targets, exprsTargets, List.append_nil, List.append_assoc]
      exact fun _ h => h

/-- The targets come first, then the values, then the targets are assigned to. -/
private theorem plain_walks (hw : w.Sound p stack) (info : NodeInfo) {ts es : List Expr}
    (hshape : ∀ e ∈ ts, e.asTarget = e) (ht : ∀ e ∈ ts, e.Walks p stack w)
    (he : ∀ e ∈ es, e.Walks p stack w) :
    (Stmt.assign info ts none es).Walks p stack w := by
  intro s env scope home hr hblock hwithin
  have hparts := hr
  simp only [Stmt.ids] at hparts
  replace hparts := hparts.sublist (List.sublist_cons_self info.id (exprIds ts ++ exprIds es))
  rw [stmt]
  refine visitingStmt_ensures hw hr (.bind ((targets_ensures ht hshape hparts.left).imp
    fun hints t _ h => ?_))
  obtain ⟨hs, haimed⟩ := h
  have hvalues := hparts.right hs
  refine .bind ((values_ensures he hints _ hvalues).imp fun types u _ h => ?_)
  obtain ⟨hwv, hlen⟩ := h
  have howned : ∀ node ∈ exprIds ts, Owned p t node := fun node hm =>
    hs.owns (hparts.writable.owned node (List.mem_append_left _ hm))
  have haimed' := Aimed.stays_all haimed hs.inv hwv.step howned fun _ => hparts.not_mem
  refine (assignTargets_ensures hwv.step.inv haimed' (List.nodup_append.mp hparts.writable.nodup).1
    (fun node hm => hwv.step.owns (howned node hm)) hlen).imp fun _ v _ hwa => ?_
  have hboth := hwv.join hvalues.writable.owned
    (fun node hm hm' => hparts.not_mem hm' hm) hwa (.inl rfl)
  have hsub : exprIds es ++ exprIds ts ⊆ exprIds ts ++ exprIds es := List.perm_append_comm.subset
  have hstep := (hs.trans hboth.step).mono
    (List.append_subset.mpr ⟨List.subset_append_left _ _, hsub⟩)
  refine stmt_of_walk hparts ⟨hstep, hboth.found.mono hsub (fun _ h => h) fun _ h => h⟩ ?_ ?_ ?_ rfl
  · simp only [Stmt.ids]
    exact List.subset_cons_self _ _
  · simp only [Stmt.sites]
    exact List.perm_append_comm.subset
  · simp only [Stmt.targets]
    exact List.perm_append_comm.subset

/-- A compound assignment has one target and one value. -/
theorem Stmt.assign_walks (hw : w.Sound p stack) (info : NodeInfo) {ts es : List Expr}
    (op : Option BinaryOp) (hone : op.isSome → ts.length = 1 ∧ es.length = 1)
    (hshape : ∀ e ∈ ts, e.asTarget = e) (ht : ∀ e ∈ ts, e.Walks p stack w)
    (he : ∀ e ∈ es, e.Walks p stack w) : (Stmt.assign info ts op es).Walks p stack w := by
  cases op with
  | none => exact plain_walks hw info hshape ht he
  | some op =>
    obtain ⟨target, rfl⟩ := List.length_eq_one_iff.mp (hone rfl).1
    obtain ⟨value, rfl⟩ := List.length_eq_one_iff.mp (hone rfl).2
    exact compound_walks hw info op (ht target List.mem_cons_self) (he value List.mem_cons_self)

theorem Stmt.ifElse_walks (hw : w.Sound p stack) (info : NodeInfo) (kind : IfKind)
    {condition : Expr} {thenBlock : Block} {elseifs : List (Expr × Block)}
    {elseBlock : Option Block} (hc : condition.Walks p stack w) (ht : thenBlock.Walks p stack w)
    (ha : ∀ a ∈ elseifs, a.1.Walks p stack w ∧ a.2.Walks p stack w)
    (he : ∀ b ∈ elseBlock, b.Walks p stack w) :
    (Stmt.ifElse info kind condition thenBlock elseifs elseBlock).Walks p stack w := by
  intro s env scope home hr hblock hwithin
  have hparts := hr
  simp only [Stmt.ids, List.append_assoc] at hparts
  replace hparts := hparts.sublist (List.sublist_cons_self info.id _)
  rw [stmt]
  refine visitingStmt_ensures hw hr (.bind ((hc (some .bool) hparts.left).imp
    fun type t _ hcond => ?_))
  refine .bind (expectType_ensures hcond.1.step.inv fun _ => ?_)
  have hrt := hparts.right hcond.1.step
  have hit := hwithin.grows hcond.1.step.grows.store
  refine .bind ((ht hrt.left hit).imp fun _ u _ hthen => ?_)
  have hra := hrt.right hthen.step
  have hia := hit.grows hthen.step.grows.store
  refine .bind ((arms_ensures ha hra.left hia).imp fun _ v _ harms => ?_)
  refine (optionalBlock_ensures he (hra.right harms.step)
    (hia.grows harms.step.grows.store)).imp fun _ x _ helse => ?_
  refine stmt_of_walk hparts
    (hcond.1.append hparts (hthen.append hrt (harms.append hra helse))) ?_ ?_ ?_ rfl
  · simp only [Stmt.ids, List.append_assoc]
    exact List.subset_cons_self _ _
  · simp only [Stmt.sites, List.append_assoc]
    exact fun _ h => h
  · simp only [Stmt.targets, List.append_assoc]
    exact fun _ h => h

theorem Stmt.case_walks (hw : w.Sound p stack) (info : NodeInfo) {whens : List (Expr × Block)}
    {elseBlock : Option Block} (ha : ∀ a ∈ whens, a.1.Walks p stack w ∧ a.2.Walks p stack w)
    (he : ∀ b ∈ elseBlock, b.Walks p stack w) :
    (Stmt.case info whens elseBlock).Walks p stack w := by
  intro s env scope home hr hblock hwithin
  have hparts := hr
  simp only [Stmt.ids] at hparts
  replace hparts := hparts.sublist (List.sublist_cons_self info.id _)
  rw [stmt]
  refine visitingStmt_ensures hw hr (.bind ((arms_ensures ha hparts.left hwithin).imp
    fun _ t _ harms => ?_))
  refine (optionalBlock_ensures he (hparts.right harms.step)
    (hwithin.grows harms.step.grows.store)).imp fun _ u _ helse => ?_
  refine stmt_of_walk hparts (harms.append hparts helse) ?_ ?_ ?_ rfl
  · simp only [Stmt.ids]
    exact List.subset_cons_self _ _
  · simp only [Stmt.sites]
    exact fun _ h => h
  · simp only [Stmt.targets]
    exact fun _ h => h

theorem Stmt.switch_walks (hw : w.Sound p stack) (info : NodeInfo) {target : Expr}
    {whens : List (List Expr × Block)} {elseBlock : Option Block} (ht : target.Walks p stack w)
    (ha : ∀ a ∈ whens, (∀ e ∈ a.1, e.Walks p stack w) ∧ a.2.Walks p stack w)
    (he : ∀ b ∈ elseBlock, b.Walks p stack w) :
    (Stmt.switch info target whens elseBlock).Walks p stack w := by
  intro s env scope home hr hblock hwithin
  have hparts := hr
  simp only [Stmt.ids, List.append_assoc] at hparts
  replace hparts := hparts.sublist (List.sublist_cons_self info.id _)
  rw [stmt]
  refine visitingStmt_ensures hw hr (.bind ((ht none hparts.left).imp fun type t _ htarget => ?_))
  have hra := hparts.right htarget.1.step
  have hwithin' := hwithin.grows htarget.1.step.grows.store
  refine .bind ((valueArms_ensures ha type hra.left hwithin').imp fun _ u _ harms => ?_)
  refine (optionalBlock_ensures he (hra.right harms.step)
    (hwithin'.grows harms.step.grows.store)).imp fun _ v _ helse => ?_
  refine stmt_of_walk hparts (htarget.1.append hparts (harms.append hra helse)) ?_ ?_ ?_ rfl
  · simp only [Stmt.ids, List.append_assoc]
    exact List.subset_cons_self _ _
  · simp only [Stmt.sites, List.append_assoc]
    exact fun _ h => h
  · simp only [Stmt.targets, List.append_assoc]
    exact fun _ h => h

theorem Stmt.whileDo_walks (hw : w.Sound p stack) (info : NodeInfo) {condition : Expr}
    {body : Block} (hc : condition.Walks p stack w) (hb : body.Walks p stack w) :
    (Stmt.whileDo info condition body).Walks p stack w := by
  intro s env scope home hr hblock hwithin
  have hparts := hr
  simp only [Stmt.ids] at hparts
  replace hparts := hparts.sublist (List.sublist_cons_self info.id _)
  rw [stmt]
  refine visitingStmt_ensures hw hr (.bind ((hc (some .bool) hparts.left).imp
    fun type t _ hcond => ?_))
  refine .bind (expectType_ensures hcond.1.step.inv fun _ => ?_)
  refine (hb (hparts.right hcond.1.step) (hwithin.grows hcond.1.step.grows.store)).imp
    fun _ u _ hbody => ?_
  refine stmt_of_walk hparts (hcond.1.append hparts hbody) ?_ ?_ ?_ rfl
  · simp only [Stmt.ids]
    exact List.subset_cons_self _ _
  · simp only [Stmt.sites]
    exact fun _ h => h
  · simp only [Stmt.targets]
    exact fun _ h => h

/-- The condition behind a statement sees what the statement declares. -/
theorem Stmt.guarded_walks (hw : w.Sound p stack) (info : NodeInfo) (kind : IfKind) {body : Stmt}
    {condition : Expr} (hb : body.Walks p stack w) (hc : condition.Walks p stack w) :
    (Stmt.guarded info body kind condition).Walks p stack w := by
  intro s env scope home hr hblock hwithin
  have hparts := hr
  simp only [Stmt.ids] at hparts
  replace hparts := hparts.sublist (List.sublist_cons_self info.id _)
  rw [stmt]
  refine visitingStmt_ensures hw hr (.bind ((hb hparts.left hblock hwithin).imp
    fun _ t _ hbody => ?_))
  have hcond := hparts.next hbody.1.step hbody.2
  refine .bind ((hc (some .bool) hcond).imp fun type u _ he => ?_)
  refine expectType_ensures he.1.step.inv fun _ => ?_
  have hwalk := hbody.1.append hparts he.1.lift
  refine ⟨hwalk.mono ?_ ?_ ?_, ?_⟩
  · simp only [Stmt.ids]
    exact List.subset_cons_self _ _
  · simp only [Stmt.sites]
    exact fun _ h => h
  · simp only [Stmt.targets]
    exact fun _ h => h
  · simp only [Stmt.declares]
    exact he.1.step.matches_env hcond.inv hcond.env fun _ _ => by simp

/-- The variables of a loop are declared in the scope of its body. -/
theorem Stmt.forIn_walks (hw : w.Sound p stack) (info bodyInfo : NodeInfo) (vars : List Param)
    {range : Expr} {ss : List Stmt} (hrange : range.Walks p stack w)
    (h : ∀ st ∈ ss, st.Walks p stack w) :
    (Stmt.forIn info vars range ⟨bodyInfo, ss⟩).Walks p stack w := by
  intro s env scope home hr hblock hwithin
  have hids : range.ids ++ ([bodyInfo.id] ++ (vars.map (·.info.id) ++ stmtIds ss)) ⊆
      (Stmt.forIn info vars range ⟨bodyInfo, ss⟩).ids := by
    intro node hm
    have hsub : node ∈ vars.map (·.info.id) → node ∈ vars.flatMap Param.ids :=
      fun hv => (heads_sublist Param.head_sublist vars).subset hv
    simp only [Stmt.ids, Block.ids, List.mem_cons, List.mem_append, List.not_mem_nil,
      or_false] at hm ⊢
    tauto
  have hparts : Ready p stack s env scope
      (range.ids ++ ([bodyInfo.id] ++ (vars.map (·.info.id) ++ stmtIds ss))) := by
    have hr' := hr
    simp only [Stmt.ids, Block.ids] at hr'
    refine (hr'.sublist ((((heads_sublist Param.head_sublist vars).append
      (List.Sublist.refl range.ids)).append
      (List.Sublist.refl (bodyInfo.id :: stmtIds ss))).cons info.id)).perm ?_
    rw [List.append_assoc]
    refine List.perm_append_comm.trans ?_
    rw [List.append_assoc]
    refine List.Perm.append_left range.ids ?_
    rw [List.cons_append]
    exact List.Perm.cons bodyInfo.id List.perm_append_comm
  rw [stmt]
  refine visitingStmt_ensures hw hr (.bind ((hrange none hparts.left).imp
    fun rangeType t _ hwr => ?_))
  split
  · exact .fail (hwr.1.step.inv.rejected _ (by rintro ⟨⟩))
  · next elem _ =>
    refine .bind ((loopTypes_ensures hwr.1.step.inv vars.length elem _).imp fun types u _ hl => ?_)
    obtain ⟨rfl, hlen⟩ := hl
    have hbody := hparts.right hwr.1.step
    have hwithin' := hwithin.grows hwr.1.step.grows.store
    refine .bind ((openBlock_ensures hbody.left hwithin').imp fun inner v _ ho => ?_)
    obtain ⟨hwo, hnew, hmatches, hbodyBlock, hinner⟩ := ho
    have hvars := hbody.next hwo.step hmatches
    refine .bind ((declareLoopVars_ensures hvars.left hbodyBlock hlen).imp fun _ x _ hd => ?_)
    have hgrows := hd.1.step.grows.store
    refine (stmts_ensures h (hvars.next hd.1.step hd.2) (hgrows.isBlock hbodyBlock)
      (hinner.grows hgrows)).imp fun _ y _ hss => ?_
    have hall := hd.1.append hvars hss
    refine stmt_of_walk hparts (hwr.1.append hparts (hwo.append' hbody hall
      (.inr fun id heq => ?_))) hids ?_ ?_ rfl
    · cases heq
      exact hnew
    · simp only [Stmt.sites, List.append_assoc, List.cons_append, List.nil_append, Expr.sites,
        Env.declare]
      exact fun _ h => h
    · simp only [Stmt.targets, List.nil_append]
      exact fun _ h => h

/-- The bindings of a `let` are declared in a scope around its statement. -/
theorem Stmt.letIn_walks (hw : w.Sound p stack) (info : NodeInfo) {inits : List Init} {child : Stmt}
    (hi : ∀ i ∈ inits, i.Walks p stack w) (hc : child.Walks p stack w) :
    (Stmt.letIn info inits child).Walks p stack w := by
  intro s env scope home hr hblock hwithin
  have hparts : Ready p stack s env scope ([info.id] ++ (initIds inits ++ child.ids)) := by
    have hr' := hr
    simp only [Stmt.ids] at hr'
    exact hr'
  rw [stmt]
  refine visitingStmt_ensures hw hr (.bind ((openBlock_ensures hparts.left hwithin).imp
    fun inner t _ ho => ?_))
  obtain ⟨hwo, hnew, hmatches, hinnerBlock, hwithin'⟩ := ho
  have hinner := hparts.next hwo.step hmatches
  refine .bind ((initStmts_ensures hi hinner.left hinnerBlock).imp fun _ u _ hinits => ?_)
  have hgrows := hinits.1.step.grows.store
  refine (hc (hinner.next hinits.1.step hinits.2) (hgrows.isBlock hinnerBlock)
    (hwithin'.grows hgrows)).imp fun _ v _ hchild => ?_
  refine stmt_of_walk hparts (hwo.append' hparts (hinits.1.append hinner hchild.1)
    (.inr fun id heq => ?_)) ?_ ?_ ?_ rfl
  · cases heq
    exact hnew
  · simp only [Stmt.ids]
    exact fun _ h => h
  · simp only [Stmt.sites, Env.declare, List.cons_append, List.nil_append]
    exact fun _ h => h
  · simp only [Stmt.targets]
    exact fun _ h => h

end Frontend
