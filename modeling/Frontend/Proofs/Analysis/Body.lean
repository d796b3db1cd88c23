import Frontend.Proofs.Analysis.Stmt

/-!
# Bodies of functions

The body of a function is walked between two marks of its progress. For a lambda both marks are
steps of the body around it, so walks over expressions, statements, blocks and functions are
established together, by induction on the tree.
-/

namespace Frontend

open Check

variable {p : Program} {stack : List Nat} {w : Demand} {s t u : AnalysisState} {env : Env}
  {scope : ScopeId}

/-- A definition that is begun was not begun before. -/
theorem AnalysisState.grows_begin {node : Nat} (h : s.progress[node]? = none) :
    s.Grows (s.mark node .inProgress) :=
  { AnalysisState.Grows.refl s with
    done := getElem?_insert_of_some h
    begun := fun {n} hn => by
      obtain ⟨progress, hp⟩ := Option.isSome_iff_exists.mp hn
      exact Option.isSome_iff_exists.mpr ⟨progress, getElem?_insert_of_some h hp⟩ }

theorem AnalysisState.grows_finish {node : Nat} : s.Grows (s.mark node .done) :=
  { AnalysisState.Grows.refl s with
    done := fun {n} hn => by
      by_cases heq : n = node
      · rw [heq]
        exact progress_mark_self
      · exact (progress_mark heq).trans hn
    begun := fun {n} hn => by
      by_cases heq : n = node
      · rw [heq, progress_mark_self]
        rfl
      · rw [progress_mark heq]
        exact hn }

/-! ### Marks as steps -/

theorem Step.begin (hi : Inv p s) {node : Nat} (ho : Owned p s node)
    (hnone : s.progress[node]? = none) : Step p none [node] s (s.mark node .inProgress) := by
  refine Step.of_store_eq hi (AnalysisState.grows_begin hnone) ?_ rfl rfl rfl rfl rfl rfl ?_ ?_
    fun _ _ => hi.understood
  · exact List.forall_mem_singleton.mpr ho
  · exact fun hn => AnalysisState.slots_mark fun heq => hn (heq ▸ List.mem_cons_self)
  · intro id f d hdef hf hd hdone
    have hne : d.info.id ≠ node := by
      intro heq
      rw [heq, AnalysisState.progress_mark_self] at hdone
      cases hdone
    rw [AnalysisState.progress_mark hne] at hdone
    exact hi.settled hdef hf hd hdone

theorem Step.finish (hi : Inv p s) {node : Nat} (ho : Owned p s node) :
    Step p none [node] s (s.mark node .done) := by
  refine Step.of_store_eq hi AnalysisState.grows_finish ?_ rfl rfl rfl rfl rfl rfl ?_ ?_
    fun _ _ => hi.understood
  · exact List.forall_mem_singleton.mpr ho
  · exact fun hn => AnalysisState.slots_mark fun heq => hn (heq ▸ List.mem_cons_self)
  · intro id f d hdef hf hd hdone
    have hne : d.info.id ≠ node := by
      rintro rfl
      obtain ⟨e, he, -, hm⟩ := ho
      have hde := hi.disjoint hdef he (Definition.function d).info_mem_ids
        (Definition.mem_ids_of_mem_bodyIds hm)
      rw [← hde] at hm
      exact Definition.info_not_mem_bodyIds (hi.nodup hdef) hm
    rw [AnalysisState.progress_mark hne] at hdone
    exact hi.settled hdef hf hd hdone

/-! ### Functions -/

/-- A run over a declared function resolves the sites of its bodies and marks it as done. That the
last mark keeps the invariant is up to where the function stands. -/
def FuncDef.Walks (p : Program) (stack : List Nat) (w : Demand) (d : FuncDef) : Prop :=
  ∀ ⦃s : AnalysisState⦄ ⦃env : Env⦄ ⦃scope : ScopeId⦄ ⦃id : FuncId⦄ ⦃f : FuncSymbol⦄, Inv p s →
    s.scopes[d.info.id]? = some scope → s.store.scopeFuncId? scope = some id →
    s.store.func? id = some f → s.progress[d.info.id]? = none →
    Ready p stack (s.mark d.info.id .inProgress) env scope (Definition.function d).bodyIds →
    (∀ {u g}, Walk p none (Definition.function d).bodyIds (d.bodySites env) d.targets
      (s.mark d.info.id .inProgress) u → u.store.func? id = some g → f.Grows g →
      (g.kind.returnsValue = true → g.ret.isSome) → Inv p (u.mark d.info.id .done)) →
    Ensures (Rejected p) (function w d) s fun _ t => ∃ u g,
      Walk p none (Definition.function d).bodyIds (d.bodySites env) d.targets
        (s.mark d.info.id .inProgress) u ∧ u.store.func? id = some g ∧ f.Grows g ∧
        (g.kind.returnsValue = true → g.ret.isSome) ∧ t = u.mark d.info.id .done

/-- The scope of a declared function and the function it belongs to are found. -/
theorem declared_ensures {info : NodeInfo} {id : FuncId} {refuse : Failure → AnalysisState → Prop}
    {post : ScopeId × FuncId → AnalysisState → Prop} (hscope : s.scopes[info.id]? = some scope)
    (hid : s.store.scopeFuncId? scope = some id) (h : post (scope, id) s) :
    Ensures refuse (declared info) s post := by
  refine .bind (.get ?_)
  simp only [hscope, hid]
  exact .pure h

theorem settleReturn_ensures (hi : Inv p s) {id : FuncId} {f : FuncSymbol}
    (hf : s.store.func? id = some f) :
    Ensures (Rejected p) (settleReturn id) s fun _ t => Step p none [] s t ∧
      ∃ g, t.store.func? id = some g ∧ f.Grows g ∧ (g.kind.returnsValue = true → g.ret.isSome) := by
  refine .bind (func_ensures hf ?_)
  split
  · refine (setRet_ensures hi hf .unit).imp fun _ t _ h => ?_
    obtain ⟨hs, g, hg, hfg, hret⟩ := h
    exact ⟨hs, g, hg, hfg, fun _ => hret⟩
  · next hn =>
    refine .pure ⟨.refl hi, f, hf, .refl f, fun hkind => ?_⟩
    cases hret : f.ret with
    | some type => rfl
    | none => simp [hkind, hret] at hn

theorem function_walks (hw : w.Sound p stack) (info : NodeInfo) (kind : FuncKind) (name : String)
    (params : List Param) (returnType : Option TypeExpr) {body : Block} {ensureBody : Option Block}
    (hb : body.Walks p stack w) (he : ∀ b ∈ ensureBody, b.Walks p stack w) :
    (FuncDef.mk info kind name params returnType body ensureBody).Walks p stack w := by
  intro s env scope id f hi hscope hid hf hnone hready hdone
  rw [function]
  have hwithin : (s.mark info.id .inProgress).store.Within scope id := .of_function hid
  refine analysing_ensures hw hi (hready.nested.beginning hready.inv hnone)
    (.bind (declared_ensures hscope hid ?_))
  refine .bind ((hb hready.left hwithin).imp fun _ t _ hbody => ?_)
  have hrest := hready.right hbody.step
  refine .bind ((optionalBlock_ensures he hrest (hwithin.grows hbody.step.grows.store)).imp
    fun _ x _ hensure => ?_)
  have hwalk := hbody.append hready hensure
  obtain ⟨f', hf', hff'⟩ := hwalk.step.grows.store.func
    (show (s.mark info.id .inProgress).store.func? id = some f from hf)
  refine (settleReturn_ensures hwalk.step.inv hf').imp fun _ y _ hsettle => ?_
  obtain ⟨hs, g, hg, hfg, hret⟩ := hsettle
  have hall := hwalk.andThen hready.writable.owned hs
  rw [← FuncDef.targets_eq ⟨info, kind, name, params, returnType, body, ensureBody⟩] at hall
  have hanswered : (y.mark info.id .done).Answered p info.id :=
    .function (hall.step.grows.scope hscope) (hall.step.grows.store.scopeFuncId? hid) hg
      (FuncSymbol.result?_of_ret hret)
  have hfinish := (hready.nested.step hall.step).finishing hall.step.inv hanswered
  exact ⟨⟨hdone hall hg (hff'.trans hfg) hret, hfinish⟩, y, g, hall, hg, hff'.trans hfg, hret, rfl⟩

/-! ### Lambdas -/

theorem Ty.eq_unit_of_isUnit {type : Ty} (h : type.isUnit = true) : type = .unit := by
  unfold isUnit at h
  split at h
  · rfl
  · cases h

theorem lambdaType_ensures {refuse : Failure → AnalysisState → Prop} {params : List Ty}
    {id : FuncId} {f : FuncSymbol} {ret : Ty} (hf : s.store.func? id = some f)
    (hr : f.ret = some ret) (wantsProc : Bool) :
    Ensures refuse (lambdaType params id wantsProc) s fun type t => t = s ∧
      ∃ shown, type = .func params shown ∧ (shown = some ret ∨ shown = none ∧ ret = .unit) := by
  refine .bind (func_ensures hf (.pure ⟨rfl, _, rfl, ?_⟩))
  rw [hr, Option.getD_some]
  split
  · next h =>
    simp only [Bool.and_eq_true] at h
    exact .inr ⟨rfl, Ty.eq_unit_of_isUnit h.2⟩
  · exact .inl rfl

/-- A lambda is declared, walked and typed inside the body around it. -/
theorem lambda_walks (hw : w.Sound p stack) (info : NodeInfo) {d : FuncDef}
    (hkind : d.kind = .lambda) (h : d.Walks p stack w) : (Expr.lambda info d).Walks p stack w := by
  intro s env scope hint hready
  have hids : (Expr.lambda info d).ids = info.id :: d.ids := by simp only [Expr.ids]
  have hparts := (hready.tail hids).sublist d.headIds_append_bodyIds
  have hsub := d.headIds_append_bodyIds.subset
  rw [expr.eq_def]
  refine typing_ensures hw hready ?_
  refine .bind ((declareLambda_ensures hparts.left _).imp fun r t _ hdecl => ?_)
  obtain ⟨inner, f, hs, hnone, hf, hd, hdeclares, hparams, hmatches⟩ := hdecl
  have hself : d.info.id ∈ d.headIds := List.mem_cons_self
  have ho := hs.owns (hparts.writable.owned d.info.id (List.mem_append_left _ hself))
  have hbegin := Step.begin hs.inv ho hnone
  have hbody : Ready p stack t (d.layer :: env) inner (Definition.function d).bodyIds :=
    hparts.next hs hmatches
  have hnot : d.info.id ∉ (Definition.function d).bodyIds := hparts.not_mem hself
  have hbegun := hbody.stays hbegin fun node hm hm' => hnot (List.mem_singleton.mp hm' ▸ hm)
  have hprogress : ∀ {u : AnalysisState},
      Step p none (Definition.function d).bodyIds (t.mark d.info.id .inProgress) u →
      Owned p u d.info.id := fun hs' => hs'.owns (hbegin.owns ho)
  have hfinish : ∀ {u : AnalysisState},
      Step p none (Definition.function d).bodyIds (t.mark d.info.id .inProgress) u →
      Step p none [d.info.id] u (u.mark d.info.id .done) := fun hs' =>
    Step.finish hs'.inv (hprogress hs')
  refine .bind ((h hs.inv (hdeclares.layer.owner rfl) hdeclares.func hf hnone hbegun
    fun hwalk _ _ _ => (hfinish hwalk.step).inv).imp fun _ v _ hrun => ?_)
  obtain ⟨u, g, hwalk, hg, hfg, hret, rfl⟩ := hrun
  have hdone := hfinish hwalk.step
  have hret' := hret (by rw [hfg.kind, hdeclares.kind, hkind]; rfl)
  obtain ⟨ret, hret'⟩ := Option.isSome_iff_exists.mp hret'
  refine (lambdaType_ensures (show (u.mark d.info.id .done).store.func? r.2 = some g from hg)
    hret' _).imp fun type x _ htype => ?_
  obtain ⟨rfl, shown, rfl, hshown⟩ := htype
  have hall : Step p none d.ids s (u.mark d.info.id .done) := by
    refine (hs.trans (hbegin.trans (hwalk.step.trans hdone))).mono fun node hm => ?_
    simp only [List.mem_append, List.mem_singleton] at hm
    refine hsub ?_
    rw [List.mem_append]
    rcases hm with hm | rfl | hm | rfl
    · exact .inl hm
    · exact .inl hself
    · exact .inr hm
    · exact .inl hself
  have hlater := (hbegin.trans (hwalk.step.trans hdone)).grows
  have hdeclares' := hdeclares.grows hlater.store hlater.link hlater.scope hf hfg
  have hfound := hwalk.stays hdone hbegun.writable.owned fun node hm hm' =>
    hnot (List.mem_singleton.mp hm' ▸ hm)
  refine ⟨⟨?_, fun site hm => ?_, fun target hm => ?_⟩,
    congrArg Slots.type (hready.head_empty hids hall), .of_empty (hready.head_empty hids hall), ?_⟩
  · rw [hids]
    exact hall.mono (List.subset_cons_self _ _)
  · rw [hids]
    simp only [Expr.parts, FuncDef.sites_eq, List.mem_cons, List.mem_append] at hm
    rcases hm with rfl | hm | hm
    · exact ⟨List.mem_cons_of_mem _ (hsub (List.mem_append_left _ hself)),
        AnalysisState.progress_mark_self⟩
    · obtain ⟨hid, hres⟩ := hdeclares'.resolved site (List.mem_cons.mpr hm)
      exact ⟨List.mem_cons_of_mem _ (hsub (List.mem_append_left _ hid)), hres⟩
    · obtain ⟨hid, hres⟩ := hfound.resolved site hm
      exact ⟨List.mem_cons_of_mem _ (hsub (List.mem_append_right _ hid)), hres⟩
  · rw [hids]
    rw [Expr.targets] at hm
    obtain ⟨hid, hassignable⟩ := hfound.assigned target hm
    exact ⟨List.mem_cons_of_mem _ (hsub (List.mem_append_right _ hid)), hassignable⟩
  · rw [← hparams, ← hfg.paramTypes]
    exact .lambda info (hdeclares'.layer.owner rfl) hdeclares'.func hg hret' hshown

/-! ### All trees -/

mutual

/-- A call walks over the receiver of a member access that it calls, hence the second part. -/
theorem Expr.walks_and_receiver (hw : w.Sound p stack) : (e : Expr) → e.WellShaped →
    e.Walks p stack w ∧
      ∀ {info receiver name}, e = .member info receiver name → receiver.Walks p stack w
  | .literal info value, _ => ⟨literal_walks hw info value, nofun⟩
  | .array info elems, h =>
    ⟨array_walks hw info (exprs_walk hw elems (by rwa [Expr.WellShaped] at h)), nofun⟩
  | .tuple info elems, h =>
    ⟨tuple_walks hw info (exprs_walk hw elems (by rwa [Expr.WellShaped] at h)), nofun⟩
  | .dict info entries, h =>
    ⟨dict_walks hw info (entries_walk hw entries (by rwa [Expr.WellShaped] at h)), nofun⟩
  | .varRef info name assigned, _ => ⟨varRef_walks hw info name assigned, nofun⟩
  | .member info receiver name, h => by
    rw [Expr.WellShaped] at h
    have hr := (receiver.walks_and_receiver hw h).1
    refine ⟨member_walks hw info name hr, ?_⟩
    rintro _ _ _ ⟨⟩
    exact hr
  | .index info receiver index, h => by
    rw [Expr.WellShaped] at h
    exact ⟨index_walks hw info (receiver.walks_and_receiver hw h.1).1
      (index.walks_and_receiver hw h.2).1, nofun⟩
  | .call info callee args, h => by
    rw [Expr.WellShaped] at h
    have hc := callee.walks_and_receiver hw h.1
    exact ⟨call_walks hw info hc.1 hc.2 (exprs_walk hw args h.2), nofun⟩
  | .unary info op operand, h => by
    rw [Expr.WellShaped] at h
    exact ⟨unary_walks hw info op (operand.walks_and_receiver hw h).1, nofun⟩
  | .binary info op lhs rhs, h => by
    rw [Expr.WellShaped] at h
    exact ⟨binary_walks hw info op (lhs.walks_and_receiver hw h.1).1
      (rhs.walks_and_receiver hw h.2).1, nofun⟩
  | .cast info value written, h => by
    rw [Expr.WellShaped] at h
    exact ⟨cast_walks hw info written (value.walks_and_receiver hw h).1, nofun⟩
  | .typed info value written, h => by
    rw [Expr.WellShaped] at h
    exact ⟨typed_walks hw info written (value.walks_and_receiver hw h).1, nofun⟩
  | .ifElse info kind condition thenValue elseValue, h => by
    rw [Expr.WellShaped] at h
    exact ⟨ifElse_walks hw info kind (condition.walks_and_receiver hw h.1).1
      (thenValue.walks_and_receiver hw h.2.1).1 (elseValue.walks_and_receiver hw h.2.2).1, nofun⟩
  | .range info first last inclusive, h => by
    rw [Expr.WellShaped] at h
    exact ⟨range_walks hw info inclusive (first.walks_and_receiver hw h.1).1
      (last.walks_and_receiver hw h.2).1, nofun⟩
  | .lambda info d, h => by
    rw [Expr.WellShaped] at h
    exact ⟨lambda_walks hw info h.1 (d.walks hw h.2), nofun⟩

theorem exprs_walk (hw : w.Sound p stack) : (es : List Expr) → exprsWellShaped es →
    ∀ e ∈ es, e.Walks p stack w
  | [], _ => nofun
  | e :: rest, h => by
    rw [exprsWellShaped] at h
    exact List.forall_mem_cons.mpr ⟨(e.walks_and_receiver hw h.1).1, exprs_walk hw rest h.2⟩

theorem entries_walk (hw : w.Sound p stack) : (es : List (Expr × Expr)) → entriesWellShaped es →
    ∀ e ∈ es, e.1.Walks p stack w ∧ e.2.Walks p stack w
  | [], _ => nofun
  | (key, value) :: rest, h => by
    rw [entriesWellShaped] at h
    exact List.forall_mem_cons.mpr
      ⟨⟨(key.walks_and_receiver hw h.1).1, (value.walks_and_receiver hw h.2.1).1⟩,
        entries_walk hw rest h.2.2⟩

theorem FuncDef.walks (hw : w.Sound p stack) : (d : FuncDef) → d.WellShaped → d.Walks p stack w
  | ⟨info, kind, name, params, returnType, body, ensureBody⟩, h => by
    rw [FuncDef.WellShaped] at h
    exact function_walks hw info kind name params returnType (body.walks hw h.1)
      (optional_walks hw ensureBody h.2)

theorem Block.walks (hw : w.Sound p stack) : (b : Block) → b.WellShaped → b.Walks p stack w
  | ⟨info, stmts⟩, h => block_walks info (stmts_walk hw stmts (by rwa [Block.WellShaped] at h))

theorem optional_walks (hw : w.Sound p stack) : (b : Option Block) → optionalWellShaped b →
    ∀ b' ∈ b, b'.Walks p stack w
  | none, _ => nofun
  | some b, h => by
    rw [optionalWellShaped] at h
    rintro _ ⟨⟩
    exact b.walks hw h

theorem Init.walks (hw : w.Sound p stack) : (i : Init) → i.WellShaped → i.Walks p stack w
  | ⟨info, decls, values⟩, h => by
    rw [Init.WellShaped] at h
    exact init_walks info h.1 (exprs_walk hw values h.2)

theorem Stmt.walks (hw : w.Sound p stack) : (st : Stmt) → st.WellShaped → st.Walks p stack w
  | .init i, h => Stmt.init_walks hw (i.walks hw (by rwa [Stmt.WellShaped] at h))
  | .assign info targets op values, h => by
    rw [Stmt.WellShaped] at h
    have ht := exprs_walk hw targets h.2.2.1
    have hv := exprs_walk hw values h.2.2.2
    exact Stmt.assign_walks hw info op h.1 h.2.1 ht hv
  | .ifElse info kind condition thenBlock elseifs elseBlock, h => by
    rw [Stmt.WellShaped] at h
    exact Stmt.ifElse_walks hw info kind (condition.walks_and_receiver hw h.1).1
      (thenBlock.walks hw h.2.1) (arms_walk hw elseifs h.2.2.1)
      (optional_walks hw elseBlock h.2.2.2)
  | .ret info values, h =>
    Stmt.ret_walks hw info (exprs_walk hw values (by rwa [Stmt.WellShaped] at h))
  | .case info whens elseBlock, h => by
    rw [Stmt.WellShaped] at h
    exact Stmt.case_walks hw info (arms_walk hw whens h.1) (optional_walks hw elseBlock h.2)
  | .switch info target whens elseBlock, h => by
    rw [Stmt.WellShaped] at h
    exact Stmt.switch_walks hw info (target.walks_and_receiver hw h.1).1
      (valueArms_walk hw whens h.2.1)
      (optional_walks hw elseBlock h.2.2)
  | .forIn info vars range ⟨bodyInfo, stmts⟩, h => by
    rw [Stmt.WellShaped, Block.WellShaped] at h
    exact Stmt.forIn_walks hw info bodyInfo vars (range.walks_and_receiver hw h.1).1
      (stmts_walk hw stmts h.2)
  | .whileDo info condition body, h => by
    rw [Stmt.WellShaped] at h
    exact Stmt.whileDo_walks hw info (condition.walks_and_receiver hw h.1).1 (body.walks hw h.2)
  | .guarded info body kind condition, h => by
    rw [Stmt.WellShaped] at h
    exact Stmt.guarded_walks hw info kind (body.walks hw h.1)
      (condition.walks_and_receiver hw h.2).1
  | .letIn info inits child, h => by
    rw [Stmt.WellShaped] at h
    exact Stmt.letIn_walks hw info (inits_walk hw inits h.1) (child.walks hw h.2)
  | .expr value, h =>
    Stmt.expr_walks hw (value.walks_and_receiver hw (by rwa [Stmt.WellShaped] at h)).1

theorem stmts_walk (hw : w.Sound p stack) : (ss : List Stmt) → stmtsWellShaped ss →
    ∀ st ∈ ss, st.Walks p stack w
  | [], _ => nofun
  | st :: rest, h => by
    rw [stmtsWellShaped] at h
    exact List.forall_mem_cons.mpr ⟨st.walks hw h.1, stmts_walk hw rest h.2⟩

theorem inits_walk (hw : w.Sound p stack) : (is : List Init) → initsWellShaped is →
    ∀ i ∈ is, i.Walks p stack w
  | [], _ => nofun
  | i :: rest, h => by
    rw [initsWellShaped] at h
    exact List.forall_mem_cons.mpr ⟨i.walks hw h.1, inits_walk hw rest h.2⟩

theorem arms_walk (hw : w.Sound p stack) : (whens : List (Expr × Block)) → armsWellShaped whens →
    ∀ a ∈ whens, a.1.Walks p stack w ∧ a.2.Walks p stack w
  | [], _ => nofun
  | (condition, body) :: rest, h => by
    rw [armsWellShaped] at h
    exact List.forall_mem_cons.mpr
      ⟨⟨(condition.walks_and_receiver hw h.1).1, body.walks hw h.2.1⟩, arms_walk hw rest h.2.2⟩

theorem valueArms_walk (hw : w.Sound p stack) : (whens : List (List Expr × Block)) →
    valueArmsWellShaped whens →
    ∀ a ∈ whens, (∀ e ∈ a.1, e.Walks p stack w) ∧ a.2.Walks p stack w
  | [], _ => nofun
  | (values, body) :: rest, h => by
    rw [valueArmsWellShaped] at h
    exact List.forall_mem_cons.mpr
      ⟨⟨exprs_walk hw values h.1, body.walks hw h.2.1⟩, valueArms_walk hw rest h.2.2⟩

end

end Frontend
