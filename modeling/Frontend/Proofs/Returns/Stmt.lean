import Frontend.Proofs.Returns.Expr
import Frontend.Proofs.Tree.Induction

/-!
# Coherence along statements

A return statement is met in a scope that lies in the body of its function, so what it decides is
the result type of that function; the end of the body settles the rest. So a function that has been
analysed is coherent, and a lambda is one of the functions in question.
-/

namespace Frontend

variable {p : Program} {w : Demand} {scope : ScopeId} {s : AnalysisState}

/-- Runs over a block keep coherence and meet its lambdas and return statements. -/
def Block.KeepsCoherence (p : Program) (w : Demand) (b : Block) : Prop :=
  ∀ scope env, Goes p scope (b.sites env) b.returns (Check.block w scope b)

/-- Runs over an initialize statement keep coherence and meet its lambdas. -/
def Init.KeepsCoherence (p : Program) (w : Demand) (i : Init) : Prop :=
  ∀ scope env, Goes p scope (i.sites env) [] (Check.initStmt w scope i)

/-- Runs over a statement keep coherence and meet its lambdas and return statements. -/
def Stmt.KeepsCoherence (p : Program) (w : Demand) (st : Stmt) : Prop :=
  ∀ scope env, Goes p scope (st.sites env) st.returns (Check.stmt w scope st)

/-- A run over the body of a declared function leaves it coherent, with the lambdas in it. -/
def FuncDef.KeepsCoherence (p : Program) (w : Demand) (d : FuncDef) : Prop :=
  ∀ s, Ensures (fun _ _ => True) (Check.function w d) s fun _ t => Growth s t ∧
    (t.refused = [] → Coherence p s → s.Declared d →
      Coherence p t ∧ t.Concluded d ∧ ∀ env, t.Made (d.sites env))

/-- A stretch meets the same lambdas and the same return statements, however they are listed. -/
theorem Goes.relist {α : Type} {act : Check α} {sites sites' : List Site}
    {values values' : List (List Expr)} (h : Goes p scope sites values act)
    (hm : ∀ d, .lambda d ∈ sites' ↔ .lambda d ∈ sites) (hv : values = values') :
    Goes p scope sites' values' act := hv ▸ h.congr hm

namespace Check

/-- What happens in a block that has just been opened counts for the scope around it. -/
theorem openBlock_bind_goes {α : Type} {sites : List Site} {values : List (List Expr)} (node : Nat)
    {f : ScopeId → Check α} (hf : ∀ inner, Goes p inner sites values (f inner)) :
    Goes p scope sites values (openBlock scope node >>= f) :=
  fun _ => .bind ((openBlock_goes node).imp fun inner t _ h => (hf inner t).imp fun _ _ _ h' =>
    h.1.trans (h'.inner h.2))

/-! ### Lists of statements -/

theorem stmts_goes {ss : List Stmt} (h : ∀ st ∈ ss, st.KeepsCoherence p w) (env : Env) :
    Goes p scope (stmtsSites env ss) (stmtsReturns ss) (stmts w scope ss) := by
  induction ss generalizing env with
  | nil =>
    rw [stmts, stmtsSites, stmtsReturns]
    exact .pure ()
  | cons st rest ih =>
    rw [List.forall_mem_cons] at h
    rw [stmts, stmtsSites, stmtsReturns]
    exact (h.1 scope env).bind fun _ => ih h.2 _

theorem block_keepsCoherence (info : NodeInfo) {ss : List Stmt}
    (h : ∀ st ∈ ss, st.KeepsCoherence p w) : (Block.mk info ss).KeepsCoherence p w := by
  intro scope env
  rw [block, Block.sites, Block.returns]
  exact (openBlock_bind_goes _ fun inner => stmts_goes h (⟨some info.id, []⟩ :: env)).congr
    fun d => by simp

theorem optionalBlock_goes {b : Option Block} (h : ∀ b' ∈ b, b'.KeepsCoherence p w) (env : Env) :
    Goes p scope (optionalSites env b) (optionalReturns b) (optionalBlock w scope b) := by
  cases b with
  | none =>
    rw [optionalBlock, optionalSites, optionalReturns]
    exact .pure ()
  | some b =>
    rw [optionalBlock, optionalSites, optionalReturns]
    exact h b rfl scope env

theorem initStmts_goes {is : List Init} (h : ∀ i ∈ is, i.KeepsCoherence p w) (env : Env) :
    Goes p scope (initsSites env is) [] (initStmts w scope is) := by
  induction is generalizing env with
  | nil =>
    rw [initStmts, initsSites]
    exact .pure ()
  | cons i rest ih =>
    rw [List.forall_mem_cons] at h
    rw [initStmts, initsSites]
    exact Goes.seq (h.1 scope env) fun _ => ih h.2 _

/-- A condition comes first. -/
theorem condition_goes {α : Type} {condition : Expr} {f : Check α} {sites : List Site}
    {values : List (List Expr)} (hc : condition.KeepsCoherence p w) (env : Env)
    (hf : Goes p scope sites values f) :
    Goes p scope (condition.parts env ++ sites) values (do
      let type ← expr w scope (some .bool) condition
      expectType .bool type condition.position
      f) :=
  ((hc.goes _ env).bind fun _ => (Goes.stateless (expectType_stateless _ _)).bind fun _ => hf)

theorem arms_goes {whens : List (Expr × Block)}
    (h : ∀ a ∈ whens, a.1.KeepsCoherence p w ∧ a.2.KeepsCoherence p w) (env : Env) :
    Goes p scope (armsSites env whens) (armsReturns whens) (arms w scope whens) := by
  induction whens with
  | nil =>
    rw [arms, armsSites, armsReturns]
    exact .pure ()
  | cons a rest ih =>
    rw [List.forall_mem_cons] at h
    obtain ⟨condition, body⟩ := a
    rw [arms, armsSites, armsReturns]
    refine (condition_goes h.1.1 env ((h.1.2 scope env).bind fun _ => ih h.2)).congr fun d => ?_
    simp

theorem valueArms_goes {whens : List (List Expr × Block)}
    (h : ∀ a ∈ whens, (∀ e ∈ a.1, e.KeepsCoherence p w) ∧ a.2.KeepsCoherence p w) (type : Ty)
    (env : Env) :
    Goes p scope (valueArmsSites env whens) (valueArmsReturns whens)
      (valueArms w scope type whens) := by
  induction whens with
  | nil =>
    rw [valueArms, valueArmsSites, valueArmsReturns]
    exact .pure ()
  | cons a rest ih =>
    rw [List.forall_mem_cons] at h
    obtain ⟨es, body⟩ := a
    rw [valueArms, valueArmsSites, valueArmsReturns]
    refine ((sameType_goes h.1.1 type env).bind fun _ => (h.1.2 scope env).bind fun _ =>
      ih h.2).congr fun d => ?_
    simp

/-! ### Declarations and assignments -/

theorem declareVars_goes (inside : ScopeId) (decls : List VarDecl) (explicit : List (Option Ty))
    (types : List Ty) : Goes p scope [] [] (declareVars inside decls explicit types) := by
  induction decls generalizing explicit types with
  | nil => exact .pure ()
  | cons d rest ih =>
    cases explicit with
    | nil => exact .pure ()
    | cons expected explicit =>
      cases types with
      | nil => exact .pure ()
      | cons type types =>
        exact .thenPure (.stateless (expectTypeIf_stateless _ _)) fun _ =>
          .thenPure (declareVar_goes _ _ _ _ _) fun _ => ih explicit types

theorem declareLoopVars_goes (inside : ScopeId) (params : List Param) (types : List Ty) :
    Goes p scope [] [] (declareLoopVars inside params types) := by
  induction params generalizing types with
  | nil => exact .pure ()
  | cons q rest ih =>
    cases types with
    | nil => exact .pure ()
    | cons type types =>
      exact .thenPure (.stateless (denoted?_stateless _)) fun _ =>
        .thenPure (.stateless (expectTypeIf_stateless _ _)) fun _ =>
          .thenPure (declareVar_goes _ _ _ _ _) fun _ => ih types

theorem assignTargets_goes (targets : List Expr) (hints : List (Option Ty)) (types : List Ty) :
    Goes p scope [] [] (assignTargets targets hints types) := by
  induction targets generalizing hints types with
  | nil => exact .pure ()
  | cons target rest ih =>
    cases hints with
    | nil => exact .pure ()
    | cons hint hints =>
      cases types with
      | nil => exact .pure ()
      | cons type types =>
        refine .thenPure ?_ fun _ => ih hints types
        cases hint with
        | none => exact setType_goes _ _
        | some expected =>
          exact .thenPure (.stateless (expectType_stateless _ _)) fun _ =>
            .readsOnly (checkAssignable_readsOnly _)

theorem init_keepsCoherence (info : NodeInfo) (decls : List VarDecl) {es : List Expr}
    (h : ∀ e ∈ es, e.KeepsCoherence p w) : (Init.mk info decls es).KeepsCoherence p w := by
  intro scope env
  rw [initStmt, Init.sites]
  have hvalues : ∀ explicit, Goes p scope (exprsSites env es) []
      (if es.isEmpty then declaredTypes decls explicit
        else values w scope explicit info.span.start es) := by
    intro explicit
    split
    · next hnil =>
      rw [List.isEmpty_iff.mp hnil, exprsSites]
      exact .stateless (declaredTypes_stateless _ _)
    · exact values_goes h _ env
  refine (Goes.seq (.stateless (.mapM (fun d => denoted?_stateless _) decls)) fun explicit =>
    .thenPure (hvalues explicit) fun types => declareVars_goes scope decls explicit types).congr
      fun d => ?_
  simp

end Check

/-! ### Statements -/

namespace Stmt

open Check

theorem init_keepsCoherence (hw : w.KeepsCoherence p) {i : Init} (h : i.KeepsCoherence p w) :
    (Stmt.init i).KeepsCoherence p w := by
  intro scope env
  rw [stmt_init, Stmt.sites_init, Stmt.returns]
  exact visiting_goes hw _ (h scope env)

variable (hw : w.KeepsCoherence p) (info : NodeInfo)
include hw

theorem expr_keepsCoherence {e : Expr} (h : e.KeepsCoherence p w) :
    (Stmt.expr e).KeepsCoherence p w := by
  intro scope env
  rw [stmt, Stmt.sites, Stmt.returns]
  exact visiting_goes hw _ ((Goes.thenPure (h.goes _ env) fun _ => .pure _).congr fun d => by simp)

theorem assign_keepsCoherence (op : Option BinaryOp) {ts es : List Expr}
    (ht : ∀ e ∈ ts, e.KeepsCoherence p w) (he : ∀ e ∈ es, e.KeepsCoherence p w) :
    (Stmt.assign info ts op es).KeepsCoherence p w := by
  intro scope env
  rw [Stmt.sites, Stmt.returns]
  cases op with
  | none =>
    rw [stmt]
    exact visiting_goes hw _ (.seq (targets_goes ht env) fun _ =>
      .thenPure (values_goes he _ env) fun _ => assignTargets_goes _ _ _)
  | some op =>
    by_cases hone : ∃ target value, ts = [target] ∧ es = [value]
    · obtain ⟨target, value, rfl, rfl⟩ := hone
      rw [List.forall_mem_singleton] at ht he
      rw [stmt]
      refine visiting_goes hw _ ((Goes.seq (ht.goes none env) fun type =>
        .thenPure (he.goes _ env) fun _ =>
          .thenPure (.stateless (expectType_stateless _ _)) fun _ =>
            .thenPure (.stateless (expectOperand_stateless op type)) fun _ =>
              .readsOnly (checkAssignable_readsOnly target)).congr fun d => ?_)
      simp [exprsSites]
    · rw [stmt]
      · exact visiting_goes hw _ .fail
      · intro target value hts hes
        exact hone ⟨target, value, hts, hes⟩

/-- A return statement is met in a scope of its function. -/
theorem ret_keepsCoherence {es : List Expr} (h : ∀ e ∈ es, e.KeepsCoherence p w) :
    (Stmt.ret info es).KeepsCoherence p w := by
  intro scope env
  rw [stmt, Stmt.sites, Stmt.returns]
  refine visiting_goes hw _ fun s => .bind (.bind (.store (.pure ?_)))
  split
  · exact .fail trivial
  · next id f hcurrent =>
    refine .bind ((exprs_keepsCoherence h _ env).imp fun types t _ hes => ?_)
    obtain ⟨hleaves, htypes⟩ := hes
    refine (returnType_ensures_returned (p := p) htypes).imp fun _ u _ hreturn => ?_
    obtain ⟨hg, hreturned⟩ := hreturn
    refine ⟨hleaves.growth.trans hg, fun hr hc hapart home hhome => ?_⟩
    obtain ⟨hwithin, hmay⟩ := hhome (by simp)
    have hid : id = home := by
      have hfunc := hwithin.enclosingFunction
      obtain ⟨inside, hinside, hcurrent⟩ := Option.bind_eq_some_iff.mp hcurrent
      rw [hinside] at hfunc
      obtain ⟨id', hid', hcurrent⟩ := Option.bind_eq_some_iff.mp hcurrent
      obtain ⟨f', -, hcurrent⟩ := Option.bind_eq_some_iff.mp hcurrent
      cases hcurrent
      exact Option.some.inj (hid'.symm.trans hfunc)
    subst hid
    obtain ⟨hc', hmade, -⟩ := hleaves.coherent (hg.refused hr) hc hapart id
      fun hne => absurd rfl hne
    obtain ⟨hc'', hvalues⟩ := hreturned hr hc' (hmay.grows hleaves.growth)
    exact ⟨hc'', hmade.grows hg hc''.admits, List.forall_mem_singleton.mpr hvalues⟩

theorem ifElse_keepsCoherence (kind : IfKind) {condition : Expr} {thenBlock : Block}
    {elseifs : List (Expr × Block)} {elseBlock : Option Block}
    (hc : condition.KeepsCoherence p w) (ht : thenBlock.KeepsCoherence p w)
    (ha : ∀ a ∈ elseifs, a.1.KeepsCoherence p w ∧ a.2.KeepsCoherence p w)
    (he : ∀ b ∈ elseBlock, b.KeepsCoherence p w) :
    (Stmt.ifElse info kind condition thenBlock elseifs elseBlock).KeepsCoherence p w := by
  intro scope env
  rw [stmt, Stmt.sites, Stmt.returns]
  refine visiting_goes hw _ ((condition_goes hc env ((ht scope env).bind fun _ =>
    (arms_goes ha env).bind fun _ => optionalBlock_goes he env)).relist (fun d => ?_)
      (List.append_assoc ..).symm)
  simp

theorem case_keepsCoherence {whens : List (Expr × Block)} {elseBlock : Option Block}
    (ha : ∀ a ∈ whens, a.1.KeepsCoherence p w ∧ a.2.KeepsCoherence p w)
    (he : ∀ b ∈ elseBlock, b.KeepsCoherence p w) :
    (Stmt.case info whens elseBlock).KeepsCoherence p w := by
  intro scope env
  rw [stmt, Stmt.sites, Stmt.returns]
  exact visiting_goes hw _ ((arms_goes ha env).bind fun _ => optionalBlock_goes he env)

theorem switch_keepsCoherence {target : Expr} {whens : List (List Expr × Block)}
    {elseBlock : Option Block} (ht : target.KeepsCoherence p w)
    (ha : ∀ a ∈ whens, (∀ e ∈ a.1, e.KeepsCoherence p w) ∧ a.2.KeepsCoherence p w)
    (he : ∀ b ∈ elseBlock, b.KeepsCoherence p w) :
    (Stmt.switch info target whens elseBlock).KeepsCoherence p w := by
  intro scope env
  rw [stmt, Stmt.sites, Stmt.returns]
  refine visiting_goes hw _ (((ht.goes none env).bind fun type => (valueArms_goes ha type env).bind
    fun _ => optionalBlock_goes he env).congr fun d => ?_)
  simp

theorem whileDo_keepsCoherence {condition : Expr} {body : Block} (hc : condition.KeepsCoherence p w)
    (hb : body.KeepsCoherence p w) : (Stmt.whileDo info condition body).KeepsCoherence p w := by
  intro scope env
  rw [stmt, Stmt.sites, Stmt.returns]
  refine visiting_goes hw _ ((condition_goes hc env (hb scope env)).congr fun d => ?_)
  simp

theorem guarded_keepsCoherence {body : Stmt} (kind : IfKind) {condition : Expr}
    (hb : body.KeepsCoherence p w) (hc : condition.KeepsCoherence p w) :
    (Stmt.guarded info body kind condition).KeepsCoherence p w := by
  intro scope env
  rw [stmt, Stmt.sites, Stmt.returns]
  refine visiting_goes hw _ (((hb scope env).bind fun _ =>
    Goes.thenPure (hc.goes _ (env.declare body.declares)) fun _ =>
      .stateless (expectType_stateless _ _)).relist (fun d => ?_) (List.append_nil _))
  simp

theorem forIn_keepsCoherence (bodyInfo : NodeInfo) (vars : List Param) {range : Expr}
    {ss : List Stmt} (hrange : range.KeepsCoherence p w) (h : ∀ st ∈ ss, st.KeepsCoherence p w) :
    (Stmt.forIn info vars range ⟨bodyInfo, ss⟩).KeepsCoherence p w := by
  intro scope env
  rw [stmt, Stmt.sites, Stmt.returns]
  refine visiting_goes hw _ ((Goes.bind (hrange.goes none env) fun type =>
    (?_ : Goes p scope (stmtsSites (⟨some bodyInfo.id, loopNames vars⟩ :: env) ss)
      (stmtsReturns ss) _)).congr fun d => ?_)
  · split
    · exact .fail
    · exact (Goes.stateless (loopTypes_stateless _ _)).bind fun types =>
        openBlock_bind_goes _ fun inner => (declareLoopVars_goes inner vars types).bind fun _ =>
          stmts_goes h _
  · simp [paramSites]

theorem letIn_keepsCoherence {inits : List Init} {child : Stmt}
    (hi : ∀ i ∈ inits, i.KeepsCoherence p w) (hc : child.KeepsCoherence p w) :
    (Stmt.letIn info inits child).KeepsCoherence p w := by
  intro scope env
  rw [stmt, Stmt.sites, Stmt.returns]
  refine visiting_goes hw _ ((openBlock_bind_goes _ fun inner => (initStmts_goes hi
    (⟨some info.id, []⟩ :: env)).bind fun _ => hc inner
      (⟨some info.id, inits.flatMap Init.declares⟩ :: env)).congr fun d => ?_)
  simp

end Stmt

end Frontend
