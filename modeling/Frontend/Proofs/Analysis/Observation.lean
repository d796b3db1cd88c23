import Frontend.Proofs.Analysis.Log

/-!
# Runs under observation

Every run of an analysis has a log. Calls, walks and whole programs ask their observer through the
demands only, so this follows from the text of each action, by induction on the tree and on the
depth of the demands.
-/

namespace Frontend

open Check

/-- Demands that tell an observer that looks of each moment, and are logged themselves. -/
structure Demand.Logged (w : Look → Demand) : Prop where
  visit : ∃ stack, ∀ look, (w look).visit = Observer.looking look stack
  definitionOf : ∃ find, ∀ look, (w look).definitionOf = find
  constant : ∀ d, Frontend.Logged fun look => (w look).constant d
  function : ∀ d, Frontend.Logged fun look => (w look).function d

variable {α : Type} {w : Look → Demand} {act : Look → Check α} {position : Position}
  {scope : ScopeId}

namespace Check

/-! ### Moments -/

/-- A visit other than a request comes before all that follows. -/
theorem visit_logged (hw : Demand.Logged w) {visit : Visit} {s : AnalysisState}
    {f g : Look → Check α}
    (hplain : ∀ {template name args position}, visit ≠ .request template name args position)
    (heq : ∀ look, f look s = g look (visit.after s)) (h : LoggedAt (visit.after s) g) :
    LoggedAt s fun look => (w look).visit visit >>= fun _ => f look := by
  obtain ⟨stack, hvisit⟩ := hw.visit
  simp only [hvisit]
  refine h.seen (fun _ _ => ?_) heq
  rintro ⟨_, _, hrequest, -⟩
  exact hplain hrequest

theorem visiting_logged (hw : Demand.Logged w) (node : Nat) (h : Logged act) :
    Logged fun look => visiting (w look) node (act look) := by
  refine fun s => visit_logged hw nofun (fun _ => rfl) (Logged.bind h (fun a t => ?_) s)
  exact visit_logged hw nofun (fun _ => rfl) (Logged.quiet (.pure a) t)

theorem analysing_logged (hw : Demand.Logged w) (node : Nat) {act : Look → Check Unit}
    (h : Logged act) : Logged fun look => analysing (w look) node (act look) := by
  have hlast : Logged fun look => setProgress node .done >>= fun _ =>
      (w look).visit (.finish node) >>= fun _ => pure () := fun s =>
    LoggedAt.before (.mark s node .done) rfl (fun _ => rfl)
      (visit_logged (f := fun _ => pure ()) hw nofun (fun _ => rfl)
        (Logged.quiet (.pure ()) (s.mark node .done)))
  simp only [bind_pure_unit] at hlast
  exact fun s => visit_logged hw nofun (fun _ => rfl)
    (Logged.bind h (fun _ => hlast) (s.mark node .inProgress))

/-! ### Calls -/

theorem demandConstant_logged (hw : Demand.Logged w) (name : String) :
    Logged fun look => demandConstant (w look) name := by
  obtain ⟨find, hfind⟩ := hw.definitionOf
  unfold demandConstant
  simp only [hfind]
  cases find name with
  | none => exact .quiet (.pure ())
  | some d =>
    refine .bind (.quiet (progress?_quiet _)) fun begun => ?_
    cases begun with
    | none => exact hw.constant d
    | some progress => exact .quiet (.pure ())

theorem inferResult_logged (hw : Demand.Logged w) (f : FuncSymbol) :
    Logged fun look => inferResult (w look) f position := by
  unfold inferResult
  cases f.isBuiltin with
  | true => exact .quiet (.pure ())
  | false =>
    refine .bind (.quiet (.ofResult FuncSymbol.declaration_withinLimit)) fun d =>
      .bind (.quiet (progress?_quiet _)) fun begun => ?_
    cases begun with
    | none => exact hw.function d
    | some progress =>
      cases progress with
      | inProgress => exact .quiet (notInferred_quiet _)
      | done => exact .quiet (.pure ())

theorem callResult_logged (hw : Demand.Logged w) (id : FuncId) :
    Logged fun look => callResult (w look) id position := by
  refine .bind (.quiet (func_quiet id)) fun f => ?_
  by_cases hkind : f.kind = .proc
  · simp only [hkind, if_true]
    exact .quiet (.pure _)
  · simp only [hkind, if_false]
    cases f.ret with
    | some ret => exact .quiet (.pure _)
    | none =>
      exact .bind (inferResult_logged hw f) fun _ => .quiet (.bind (func_quiet id) fun _ => .pure _)

theorem funcValue_logged (hw : Demand.Logged w) (id : FuncId) :
    Logged fun look => funcValue (w look) id position := by
  refine .bind (.quiet (func_quiet id)) fun f => ?_
  by_cases hkind : f.kind = .proc
  · simp only [hkind, if_true]
    exact .quiet (.pure _)
  · simp only [hkind, if_false]
    exact .bind (callResult_logged hw id) fun _ => .quiet (.pure _)

private theorem get_run {f : AnalysisState → Check α} {s : AnalysisState} :
    ((MonadState.get : Check AnalysisState) >>= f) s = f s s := rfl

/-- While an instance is made and analysed it is counted, and afterwards it is not. -/
theorem instance_logged (hw : Demand.Logged w) (d : FuncDef) (args : List Ty)
    (s : AnalysisState) : LoggedAt s fun look => do
      let (copy, id) ← makeInstance d args (s.active.getD d.info.id 0)
      andFinally ((w look).function copy) fun t =>
        { t with active := t.active.insert d.info.id (s.active.getD d.info.id 0) }
      return id where
  recorded := by
    have hmade := makeInstance_counts d args (s.active.getD d.info.id 0) s
    have hkeeps : s.Keeps (finalState (makeInstance d args (s.active.getD d.info.id 0) s)) :=
      ensures_finalState.mp (hmade.imp_both (fun _ _ h => .of_rests h.1)
        fun _ _ h => (AnalysisState.Keeps.recount s _).trans (.of_rests h))
    refine Recorded.bind (.nil hkeeps fun _ _ hrun => (hmade.of_error hrun).2) fun made t _ => ?_
    obtain ⟨log, hlog⟩ := (hw.function made.1 t).recorded
    exact (hlog.andFinally fun u => .recount u _).bind fun _ u _ =>
      (Logged.quiet (.pure made.2) u).recorded
  counted k := by
    refine (ensures_finalState (P := fun t => t.active.getD k 0 = s.active.getD k 0)).mp
      (.bind ((makeInstance_counts d args _ s).imp_both (fun _ _ h => by rw [h.1.active])
        fun made t hst => .bind (.andFinally ?_)))
    have hrestored : ∀ u : AnalysisState, u.active.getD k 0 = t.active.getD k 0 →
        (u.active.insert d.info.id (s.active.getD d.info.id 0)).getD k 0 = s.active.getD k 0 := by
      intro u hu
      rw [hst.active] at hu
      simp only [Std.TreeMap.getD_insert, Std.compare_eq_iff_eq] at hu ⊢
      split
      · next heq => rw [heq]
      · next hne => rw [hu, if_neg hne]
    exact (ensures_finalState.mpr ((hw.function made.1 t).counted k)).imp_both
      (fun _ u => hrestored u) fun _ u hu => .pure (hrestored u hu)

theorem instantiate_logged (hw : Demand.Logged w) (template : FuncSymbol) (args : List Ty) :
    Logged fun look => instantiate (w look) template args position := by
  refine .bind (.quiet (.ofResult FuncSymbol.declaration_withinLimit)) fun d s => ?_
  obtain ⟨stack, hvisit⟩ := hw.visit
  simp only [hvisit]
  cases hfind : s.known.find? fun i => i.template == d.info.id && decide (i.args = args) with
  | some known =>
    obtain ⟨hm, hkey, hargs⟩ := find?_eq_some_known hfind
    refine LoggedAt.seen (g := fun _ => pure known.func) ?_ (fun look => ?_)
      (Logged.quiet (.pure _) s)
    · rintro _ _ ⟨_, _, ⟨⟩, hnew, -⟩
      exact hnew known hm hkey hargs
    · rw [get_run]
      simp only [hfind]
      rfl
  | none =>
    have hnew := find?_eq_none_known hfind
    by_cases hlimit : instantiationLimit ≤ s.active.getD d.info.id 0
    · refine LoggedAt.refusal hnew hlimit fun look => ?_
      rw [get_run]
      simp only [hfind, hlimit, if_true]
      rfl
    · refine LoggedAt.seen ?_ (fun look => ?_) (instance_logged hw d args s)
      · rintro _ _ ⟨_, _, ⟨⟩, -, hdepth⟩
        exact hlimit hdepth
      · rw [get_run]
        simp only [hfind, hlimit, if_false]
        rfl

theorem selected_logged (hw : Demand.Logged w) (id : FuncId) (f : FuncSymbol) (args : List Ty) :
    Logged fun look => selected (w look) id f args position := by
  unfold selected
  cases f.isTemplate && !f.isBuiltin with
  | true => exact instantiate_logged hw f args
  | false => exact .quiet (.pure id)

theorem callFunction_logged (hw : Demand.Logged w) (name : String) (args : List Ty) :
    Logged fun look => callFunction (w look) name args position := by
  refine .bind (.quiet store_quiet) fun s => ?_
  dsimp only
  cases (s.lookupFunctions name).isEmpty with
  | true => exact .quiet (fail_quiet rfl)
  | false =>
    cases Overload.select (s.lookupFunctions name) name args with
    | none => exact .quiet (fail_quiet rfl)
    | some choice =>
      exact .bind (selected_logged hw _ _ args) fun id =>
        .bind (callResult_logged hw id) fun _ => .quiet (.pure _)

theorem demandVariable_logged (hw : Demand.Logged w) (handle : VarHandle) (name : String) :
    Logged fun look => demandVariable (w look) handle name := by
  refine .bind (.quiet store_quiet) fun s => ?_
  cases (s.var? handle).any (·.type.isNone) with
  | true => exact demandConstant_logged hw name
  | false => exact .quiet (.pure ())

theorem variableType_logged (hw : Demand.Logged w) (handle : VarHandle) (name : String) :
    Logged fun look => variableType (w look) handle name position := by
  refine .bind (demandVariable_logged hw handle name) fun _ =>
    .quiet (.bind store_quiet fun s => ?_)
  split
  · exact .pure _
  · exact notInferred_quiet _

theorem nameType_logged (hw : Demand.Logged w) (info : NodeInfo) (name : String) :
    Logged fun look => nameType (w look) scope info name := by
  refine .bind (.quiet store_quiet) fun s => ?_
  cases s.lookupVar scope name with
  | some handle =>
    exact .bind (.quiet (link_quiet _ _)) fun _ => variableType_logged hw handle name
  | none =>
    by_cases hname : name = "_"
    · simp only [hname, if_true]
      exact .quiet (.pure _)
    · simp only [hname, if_false]
      cases (s.lookupFunctions name).isEmpty with
      | true => exact .quiet (fail_quiet rfl)
      | false =>
        generalize (s.lookupFunctions name).filter _ = found
        match found with
        | [] => exact .quiet (fail_quiet rfl)
        | [(id, _)] => exact .bind (.quiet (link_quiet _ _)) fun _ => funcValue_logged hw id
        | _ :: _ :: _ => exact .quiet (fail_quiet rfl)

theorem callByName_logged (hw : Demand.Logged w) (site callee : NodeInfo) (name : String)
    (args : List Ty) : Logged fun look => callByName (w look) site callee name args :=
  .bind (callFunction_logged hw name args) fun _ => .quiet (.bind (link_quiet _ _) fun _ =>
    .bind (link_quiet _ _) fun _ => .bind (typeCallee_quiet _ _) fun _ => .pure _)

/-! ### Expressions -/

end Check

/-- Runs over an expression are logged, wherever it stands. -/
def Expr.Logged (w : Look → Demand) (e : Expr) : Prop :=
  ∀ scope hint, Frontend.Logged fun look => expr (w look) scope hint e

/-- Runs over the body of a definition are logged. -/
def FuncDef.Logged (w : Look → Demand) (d : FuncDef) : Prop :=
  Frontend.Logged fun look => function (w look) d

namespace Check

theorem typing_logged (hw : Demand.Logged w) (node : Nat) {act : Look → Check Ty}
    (h : Logged act) : Logged fun look => typing (w look) node (act look) :=
  visiting_logged hw node (.bind h fun _ => .quiet (.bind (setType_quiet _ _) fun _ => .pure _))

theorem exprs_logged {es : List Expr} (h : ∀ e ∈ es, e.Logged w) (hints : List (Option Ty)) :
    Logged fun look => exprs (w look) scope hints es := by
  induction es generalizing hints with
  | nil => exact .congr (fun _ => exprs.eq_def ..) (.quiet (.pure _))
  | cons e rest ih =>
    rw [List.forall_mem_cons] at h
    exact .congr (fun _ => exprs.eq_def ..) (.bind (h.1 _ _) fun _ => .bind (ih h.2 _) fun _ =>
      .quiet (.pure _))

theorem sameType_logged {es : List Expr} (h : ∀ e ∈ es, e.Logged w) (type : Ty) :
    Logged fun look => sameType (w look) scope type es := by
  induction es with
  | nil => exact .congr (fun _ => sameType.eq_def ..) (.quiet (.pure _))
  | cons e rest ih =>
    rw [List.forall_mem_cons] at h
    exact .congr (fun _ => sameType.eq_def ..) (.bind (h.1 _ _) fun _ =>
      .bind (.quiet (expectType_quiet _ _)) fun _ => ih h.2)

theorem sameEntries_logged {entries : List (Expr × Expr)}
    (h : ∀ e ∈ entries, e.1.Logged w ∧ e.2.Logged w) (key value : Ty) :
    Logged fun look => sameEntries (w look) scope key value entries := by
  induction entries with
  | nil => exact .congr (fun _ => sameEntries.eq_def ..) (.quiet (.pure _))
  | cons e rest ih =>
    rw [List.forall_mem_cons] at h
    exact .congr (fun _ => sameEntries.eq_def ..) (.bind (h.1.1 _ _) fun _ =>
      .bind (.quiet (expectType_quiet _ _)) fun _ => .bind (h.1.2 _ _) fun _ =>
        .bind (.quiet (expectType_quiet _ _)) fun _ => ih h.2)

theorem values_logged {es : List Expr} (h : ∀ e ∈ es, e.Logged w) (hints : List (Option Ty)) :
    Logged fun look => values (w look) scope hints position es := by
  cases es with
  | nil =>
    cases hints with
    | nil => exact .congr (fun _ => values.eq_def ..) (.quiet (.pure _))
    | cons hint hints => exact .congr (fun _ => values.eq_def ..) (.quiet (wrongCount_quiet _ _))
  | cons e rest =>
    rw [List.forall_mem_cons] at h
    refine .congr (fun _ => values.eq_def ..) ?_
    by_cases hcount : rest.length + 1 = hints.length
    · simp only [hcount, if_true]
      exact .bind (h.1 _ _) fun _ => .bind (exprs_logged h.2 _) fun _ => .quiet (.pure _)
    · simp only [hcount, if_false]
      cases rest.isEmpty with
      | true => exact .bind (h.1 _ _) fun _ => .quiet (takeApart_quiet _ _)
      | false => exact .quiet (wrongCount_quiet _ _)

theorem targets_logged {es : List Expr} (h : ∀ e ∈ es, e.Logged w) :
    Logged fun look => targets (w look) scope es := by
  induction es with
  | nil => exact .congr (fun _ => targets.eq_def ..) (.quiet (.pure _))
  | cons e rest ih =>
    rw [List.forall_mem_cons] at h
    refine .congr (fun _ => targets.eq_def ..) (.bind (.quiet store_quiet) fun s => ?_)
    dsimp only
    cases isIgnored s scope e with
    | true => exact .bind (.quiet (.pure _)) fun _ => .bind (ih h.2) fun _ => .quiet (.pure _)
    | false => exact .bind (.map (h.1 _ _)) fun _ => .bind (ih h.2) fun _ => .quiet (.pure _)

variable (hw : Demand.Logged w) (info : NodeInfo)
include hw

theorem literal_logged (value : Literal) : (Expr.literal info value).Logged w := fun _ _ =>
  .congr (fun _ => expr.eq_def ..) (typing_logged hw _ (.quiet (.pure _)))

theorem array_logged {elems : List Expr} (h : ∀ e ∈ elems, e.Logged w) :
    (Expr.array info elems).Logged w := by
  refine fun scope hint => .congr (fun _ => expr.eq_def ..) (typing_logged hw _ ?_)
  cases elems with
  | nil =>
    cases elemHint hint with
    | none => exact .quiet (notInferred_quiet _)
    | some elem => exact .quiet (.pure _)
  | cons first rest =>
    rw [List.forall_mem_cons] at h
    exact .bind (h.1 _ _) fun _ => .bind (sameType_logged h.2 _) fun _ => .quiet (.pure _)

theorem tuple_logged {elems : List Expr} (h : ∀ e ∈ elems, e.Logged w) :
    (Expr.tuple info elems).Logged w := fun _ _ =>
  .congr (fun _ => expr.eq_def ..) (typing_logged hw _ (.bind (exprs_logged h _) fun _ =>
    .quiet (.pure _)))

theorem dict_logged {entries : List (Expr × Expr)}
    (h : ∀ e ∈ entries, e.1.Logged w ∧ e.2.Logged w) : (Expr.dict info entries).Logged w := by
  refine fun scope hint => .congr (fun _ => expr.eq_def ..) (typing_logged hw _ ?_)
  cases entries with
  | nil =>
    refine .quiet ?_
    split
    · exact .pure _
    · exact notInferred_quiet _
  | cons first rest =>
    rw [List.forall_mem_cons] at h
    exact .bind (h.1.1 _ _) fun _ => .bind (h.1.2 _ _) fun _ =>
      .bind (sameEntries_logged h.2 _ _) fun _ => .quiet (.pure _)

theorem varRef_logged (name : String) (assigned : Bool) :
    (Expr.varRef info name assigned).Logged w := fun _ _ =>
  .congr (fun _ => expr.eq_def ..) (typing_logged hw _ (nameType_logged hw info name))

theorem member_logged {receiver : Expr} (h : receiver.Logged w) (name : String) :
    (Expr.member info receiver name).Logged w := by
  refine fun scope hint => .congr (fun _ => expr.eq_def ..) (typing_logged hw _
    (.bind (h _ _) fun type => ?_))
  cases type.member? name with
  | some type => exact .quiet (.pure _)
  | none => exact .bind (callFunction_logged hw name _) fun _ =>
      .quiet (.bind (link_quiet _ _) fun _ => .pure _)

theorem index_logged {receiver index : Expr} (hr : receiver.Logged w) (hi : index.Logged w) :
    (Expr.index info receiver index).Logged w := fun _ _ =>
  .congr (fun _ => expr.eq_def ..) (typing_logged hw _ (.bind (hr _ _) fun _ =>
    .bind (hi _ _) fun _ => .quiet (indexType_quiet _ _ _ _)))

theorem call_logged {callee : Expr} {args : List Expr} (hc : callee.Logged w)
    (hr : ∀ {info receiver name}, callee = .member info receiver name → receiver.Logged w)
    (ha : ∀ e ∈ args, e.Logged w) : (Expr.call info callee args).Logged w := by
  refine fun scope hint => .congr (fun _ => expr.eq_def ..) (typing_logged hw _
    (.bind (exprs_logged ha _) fun types => ?_))
  have hvalue : Logged fun look => expr (w look) scope none callee >>= fun type =>
      callValue info callee type callee.label types :=
    .bind (hc _ _) fun _ => .quiet (callValue_quiet _ _ _ _ _)
  cases callee with
  | varRef calleeInfo name assigned =>
    refine .bind (.quiet store_quiet) fun s => ?_
    cases (s.lookupVar scope name).isNone with
    | true => exact callByName_logged hw _ _ name types
    | false => exact hvalue
  | member calleeInfo receiver name =>
    refine .bind (hr rfl _ _) fun type => ?_
    generalize (if types.isEmpty then type.member? name else none) = known
    cases known with
    | some type => exact .quiet (.bind (setType_quiet _ _) fun _ => .pure _)
    | none => exact callByName_logged hw _ _ name _
  | _ => exact hvalue

theorem unary_logged (op : UnaryOp) {operand : Expr} (h : operand.Logged w) :
    (Expr.unary info op operand).Logged w := by
  refine fun scope hint => .congr (fun _ => expr.eq_def ..) (typing_logged hw _
    (.bind (h _ _) fun type => .quiet ?_))
  split
  · exact .pure _
  · exact mismatch_quiet _ _

theorem binary_logged (op : BinaryOp) {lhs rhs : Expr} (hl : lhs.Logged w) (hr : rhs.Logged w) :
    (Expr.binary info op lhs rhs).Logged w := by
  refine fun scope hint => .congr (fun _ => expr.eq_def ..) (typing_logged hw _
    (.bind (hl _ _) fun left => .bind (hr _ _) fun right =>
      .bind (.quiet (expectType_quiet _ _)) fun _ => .quiet ?_))
  split
  · exact .pure _
  · exact mismatch_quiet _ _

theorem cast_logged {value : Expr} (h : value.Logged w) (written : TypeExpr) :
    (Expr.cast info value written).Logged w := fun _ _ =>
  .congr (fun _ => expr.eq_def ..) (typing_logged hw _ (.bind (h _ _) fun _ =>
    .quiet (denoted_quiet _)))

theorem typed_logged {value : Expr} (h : value.Logged w) (written : TypeExpr) :
    (Expr.typed info value written).Logged w := fun _ _ =>
  .congr (fun _ => expr.eq_def ..) (typing_logged hw _ (.bind (.quiet (denoted_quiet _)) fun _ =>
    .bind (h _ _) fun _ => .quiet (.bind (expectType_quiet _ _) fun _ => .pure _)))

theorem ifElse_logged (kind : IfKind) {condition thenValue elseValue : Expr}
    (hc : condition.Logged w) (ht : thenValue.Logged w) (he : elseValue.Logged w) :
    (Expr.ifElse info kind condition thenValue elseValue).Logged w := fun _ _ =>
  .congr (fun _ => expr.eq_def ..) (typing_logged hw _ (.bind (hc _ _) fun _ =>
    .bind (.quiet (expectType_quiet _ _)) fun _ => .bind (ht _ _) fun _ => .bind (he _ _) fun _ =>
      .quiet (.bind (expectType_quiet _ _) fun _ => .pure _)))

theorem range_logged {first last : Expr} (hf : first.Logged w) (hl : last.Logged w)
    (inclusive : Bool) : (Expr.range info first last inclusive).Logged w := by
  refine fun scope hint => .congr (fun _ => expr.eq_def ..) (typing_logged hw _
    (.bind (hf _ _) fun _ => .bind (hl _ _) fun _ => .quiet (.bind (expectType_quiet _ _) fun _ =>
      ?_)))
  split
  · exact .pure _
  · exact mismatch_quiet _ _

theorem lambda_logged {d : FuncDef} (h : d.Logged w) : (Expr.lambda info d).Logged w := fun _ _ =>
  .congr (fun _ => expr.eq_def ..) (typing_logged hw _
    (.bind (.quiet (declareLambda_quiet _ _)) fun _ => .bind h fun _ =>
      .quiet (lambdaType_quiet _ _ _)))

end Check

/-! ### Statements -/

/-- Runs over a statement are logged, wherever it stands. -/
def Stmt.Logged (w : Look → Demand) (st : Stmt) : Prop :=
  ∀ scope, Frontend.Logged fun look => stmt (w look) scope st

/-- Runs over a block are logged, wherever it stands. -/
def Block.Logged (w : Look → Demand) (b : Block) : Prop :=
  ∀ parent, Frontend.Logged fun look => block (w look) parent b

namespace Check

theorem stmts_logged {body : List Stmt} (h : ∀ st ∈ body, st.Logged w) :
    Logged fun look => stmts (w look) scope body := by
  induction body with
  | nil => exact .congr (fun _ => stmts.eq_def ..) (.quiet (.pure _))
  | cons st rest ih =>
    rw [List.forall_mem_cons] at h
    exact .congr (fun _ => stmts.eq_def ..) (.bind (h.1 _) fun _ => ih h.2)

theorem block_logged (info : NodeInfo) {body : List Stmt} (h : ∀ st ∈ body, st.Logged w) :
    (Block.mk info body).Logged w := fun _ =>
  .congr (fun _ => block.eq_def ..) (.bind (.quiet (openBlock_quiet _ _)) fun _ => stmts_logged h)

theorem optionalBlock_logged {b : Option Block} (h : ∀ c ∈ b, c.Logged w) :
    Logged fun look => optionalBlock (w look) scope b := by
  cases b with
  | none => exact .congr (fun _ => optionalBlock.eq_def ..) (.quiet (.pure _))
  | some b => exact .congr (fun _ => optionalBlock.eq_def ..) (h b rfl scope)

theorem arms_logged {whens : List (Expr × Block)} (h : ∀ a ∈ whens, a.1.Logged w ∧ a.2.Logged w) :
    Logged fun look => arms (w look) scope whens := by
  induction whens with
  | nil => exact .congr (fun _ => arms.eq_def ..) (.quiet (.pure _))
  | cons a rest ih =>
    rw [List.forall_mem_cons] at h
    exact .congr (fun _ => arms.eq_def ..) (.bind (h.1.1 _ _) fun _ =>
      .bind (.quiet (expectType_quiet _ _)) fun _ => .bind (h.1.2 _) fun _ => ih h.2)

theorem valueArms_logged {whens : List (List Expr × Block)}
    (h : ∀ a ∈ whens, (∀ e ∈ a.1, e.Logged w) ∧ a.2.Logged w) (type : Ty) :
    Logged fun look => valueArms (w look) scope type whens := by
  induction whens with
  | nil => exact .congr (fun _ => valueArms.eq_def ..) (.quiet (.pure _))
  | cons a rest ih =>
    rw [List.forall_mem_cons] at h
    exact .congr (fun _ => valueArms.eq_def ..) (.bind (sameType_logged h.1.1 _) fun _ =>
      .bind (h.1.2 _) fun _ => ih h.2)

theorem initStmt_logged {i : Init} (h : ∀ e ∈ i.values, e.Logged w) :
    Logged fun look => initStmt (w look) scope i := by
  obtain ⟨info, decls, es⟩ := i
  refine .congr (fun _ => initStmt.eq_def ..)
    (.bind (.quiet (.mapM (fun d => denoted?_quiet _) _)) fun explicit => ?_)
  refine .bind ?_ fun _ => .quiet (declareVars_quiet _ _ _)
  cases es with
  | nil => exact .quiet (declaredTypes_quiet _ _)
  | cons e rest => exact values_logged h _

theorem initStmts_logged {inits : List Init} (h : ∀ i ∈ inits, ∀ e ∈ i.values, e.Logged w) :
    Logged fun look => initStmts (w look) scope inits := by
  induction inits with
  | nil => exact .congr (fun _ => initStmts.eq_def ..) (.quiet (.pure _))
  | cons i rest ih =>
    rw [List.forall_mem_cons] at h
    exact .congr (fun _ => initStmts.eq_def ..) (.bind (initStmt_logged h.1) fun _ => ih h.2)

variable (hw : Demand.Logged w)
include hw

theorem init_logged {i : Init} (h : ∀ e ∈ i.values, e.Logged w) : (Stmt.init i).Logged w :=
  fun _ => .congr (fun _ => stmt.eq_def ..) (visiting_logged hw _ (initStmt_logged h))

theorem assign_logged (info : NodeInfo) {ts es : List Expr} (op : Option BinaryOp)
    (ht : ∀ e ∈ ts, e.Logged w) (he : ∀ e ∈ es, e.Logged w) :
    (Stmt.assign info ts op es).Logged w := by
  cases op with
  | none =>
    exact fun scope => .congr (f := fun look => visiting (w look) info.id do
        let hints ← targets (w look) scope ts
        let types ← values (w look) scope hints info.span.start es
        assignTargets ts hints types)
      (fun _ => by rw [stmt]; rfl)
      (visiting_logged hw _ (.bind (targets_logged ht) fun _ => .bind (values_logged he _) fun _ =>
        .quiet (assignTargets_quiet _ _ _)))
  | some op =>
    refine fun scope => .congr (fun _ => stmt.eq_def ..) (visiting_logged hw _ ?_)
    -- Only a single target with a single value is not refused.
    rcases ts with _ | ⟨target, _ | ⟨other, ts⟩⟩
    · exact .quiet (wrongCount_quiet _ _)
    · rcases es with _ | ⟨value, _ | ⟨other, es⟩⟩
      · exact .quiet (wrongCount_quiet _ _)
      · rw [List.forall_mem_singleton] at ht he
        exact .bind (ht _ _) fun _ => .bind (he _ _) fun _ => .quiet (.bind (expectType_quiet _ _)
          fun _ => .bind (expectOperand_quiet _ _) fun _ => checkAssignable_quiet _)
      · exact .quiet (wrongCount_quiet _ _)
    · exact .quiet (wrongCount_quiet _ _)

theorem ifStmt_logged (info : NodeInfo) (kind : IfKind) {condition : Expr} {thenBlock : Block}
    {elseifs : List (Expr × Block)} {elseBlock : Option Block} (hc : condition.Logged w)
    (ht : thenBlock.Logged w) (ha : ∀ a ∈ elseifs, a.1.Logged w ∧ a.2.Logged w)
    (he : ∀ b ∈ elseBlock, b.Logged w) :
    (Stmt.ifElse info kind condition thenBlock elseifs elseBlock).Logged w := fun _ =>
  .congr (fun _ => stmt.eq_def ..) (visiting_logged hw _ (.bind (hc _ _) fun _ =>
    .bind (.quiet (expectType_quiet _ _)) fun _ => .bind (ht _) fun _ =>
      .bind (arms_logged ha) fun _ => optionalBlock_logged he))

theorem ret_logged (info : NodeInfo) {es : List Expr} (h : ∀ e ∈ es, e.Logged w) :
    (Stmt.ret info es).Logged w := by
  refine fun scope => .congr (fun _ => stmt.eq_def ..) (visiting_logged hw _
    (.bind (.quiet currentFunc?_quiet) fun current => ?_))
  cases current with
  | none => exact .quiet (fail_quiet rfl)
  | some current => exact .bind (exprs_logged h _) fun _ => .quiet (returnType_quiet _ _)

theorem case_logged (info : NodeInfo) {whens : List (Expr × Block)} {elseBlock : Option Block}
    (ha : ∀ a ∈ whens, a.1.Logged w ∧ a.2.Logged w) (he : ∀ b ∈ elseBlock, b.Logged w) :
    (Stmt.case info whens elseBlock).Logged w := fun _ =>
  .congr (fun _ => stmt.eq_def ..) (visiting_logged hw _ (.bind (arms_logged ha) fun _ =>
    optionalBlock_logged he))

theorem switch_logged (info : NodeInfo) {target : Expr} {whens : List (List Expr × Block)}
    {elseBlock : Option Block} (ht : target.Logged w)
    (ha : ∀ a ∈ whens, (∀ e ∈ a.1, e.Logged w) ∧ a.2.Logged w)
    (he : ∀ b ∈ elseBlock, b.Logged w) : (Stmt.switch info target whens elseBlock).Logged w :=
  fun _ => .congr (fun _ => stmt.eq_def ..) (visiting_logged hw _ (.bind (ht _ _) fun _ =>
    .bind (valueArms_logged ha _) fun _ => optionalBlock_logged he))

theorem forIn_logged (info : NodeInfo) (vars : List Param) {range : Expr} {body : Block}
    (hr : range.Logged w) (hb : ∀ st ∈ body.stmts, st.Logged w) :
    (Stmt.forIn info vars range body).Logged w := by
  obtain ⟨bodyInfo, body⟩ := body
  refine fun scope => .congr (fun _ => stmt.eq_def ..) (visiting_logged hw _
    (.bind (hr _ _) fun type => ?_))
  cases type.element? with
  | none => exact .quiet (mismatch_quiet _ _)
  | some elem =>
    exact .bind (.quiet (loopTypes_quiet _ _)) fun _ =>
      .bind (.quiet (openBlock_quiet _ _)) fun _ =>
        .bind (.quiet (declareLoopVars_quiet _ _)) fun _ => stmts_logged hb

theorem whileDo_logged (info : NodeInfo) {condition : Expr} {body : Block}
    (hc : condition.Logged w) (hb : body.Logged w) :
    (Stmt.whileDo info condition body).Logged w := fun _ =>
  .congr (fun _ => stmt.eq_def ..) (visiting_logged hw _ (.bind (hc _ _) fun _ =>
    .bind (.quiet (expectType_quiet _ _)) fun _ => hb _))

theorem guarded_logged (info : NodeInfo) (kind : IfKind) {body : Stmt} {condition : Expr}
    (hb : body.Logged w) (hc : condition.Logged w) :
    (Stmt.guarded info body kind condition).Logged w := fun _ =>
  .congr (fun _ => stmt.eq_def ..) (visiting_logged hw _ (.bind (hb _) fun _ =>
    .bind (hc _ _) fun _ => .quiet (expectType_quiet _ _)))

theorem letIn_logged (info : NodeInfo) {inits : List Init} {child : Stmt}
    (hi : ∀ i ∈ inits, ∀ e ∈ i.values, e.Logged w) (hc : child.Logged w) :
    (Stmt.letIn info inits child).Logged w := fun _ =>
  .congr (fun _ => stmt.eq_def ..) (visiting_logged hw _
    (.bind (.quiet (openBlock_quiet _ _)) fun _ => .bind (initStmts_logged hi) fun _ => hc _))

theorem exprStmt_logged {value : Expr} (h : value.Logged w) : (Stmt.expr value).Logged w :=
  fun _ => .congr (fun _ => stmt.eq_def ..) (visiting_logged hw _ (.bind (h _ _) fun _ =>
    .quiet (.pure _)))

theorem function_logged (info : NodeInfo) (kind : FuncKind) (name : String) (params : List Param)
    (returnType : Option TypeExpr) {body : Block} {ensureBody : Option Block}
    (hb : body.Logged w) (he : ∀ b ∈ ensureBody, b.Logged w) :
    (FuncDef.mk info kind name params returnType body ensureBody).Logged w :=
  .congr (fun _ => function.eq_def ..) (analysing_logged hw _
    (.bind (.quiet (declared_quiet _)) fun _ => .bind (hb _) fun _ =>
      .bind (optionalBlock_logged he) fun _ => .quiet (settleReturn_quiet _)))

end Check

/-! ### All trees -/

mutual

/-- A call runs over the receiver of a member access that it calls, hence the second part. -/
theorem Expr.logged_and_receiver (hw : Demand.Logged w) : (e : Expr) → e.Logged w ∧
    ∀ {info receiver name}, e = .member info receiver name → receiver.Logged w
  | .literal info value => ⟨literal_logged hw info value, nofun⟩
  | .array info elems => ⟨array_logged hw info (exprs_all_logged hw elems), nofun⟩
  | .tuple info elems => ⟨tuple_logged hw info (exprs_all_logged hw elems), nofun⟩
  | .dict info entries => ⟨dict_logged hw info (entries_all_logged hw entries), nofun⟩
  | .varRef info name assigned => ⟨varRef_logged hw info name assigned, nofun⟩
  | .member info receiver name => by
    have hr := (receiver.logged_and_receiver hw).1
    refine ⟨member_logged hw info hr name, ?_⟩
    rintro _ _ _ ⟨⟩
    exact hr
  | .index info receiver index =>
    ⟨index_logged hw info (receiver.logged_and_receiver hw).1 (index.logged_and_receiver hw).1,
      nofun⟩
  | .call info callee args =>
    ⟨call_logged hw info (callee.logged_and_receiver hw).1 (callee.logged_and_receiver hw).2
      (exprs_all_logged hw args), nofun⟩
  | .unary info op operand => ⟨unary_logged hw info op (operand.logged_and_receiver hw).1, nofun⟩
  | .binary info op lhs rhs =>
    ⟨binary_logged hw info op (lhs.logged_and_receiver hw).1 (rhs.logged_and_receiver hw).1,
      nofun⟩
  | .cast info value written =>
    ⟨cast_logged hw info (value.logged_and_receiver hw).1 written, nofun⟩
  | .typed info value written =>
    ⟨typed_logged hw info (value.logged_and_receiver hw).1 written, nofun⟩
  | .ifElse info kind condition thenValue elseValue =>
    ⟨ifElse_logged hw info kind (condition.logged_and_receiver hw).1
      (thenValue.logged_and_receiver hw).1 (elseValue.logged_and_receiver hw).1, nofun⟩
  | .range info first last inclusive =>
    ⟨range_logged hw info (first.logged_and_receiver hw).1 (last.logged_and_receiver hw).1
      inclusive, nofun⟩
  | .lambda info d => ⟨lambda_logged hw info (d.all_logged hw), nofun⟩

theorem exprs_all_logged (hw : Demand.Logged w) : (es : List Expr) → ∀ e ∈ es, e.Logged w
  | [] => nofun
  | e :: rest => List.forall_mem_cons.mpr ⟨(e.logged_and_receiver hw).1, exprs_all_logged hw rest⟩

theorem entries_all_logged (hw : Demand.Logged w) : (es : List (Expr × Expr)) →
    ∀ e ∈ es, e.1.Logged w ∧ e.2.Logged w
  | [] => nofun
  | (key, value) :: rest => List.forall_mem_cons.mpr
      ⟨⟨(key.logged_and_receiver hw).1, (value.logged_and_receiver hw).1⟩,
        entries_all_logged hw rest⟩

theorem FuncDef.all_logged (hw : Demand.Logged w) : (d : FuncDef) → d.Logged w
  | ⟨info, kind, name, params, returnType, body, ensureBody⟩ =>
    function_logged hw info kind name params returnType (body.all_logged hw)
      (optional_all_logged hw ensureBody)

theorem Block.all_logged (hw : Demand.Logged w) : (b : Block) → b.Logged w
  | ⟨info, stmts⟩ => block_logged info (stmts_all_logged hw stmts)

theorem optional_all_logged (hw : Demand.Logged w) : (b : Option Block) → ∀ c ∈ b, c.Logged w
  | none => nofun
  | some b => by
    rintro _ ⟨⟩
    exact b.all_logged hw

theorem Init.all_logged (hw : Demand.Logged w) : (i : Init) → ∀ e ∈ i.values, e.Logged w
  | ⟨_, _, values⟩ => exprs_all_logged hw values

theorem Stmt.all_logged (hw : Demand.Logged w) : (st : Stmt) → st.Logged w
  | .init i => init_logged hw (i.all_logged hw)
  | .assign info targets op values =>
    assign_logged hw info op (exprs_all_logged hw targets) (exprs_all_logged hw values)
  | .ifElse info kind condition thenBlock elseifs elseBlock =>
    ifStmt_logged hw info kind (condition.logged_and_receiver hw).1 (thenBlock.all_logged hw)
      (arms_all_logged hw elseifs) (optional_all_logged hw elseBlock)
  | .ret info values => ret_logged hw info (exprs_all_logged hw values)
  | .case info whens elseBlock =>
    case_logged hw info (arms_all_logged hw whens) (optional_all_logged hw elseBlock)
  | .switch info target whens elseBlock =>
    switch_logged hw info (target.logged_and_receiver hw).1 (valueArms_all_logged hw whens)
      (optional_all_logged hw elseBlock)
  | .forIn info vars range ⟨_, body⟩ =>
    forIn_logged hw info vars (range.logged_and_receiver hw).1 (stmts_all_logged hw body)
  | .whileDo info condition body =>
    whileDo_logged hw info (condition.logged_and_receiver hw).1 (body.all_logged hw)
  | .guarded info body kind condition =>
    guarded_logged hw info kind (body.all_logged hw) (condition.logged_and_receiver hw).1
  | .letIn info inits child =>
    letIn_logged hw info (inits_all_logged hw inits) (child.all_logged hw)
  | .expr value => exprStmt_logged hw (value.logged_and_receiver hw).1

theorem stmts_all_logged (hw : Demand.Logged w) : (ss : List Stmt) → ∀ st ∈ ss, st.Logged w
  | [] => nofun
  | st :: rest => List.forall_mem_cons.mpr ⟨st.all_logged hw, stmts_all_logged hw rest⟩

theorem inits_all_logged (hw : Demand.Logged w) : (is : List Init) →
    ∀ i ∈ is, ∀ e ∈ i.values, e.Logged w
  | [] => nofun
  | i :: rest => List.forall_mem_cons.mpr ⟨i.all_logged hw, inits_all_logged hw rest⟩

theorem arms_all_logged (hw : Demand.Logged w) : (whens : List (Expr × Block)) →
    ∀ a ∈ whens, a.1.Logged w ∧ a.2.Logged w
  | [] => nofun
  | (condition, body) :: rest => List.forall_mem_cons.mpr
      ⟨⟨(condition.logged_and_receiver hw).1, body.all_logged hw⟩, arms_all_logged hw rest⟩

theorem valueArms_all_logged (hw : Demand.Logged w) : (whens : List (List Expr × Block)) →
    ∀ a ∈ whens, (∀ e ∈ a.1, e.Logged w) ∧ a.2.Logged w
  | [] => nofun
  | (values, body) :: rest => List.forall_mem_cons.mpr
      ⟨⟨exprs_all_logged hw values, body.all_logged hw⟩, valueArms_all_logged hw rest⟩

end

theorem Check.constants_logged (hw : Demand.Logged w) (d : ConstDef) :
    Logged fun look => constants (w look) d :=
  analysing_logged hw _ (.bind (.quiet (constantHandles_quiet _)) fun _ =>
    .bind (.quiet (.mapM typeOf?_quiet _)) fun _ =>
      .bind (values_logged (exprs_all_logged hw d.values) _) fun _ =>
        .quiet (assignConstants_quiet _ _ _))

/-! ### Programs -/

theorem demandAt_logged (p : Program) (depth : Nat) (stack : List Nat) :
    Demand.Logged fun look => demandAt p (.looking look) depth stack := by
  induction depth generalizing stack with
  | zero =>
    exact
      { visit := ⟨stack, fun _ => rfl⟩
        definitionOf := ⟨p.constantNamed?, fun _ => rfl⟩
        constant := fun _ => .quiet (fault_quiet _)
        function := fun _ => .quiet (fault_quiet _) }
  | succ depth ih =>
    exact
      { visit := ⟨stack, fun _ => rfl⟩
        definitionOf := ⟨p.constantNamed?, fun _ => rfl⟩
        constant := fun d => constants_logged (ih (d.info.id :: stack)) d
        function := fun d => d.all_logged (ih (d.info.id :: stack)) }

theorem Logged.forM {β : Type} {f : Look → β → Check Unit} (h : ∀ b, Logged fun look => f look b)
    (bs : List β) : Logged fun look => bs.forM (f look) := by
  induction bs with
  | nil => exact .quiet (.pure _)
  | cons b rest ih => exact .bind (h b) fun _ => ih

namespace Check

theorem unlessBegun_logged (node : Nat) {act : Look → Check Unit} (h : Logged act) :
    Logged fun look => unlessBegun node (act look) := by
  refine .bind (.quiet (progress?_quiet node)) fun begun => ?_
  cases begun with
  | none => exact h
  | some progress => exact .quiet (.pure ())

/-- The run over a program has a log. -/
theorem program_logged (builtins : Bool) (p : Program) (s : AnalysisState) :
    ∃ log, Recorded (fun look => Check.program builtins (.looking look) p) s log := by
  suffices h : Logged fun look => Check.program builtins (.looking look) p from (h s).recorded
  have hw := demandAt_logged p (p.demandBound + 1) []
  refine .bind (.quiet (register_quiet builtins p)) fun _ => ?_
  refine .bind (.forM (fun d => unlessBegun_logged _ (hw.constant d)) _) fun _ =>
    .forM (fun d => ?_) _
  cases d.isTemplate with
  | true => exact .quiet (.pure ())
  | false => exact unlessBegun_logged _ (hw.function d)

end Check

end Frontend
