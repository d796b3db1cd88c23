import Frontend.Proofs.Analysis.Source
import Frontend.Proofs.Dump.Expr
import Frontend.Proofs.Types.Body

/-!
# Bodies and programs keep symbols legible

Variables get the names and the types of their declarations, functions the result types of the
values that they return. So demands keep the store legible at every depth, and what an accepted
source text leaves behind is a legible store (`analyzeSource_legible`).
-/

namespace Frontend

/-- Runs over a legible block keep the store legible. -/
def Block.KeepsLegible (w : Demand) (b : Block) : Prop :=
  ∀ scope, b.Legible → StaysLegible (Check.block w scope b) fun _ => True

/-- Runs over a legible initialize statement keep the store legible. -/
def Init.KeepsLegible (w : Demand) (i : Init) : Prop :=
  ∀ scope, i.Legible → StaysLegible (Check.initStmt w scope i) fun _ => True

/-- Runs over a legible statement keep the store legible. -/
def Stmt.KeepsLegible (w : Demand) (st : Stmt) : Prop :=
  ∀ scope, st.Legible → StaysLegible (Check.stmt w scope st) fun _ => True

variable {w : Demand} {scope : ScopeId} {position : Position}

namespace Check

/-! ### Declarations and assignments -/

theorem declareVars_legible {decls : List VarDecl} (hd : ∀ d ∈ decls, IsPlain d.name)
    (explicit : List (Option Ty)) {types : List Ty} (ht : TypesInline types) :
    StaysLegible (declareVars scope decls explicit types) fun _ => True := by
  induction decls generalizing explicit types with
  | nil => exact .pure trivial
  | cons d rest ih =>
    rw [List.forall_mem_cons] at hd
    match explicit, types, ht with
    | [], _, _ => exact .pure trivial
    | _ :: _, [], _ => exact .pure trivial
    | expected :: explicit, type :: types, ht =>
      rw [typesInline_cons] at ht
      refine .bind (expectTypeIf_legible _ _) fun _ _ => ?_
      exact .bind (declareVar_legible scope _ hd.1 ht.1 _) fun _ _ => ih hd.2 explicit ht.2

theorem declareLoopVars_legible {params : List Param} (hp : ∀ q ∈ params, IsPlain q.name)
    {types : List Ty} (ht : TypesInline types) :
    StaysLegible (declareLoopVars scope params types) fun _ => True := by
  induction params generalizing types with
  | nil => exact .pure trivial
  | cons q rest ih =>
    rw [List.forall_mem_cons] at hp
    match types, ht with
    | [], _ => exact .pure trivial
    | type :: types, ht =>
      rw [typesInline_cons] at ht
      refine .bind (denoted?_legible _) fun _ _ => .bind (expectTypeIf_legible _ _) fun _ _ => ?_
      exact .bind (declareVar_legible scope _ hp.1 ht.1 _) fun _ _ => ih hp.2 ht.2

theorem checkAssignable_legible (target : Expr) :
    StaysLegible (checkAssignable target) fun _ => True := by
  unfold checkAssignable
  split
  · exact .pure trivial
  · exact .pure trivial
  · refine .bind .get fun s _ => ?_
    dsimp only
    generalize Option.any _ _ = assignable
    split
    · exact .pure trivial
    · exact .fail
  · exact .fail

theorem assignTargets_legible (targets : List Expr) (hints : List (Option Ty)) (types : List Ty) :
    StaysLegible (assignTargets targets hints types) fun _ => True := by
  induction targets generalizing hints types with
  | nil => exact .pure trivial
  | cons target rest ih =>
    match hints, types with
    | [], _ => exact .pure trivial
    | _ :: _, [] => exact .pure trivial
    | hint :: hints, type :: types =>
      have hfirst : StaysLegible (assignTarget target hint type) fun _ => True := by
        cases hint with
        | none => exact setType_legible _ _
        | some expected =>
          exact .bind (expectType_legible _ _) fun _ _ => checkAssignable_legible target
      exact .bind hfirst fun _ _ => ih hints types

/-- A condition comes first. -/
theorem condition_legible {α : Type} {condition : Expr} {f : Check α} {good : α → Prop}
    (h : condition.KeepsLegible w) (hc : condition.Legible) (hf : StaysLegible f good) :
    StaysLegible (do
      let type ← expr w scope (some .bool) condition
      expectType .bool type condition.position
      f) good :=
  .bind (h _ _ hc (hintInline_some.mpr (Ty.inline_builtin _))) fun _ _ =>
    .bind (expectType_legible _ _) fun _ _ => hf

theorem loopTypes_legible (count : Nat) {type : Ty} (ht : type.Inline) :
    StaysLegible (loopTypes count type position) TypesInline := by
  unfold loopTypes
  split
  · exact .pure (List.forall_mem_singleton.mpr ht)
  · exact takeApart_legible count ht

theorem declaredTypes_legible (decls : List VarDecl) {explicit : List (Option Ty)}
    (he : HintsInline explicit) : StaysLegible (declaredTypes decls explicit) TypesInline := by
  induction decls generalizing explicit with
  | nil => exact .pure typesInline_nil
  | cons d rest ih =>
    match explicit, he with
    | [], _ => exact .pure typesInline_nil
    | none :: types, _ => exact .fail
    | some type :: types, he =>
      exact .bind (ih he.tail) fun types htypes =>
        .pure (typesInline_cons.mpr ⟨he.headD type rfl, htypes⟩)

/-! ### Lists of statements -/

theorem stmts_legible {ss : List Stmt} (h : ∀ st ∈ ss, st.KeepsLegible w) (hs : stmtsLegible ss) :
    StaysLegible (stmts w scope ss) fun _ => True := by
  induction ss with
  | nil =>
    rw [stmts]
    exact .pure trivial
  | cons st rest ih =>
    rw [List.forall_mem_cons] at h
    rw [stmtsLegible] at hs
    rw [stmts]
    exact .bind (h.1 _ hs.1) fun _ _ => ih h.2 hs.2

theorem block_keepsLegible (info : NodeInfo) {ss : List Stmt} (h : ∀ st ∈ ss, st.KeepsLegible w) :
    (Block.mk info ss).KeepsLegible w := by
  intro scope hb
  rw [Block.Legible] at hb
  rw [block]
  exact .bind (openBlock_legible _ _) fun _ _ => stmts_legible h hb

theorem optionalBlock_legible {b : Option Block} (h : ∀ b' ∈ b, b'.KeepsLegible w)
    (hb : optionalLegible b) : StaysLegible (optionalBlock w scope b) fun _ => True := by
  cases b with
  | none =>
    rw [optionalBlock]
    exact .pure trivial
  | some b =>
    rw [optionalLegible] at hb
    rw [optionalBlock]
    exact h b rfl _ hb

theorem initStmts_legible {is : List Init} (h : ∀ i ∈ is, i.KeepsLegible w)
    (hi : initsLegible is) : StaysLegible (initStmts w scope is) fun _ => True := by
  induction is with
  | nil =>
    rw [initStmts]
    exact .pure trivial
  | cons i rest ih =>
    rw [List.forall_mem_cons] at h
    rw [initsLegible] at hi
    rw [initStmts]
    exact .bind (h.1 _ hi.1) fun _ _ => ih h.2 hi.2

theorem arms_legible {whens : List (Expr × Block)}
    (h : ∀ a ∈ whens, a.1.KeepsLegible w ∧ a.2.KeepsLegible w) (ha : armsLegible whens) :
    StaysLegible (arms w scope whens) fun _ => True := by
  induction whens with
  | nil =>
    rw [arms]
    exact .pure trivial
  | cons a rest ih =>
    obtain ⟨condition, body⟩ := a
    rw [List.forall_mem_cons] at h
    rw [armsLegible] at ha
    rw [arms]
    exact condition_legible h.1.1 ha.1 (.bind (h.1.2 _ ha.2.1) fun _ _ => ih h.2 ha.2.2)

theorem valueArms_legible {whens : List (List Expr × Block)}
    (h : ∀ a ∈ whens, (∀ e ∈ a.1, e.KeepsLegible w) ∧ a.2.KeepsLegible w)
    (ha : valueArmsLegible whens) {type : Ty} (ht : type.Inline) :
    StaysLegible (valueArms w scope type whens) fun _ => True := by
  induction whens with
  | nil =>
    rw [valueArms]
    exact .pure trivial
  | cons a rest ih =>
    obtain ⟨es, body⟩ := a
    rw [List.forall_mem_cons] at h
    rw [valueArmsLegible] at ha
    rw [valueArms]
    refine .bind (sameType_legible h.1.1 ha.1 ht) fun _ _ => ?_
    exact .bind (h.1.2 _ ha.2.1) fun _ _ => ih h.2 ha.2.2

theorem mapM_legible {α β : Type} {f : α → Check β} {good : β → Prop}
    (h : ∀ a, StaysLegible (f a) good) (as : List α) :
    StaysLegible (as.mapM f) fun bs => ∀ b ∈ bs, good b := by
  induction as with
  | nil =>
    rw [List.mapM_nil]
    exact .pure (List.forall_mem_nil _)
  | cons a rest ih =>
    rw [List.mapM_cons]
    exact .bind (h a) fun _ hb => .bind ih fun _ hbs => .pure (List.forall_mem_cons.mpr ⟨hb, hbs⟩)

theorem init_keepsLegible (info : NodeInfo) (decls : List VarDecl) {es : List Expr}
    (h : ∀ e ∈ es, e.KeepsLegible w) : (Init.mk info decls es).KeepsLegible w := by
  intro scope hi
  rw [Init.Legible] at hi
  rw [initStmt]
  refine .bind (mapM_legible (fun d : VarDecl => denoted?_legible d.type) decls)
    fun explicit hexplicit => ?_
  have hvalues : StaysLegible (if es.isEmpty then declaredTypes decls explicit
      else values w scope explicit info.span.start es) TypesInline := by
    split
    · exact declaredTypes_legible decls hexplicit
    · exact values_legible h hi.2 hexplicit
  exact .bind hvalues fun types htypes => declareVars_legible hi.1 explicit htypes

end Check

/-! ### Statements -/

namespace Stmt

open Check

theorem init_keepsLegible (hw : w.KeepsLegible) {i : Init} (h : i.KeepsLegible w) :
    (Stmt.init i).KeepsLegible w := by
  intro scope hs
  rw [Stmt.Legible] at hs
  rw [stmt_init]
  exact visiting_legible hw _ (h _ hs)

theorem expr_keepsLegible (hw : w.KeepsLegible) {e : Expr} (h : e.KeepsLegible w) :
    (Stmt.expr e).KeepsLegible w := by
  intro scope hs
  rw [Stmt.Legible] at hs
  rw [stmt]
  exact visiting_legible hw _ (.bind (h _ _ hs hintInline_none) fun _ _ => .pure trivial)

variable (hw : w.KeepsLegible) (info : NodeInfo)
include hw

theorem assign_keepsLegible (op : Option BinaryOp) {ts es : List Expr}
    (ht : ∀ e ∈ ts, e.KeepsLegible w) (he : ∀ e ∈ es, e.KeepsLegible w) :
    (Stmt.assign info ts op es).KeepsLegible w := by
  intro scope hs
  rw [Stmt.Legible] at hs
  obtain ⟨hts, hes⟩ := hs
  cases op with
  | none =>
    rw [stmt]
    exact visiting_legible hw _ (.bind (targets_legible ht hts) fun hints hhints =>
      .bind (values_legible he hes hhints) fun types _ => assignTargets_legible ts hints types)
  | some op =>
    by_cases hone : ∃ target value, ts = [target] ∧ es = [value]
    · obtain ⟨target, value, rfl, rfl⟩ := hone
      rw [List.forall_mem_singleton] at ht he
      simp only [exprsLegible, and_true] at hts hes
      have hoperand : ∀ type, StaysLegible (expectOperand op type target.position)
          fun _ => True := fun type => .yields (expectOperand_yields trivial op type)
      rw [stmt]
      exact visiting_legible hw _ (.bind (ht _ _ hts hintInline_none) fun type htype =>
        .bind (he _ _ hes (hintInline_some.mpr htype)) fun _ _ =>
          .bind (expectType_legible _ _) fun _ _ => .bind (hoperand type) fun _ _ =>
            checkAssignable_legible target)
    · rw [stmt]
      · exact visiting_legible hw _ .fail
      · intro target value hts hes
        exact hone ⟨target, value, hts, hes⟩

theorem ifElse_keepsLegible (kind : IfKind) {condition : Expr} {thenBlock : Block}
    {elseifs : List (Expr × Block)} {elseBlock : Option Block} (hc : condition.KeepsLegible w)
    (ht : thenBlock.KeepsLegible w) (ha : ∀ a ∈ elseifs, a.1.KeepsLegible w ∧ a.2.KeepsLegible w)
    (he : ∀ b ∈ elseBlock, b.KeepsLegible w) :
    (Stmt.ifElse info kind condition thenBlock elseifs elseBlock).KeepsLegible w := by
  intro scope hs
  rw [Stmt.Legible] at hs
  obtain ⟨hcondition, hthen, helseifs, helse⟩ := hs
  rw [stmt]
  exact visiting_legible hw _ (condition_legible hc hcondition (.bind (ht _ hthen) fun _ _ =>
    .bind (arms_legible ha helseifs) fun _ _ => optionalBlock_legible he helse))

/-- A function that returns values has an inline result type. -/
theorem ret_keepsLegible {es : List Expr} (h : ∀ e ∈ es, e.KeepsLegible w) :
    (Stmt.ret info es).KeepsLegible w := by
  intro scope hs
  rw [Stmt.Legible] at hs
  rw [stmt]
  have hcurrent : StaysLegible (currentFunc? scope) fun found =>
      ∀ id f, found = some (id, f) → f.Legible := by
    refine .bind .store fun st hst => .pure fun id f hfound => ?_
    obtain ⟨inside, -, hfound⟩ := Option.bind_eq_some_iff.mp hfound
    obtain ⟨id', -, hfound⟩ := Option.bind_eq_some_iff.mp hfound
    obtain ⟨f', hf, hfound⟩ := Option.bind_eq_some_iff.mp hfound
    cases hfound
    exact hst.func hf
  refine visiting_legible hw _ (.bind hcurrent fun found hfound => ?_)
  cases found with
  | none => exact .fail
  | some found =>
    obtain ⟨id, f⟩ := found
    have hret := (hfound id f rfl).ret
    exact .bind (exprs_legible h hs (returnHints_inline hret _)) fun types htypes =>
      returnType_legible id (joinTypes_inline htypes)

theorem case_keepsLegible {whens : List (Expr × Block)} {elseBlock : Option Block}
    (ha : ∀ a ∈ whens, a.1.KeepsLegible w ∧ a.2.KeepsLegible w)
    (he : ∀ b ∈ elseBlock, b.KeepsLegible w) :
    (Stmt.case info whens elseBlock).KeepsLegible w := by
  intro scope hs
  rw [Stmt.Legible] at hs
  rw [stmt]
  exact visiting_legible hw _ (.bind (arms_legible ha hs.1) fun _ _ =>
    optionalBlock_legible he hs.2)

theorem switch_keepsLegible {target : Expr} {whens : List (List Expr × Block)}
    {elseBlock : Option Block} (ht : target.KeepsLegible w)
    (ha : ∀ a ∈ whens, (∀ e ∈ a.1, e.KeepsLegible w) ∧ a.2.KeepsLegible w)
    (he : ∀ b ∈ elseBlock, b.KeepsLegible w) :
    (Stmt.switch info target whens elseBlock).KeepsLegible w := by
  intro scope hs
  rw [Stmt.Legible] at hs
  obtain ⟨htarget, hwhens, helse⟩ := hs
  rw [stmt]
  exact visiting_legible hw _ (.bind (ht _ _ htarget hintInline_none) fun _ htype =>
    .bind (valueArms_legible ha hwhens htype) fun _ _ => optionalBlock_legible he helse)

theorem whileDo_keepsLegible {condition : Expr} {body : Block} (hc : condition.KeepsLegible w)
    (hb : body.KeepsLegible w) : (Stmt.whileDo info condition body).KeepsLegible w := by
  intro scope hs
  rw [Stmt.Legible] at hs
  rw [stmt]
  exact visiting_legible hw _ (condition_legible hc hs.1 (hb _ hs.2))

theorem guarded_keepsLegible {body : Stmt} (kind : IfKind) {condition : Expr}
    (hb : body.KeepsLegible w) (hc : condition.KeepsLegible w) :
    (Stmt.guarded info body kind condition).KeepsLegible w := by
  intro scope hs
  rw [Stmt.Legible] at hs
  rw [stmt]
  exact visiting_legible hw _ (.bind (hb _ hs.1) fun _ _ =>
    .bind (hc _ _ hs.2 (hintInline_some.mpr (Ty.inline_builtin _))) fun _ _ =>
      expectType_legible _ _)

theorem forIn_keepsLegible (bodyInfo : NodeInfo) (vars : List Param) {range : Expr}
    {ss : List Stmt} (hrange : range.KeepsLegible w) (h : ∀ st ∈ ss, st.KeepsLegible w) :
    (Stmt.forIn info vars range ⟨bodyInfo, ss⟩).KeepsLegible w := by
  intro scope hs
  rw [Stmt.Legible, Block.Legible] at hs
  obtain ⟨hvars, hranged, hbody⟩ := hs
  rw [stmt]
  refine visiting_legible hw _ (.bind (hrange _ _ hranged hintInline_none) fun type htype => ?_)
  split
  · exact .fail
  · next elem helem =>
    exact .bind (loopTypes_legible _ (htype.element? helem)) fun types htypes =>
      .bind (openBlock_legible _ _) fun inner _ =>
        .bind (declareLoopVars_legible hvars htypes) fun _ _ => stmts_legible h hbody

theorem letIn_keepsLegible {inits : List Init} {child : Stmt}
    (hi : ∀ i ∈ inits, i.KeepsLegible w) (hc : child.KeepsLegible w) :
    (Stmt.letIn info inits child).KeepsLegible w := by
  intro scope hs
  rw [Stmt.Legible] at hs
  rw [stmt]
  exact visiting_legible hw _ (.bind (openBlock_legible _ _) fun inner _ =>
    .bind (initStmts_legible hi hs.1) fun _ _ => hc _ hs.2)

end Stmt

/-! ### Definitions -/

namespace Check

theorem analysing_legible (hw : w.KeepsLegible) (node : Nat) {act : Check Unit}
    (h : StaysLegible act fun _ => True) : StaysLegible (analysing w node act) fun _ => True :=
  .bind (hw.visit _) fun _ _ => .bind (setProgress_legible _ _) fun _ _ => .bind h fun _ _ =>
    .bind (setProgress_legible _ _) fun _ _ => hw.visit _

theorem declared_legible (info : NodeInfo) : StaysLegible (declared info) fun _ => True := by
  refine .bind .get fun s _ => ?_
  split
  · split
    · exact .pure trivial
    · exact .fault
  · exact .fault

theorem function_keepsLegible (hw : w.KeepsLegible) {d : FuncDef}
    (hbody : d.body.KeepsLegible w) (hensure : ∀ b ∈ d.ensureBody, b.KeepsLegible w) :
    d.KeepsLegible w := by
  intro hd
  obtain ⟨info, kind, name, params, returnType, body, ensureBody⟩ := d
  rw [FuncDef.Legible] at hd
  obtain ⟨-, -, hblock, hoptional⟩ := hd
  rw [function]
  refine analysing_legible hw _ (.bind (declared_legible info) fun r _ => ?_)
  refine .bind (hbody _ hblock) fun _ _ => ?_
  exact .bind (optionalBlock_legible hensure hoptional) fun _ _ => settleReturn_legible _

theorem constantHandles_legible (decls : List ConstDecl) :
    StaysLegible (constantHandles decls) fun _ => True := by
  induction decls with
  | nil => exact .pure trivial
  | cons d rest ih =>
    refine .bind .store fun _ _ => ?_
    split
    · exact .bind ih fun _ _ => .pure trivial
    · exact .fail

theorem assignConstants_legible (decls : List ConstDecl) (handles : List VarHandle)
    {types : List Ty} (ht : TypesInline types) :
    StaysLegible (assignConstants decls handles types) fun _ => True := by
  induction decls generalizing handles types with
  | nil => exact .pure trivial
  | cons d rest ih =>
    match handles, types, ht with
    | [], _, _ => exact .pure trivial
    | _ :: _, [], _ => exact .pure trivial
    | handle :: handles, type :: types, ht =>
      rw [typesInline_cons] at ht
      exact .bind (assignConstant_legible handle ht.1) fun _ _ => ih handles ht.2

theorem constants_legible (hw : w.KeepsLegible) {c : ConstDef}
    (hc : (Definition.constant c).Legible) (h : ∀ e ∈ c.values, e.KeepsLegible w) :
    StaysLegible (constants w c) fun _ => True :=
  analysing_legible hw _ (.bind (constantHandles_legible c.decls) fun handles _ =>
    .bind (mapM_legible typeOf?_legible handles) fun _ hhints =>
      .bind (values_legible h hc.2 hhints) fun _ htypes =>
        assignConstants_legible c.decls handles htypes)

end Check

open Check in
/-- Runs over all parts of a program keep the store legible. -/
theorem keepsLegible (hw : w.KeepsLegible) :
    TreeInduction (Expr.KeepsLegible w) (FuncDef.KeepsLegible w) (Block.KeepsLegible w)
      (Init.KeepsLegible w) (Stmt.KeepsLegible w) where
  literal info value := literal_keepsLegible hw info value
  array info _ h := array_keepsLegible hw info h
  tuple info _ h := tuple_keepsLegible hw info h
  dict info _ h := dict_keepsLegible hw info h
  varRef info name assigned := varRef_keepsLegible hw info name assigned
  member info _ name h := member_keepsLegible hw info h name
  index info _ _ hr hi := index_keepsLegible hw info hr hi
  call info _ _ hc hr ha := call_keepsLegible hw info hc hr ha
  unary info op _ h := unary_keepsLegible hw info op h
  binary info op _ _ hl hr := binary_keepsLegible hw info op hl hr
  cast info _ type h := cast_keepsLegible hw info h type
  typed info _ type h := typed_keepsLegible hw info h type
  ifElse info kind _ _ _ hc ht he := ifElse_keepsLegible hw info kind hc ht he
  range info _ _ inclusive hf hl := range_keepsLegible hw info hf hl inclusive
  lambda info _ h := lambda_keepsLegible hw info h
  function _ _ _ _ _ _ _ hb he := function_keepsLegible hw hb he
  block info _ h := block_keepsLegible info h
  inits info decls _ h := init_keepsLegible info decls h
  init _ h := Stmt.init_keepsLegible hw h
  assign info _ op _ ht he := Stmt.assign_keepsLegible hw info op ht he
  conditional info kind _ _ _ _ hc ht ha he := Stmt.ifElse_keepsLegible hw info kind hc ht ha he
  ret info _ h := Stmt.ret_keepsLegible hw info h
  case info _ _ ha he := Stmt.case_keepsLegible hw info ha he
  switch info _ _ _ ht ha he := Stmt.switch_keepsLegible hw info ht ha he
  forIn info vars _ bodyInfo _ hr h := Stmt.forIn_keepsLegible hw info bodyInfo vars hr h
  whileDo info _ _ hc hb := Stmt.whileDo_keepsLegible hw info hc hb
  guarded info _ kind _ hb hc := Stmt.guarded_keepsLegible hw info kind hb hc
  letIn info _ _ hi hc := Stmt.letIn_keepsLegible hw info hi hc
  expr _ h := Stmt.expr_keepsLegible hw h

variable {p : Program}

/-- Demands keep the store legible at every depth. -/
theorem demandAt_keepsLegible (hp : p.Legible) (depth : Nat) (stack : List Nat) :
    (demandAt p .silent depth stack).KeepsLegible := by
  have hdefinition : ∀ {name c}, p.constantNamed? name = some c →
      (Definition.constant c).Legible := fun h => hp _ (Program.constantNamed?_mem h)
  induction depth generalizing stack with
  | zero =>
    exact
      { visit := fun _ => .pure trivial
        definitionOf := hdefinition
        constant := fun _ => .fault
        function := fun _ => .fault }
  | succ depth ih =>
    exact
      { visit := fun _ => .pure trivial
        definitionOf := hdefinition
        constant := fun {c} hc => Check.constants_legible (ih (c.info.id :: stack)) hc
          fun e _ => (keepsLegible (ih _)).onExprs e
        function := fun {d} hd => (keepsLegible (ih (d.info.id :: stack))).onFunctions d hd }

/-! ### Programs -/

theorem Builtin.all_legible : ∀ f ∈ Builtin.all, f.Legible := by
  have hnames : ∀ f ∈ Builtin.all, IsPlain f.name := fun f hf =>
    of_decide_eq_true (List.all_eq_true.mp
      (show (Builtin.all.all fun f => decide (IsPlain f.name)) = true by decide) f hf)
  have hvalue : IsPlain "value" := by decide
  have htypes : ∀ f ∈ Builtin.all, HintInline f.ret ∧
      (∀ v ∈ f.params, IsPlain v.name ∧ HintInline v.type) ∧ f.decl = none := by
    simp [Builtin.all, Builtin.symbol, hvalue, HintInline, Ty.inline_builtin, Ty.inline_template,
      Ty.string, Ty.int, Ty.float]
  intro f hf
  obtain ⟨hret, hparams, hdecl⟩ := htypes f hf
  refine ⟨hnames f hf, fun v hv => ⟨(hparams v hv).1, (hparams v hv).2⟩, hret, ?_⟩
  intro d hd
  rw [hdecl] at hd
  cases hd

namespace Store.Legible

variable {s : Store}

theorem addFunc (h : s.Legible) {f : FuncSymbol} (hf : f.Legible) : (s.addFunc f).2.Legible := by
  have hgrows : s.Grows (s.addFunc f).2 := by
    refine ⟨fun {i g} hg => ⟨g, ?_, .refl g⟩, fun ha => ⟨_, ha, .refl _⟩,
      fun hv => ⟨_, hv, .refl _⟩⟩
    change (s.funcs.push f)[i]? = some g
    rw [Array.getElem?_push, if_neg (Nat.ne_of_lt (Array.getElem?_eq_some_iff.mp hg).1)]
    exact hg
  refine h.carry hgrows (fun {i g} hg => ?_) .inl .inl ⟨rfl, rfl, rfl⟩
  change (s.funcs.push f)[i]? = some g at hg
  rw [Array.getElem?_push] at hg
  split at hg
  · cases hg
    exact .inr hf
  · exact .inl hg

theorem registerBuiltins (h : s.Legible) : s.registerBuiltins.Legible := by
  unfold Store.registerBuiltins
  have hall := Builtin.all_legible
  generalize Builtin.all = fs at hall
  induction fs generalizing s with
  | nil => exact h
  | cons f rest ih =>
    rw [List.forall_mem_cons] at hall
    rw [List.foldl_cons]
    have hadd := h.addFunc hall.1
    refine ih ?_ hall.2
    dsimp only
    split
    · next st hst =>
      rw [Check.definedFunction hst]
      exact hadd.relist _ _ _ hadd.functions hadd.instances hadd.lambdas
    · exact hadd

end Store.Legible

theorem Store.empty_legible : Store.empty.Legible where
  func h := nomatch h
  constant h := nomatch h
  block := by
    rintro v ⟨id, vars, outer, blocks, hid, -⟩
    obtain ⟨hlt, heq⟩ := Array.getElem?_eq_some_iff.mp hid
    obtain rfl : id = 0 := Nat.lt_one_iff.mp hlt
    cases heq
  functions _ h := absurd h (Array.not_mem_empty _)
  instances _ h := absurd h (Array.not_mem_empty _)
  lambdas _ h := absurd h (Array.not_mem_empty _)

/-- What the analysis of a legible program leaves behind is legible. -/
theorem Check.program_legible (hp : p.Legible) (builtins : Bool) (nextId : Nat) :
    Ensures (fun _ _ => True) (program builtins .silent p) (.initial nextId) fun _ t =>
      t.store.Legible := by
  have hw := demandAt_keepsLegible hp (p.demandBound + 1) []
  have hunless : ∀ {act : Check Unit} (node : Nat), StaysLegible act (fun _ => True) →
      StaysLegible (unlessBegun node act) fun _ => True := by
    intro act node h
    refine .bind (progress?_legible node) fun _ _ => ?_
    split
    · exact h
    · exact .pure trivial
  have hbodies : StaysLegible (bodies .silent p) fun _ => True := by
    refine .bind (forM_legible fun c hc => hunless _ (hw.constant
      (hp _ (Program.mem_constants.mp hc)))) fun _ _ => forM_legible fun d hd => ?_
    split
    · exact .pure trivial
    · exact hunless _ (hw.function (hp _ (Program.mem_functions.mp hd)).2)
  have hinitial : (if builtins then
      { AnalysisState.initial nextId with store := Store.empty.registerBuiltins }
        else AnalysisState.initial nextId).store.Legible := by
    cases builtins with
    | false => exact Store.empty_legible
    | true => exact Store.empty_legible.registerBuiltins
  have hregister := forM_legible fun d hd => registerDefinition_legible (hp d hd)
  refine .bind (.bind (.modify ((hregister _ hinitial).imp fun _ t _ ht => ?_)))
  exact (hbodies t ht.1).imp fun _ _ _ hu => hu.1

/-- What is known of an accepted source text is legible. -/
theorem analyzeSource_legible {source file : String} {builtins : Bool} {firstId : Nat}
    {a : Analysis} (h : analyzeSource source file builtins firstId = .ok a) :
    a.state.store.Legible := by
  obtain ⟨tokens, nextId, htokens, hparse, hrun⟩ := analyzeSource_stages h
  exact (Check.program_legible (Program.parse_legible htokens hparse) builtins nextId).of_ok hrun

end Frontend
