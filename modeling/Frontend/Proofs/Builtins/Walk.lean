import Frontend.Proofs.Builtins.Calls

/-!
# Bodies side by side

Code that mentions no builtin function is analysed alike with and without them: by induction on
the tree, one case for each construct.
-/

namespace Frontend

open Check

variable {w : Demand} {position : Position} {scope : ScopeId}

/-- An expression is analysed alike, wherever it stands. -/
def Expr.Alike (w : Demand) (e : Expr) : Prop :=
  ∀ scope hint, Frontend.Alike (expr w scope hint e)

/-- A block is analysed alike, wherever it stands. -/
def Block.Alike (w : Demand) (b : Block) : Prop := ∀ parent, Frontend.Alike (block w parent b)

/-- An initialize statement is analysed alike, wherever it stands. -/
def Init.Alike (w : Demand) (i : Init) : Prop := ∀ scope, Frontend.Alike (initStmt w scope i)

/-- A statement is analysed alike, wherever it stands. -/
def Stmt.Alike (w : Demand) (st : Stmt) : Prop := ∀ scope, Frontend.Alike (stmt w scope st)

namespace Check

/-! ### Lists of expressions -/

theorem exprs_alike {es : List Expr} (h : ∀ e ∈ es, e.Alike w) (hints : List (Option Ty)) :
    Alike (exprs w scope hints es) := by
  induction es generalizing hints with
  | nil =>
    rw [exprs]
    exact .pure rfl
  | cons e rest ih =>
    rw [List.forall_mem_cons] at h
    rw [exprs]
    exact (h.1 _ _).next fun _ => (ih h.2 _).next fun _ => .pure rfl

theorem sameType_alike {es : List Expr} (h : ∀ e ∈ es, e.Alike w) (type : Ty) :
    Alike (sameType w scope type es) := by
  induction es with
  | nil =>
    rw [sameType]
    exact .pure rfl
  | cons e rest ih =>
    rw [List.forall_mem_cons] at h
    rw [sameType]
    exact (h.1 _ _).next fun _ => (expectType_stateless _ _).alike.next fun _ => ih h.2

theorem sameEntries_alike {entries : List (Expr × Expr)}
    (h : ∀ e ∈ entries, e.1.Alike w ∧ e.2.Alike w) (key value : Ty) :
    Alike (sameEntries w scope key value entries) := by
  induction entries with
  | nil =>
    rw [sameEntries]
    exact .pure rfl
  | cons e rest ih =>
    rw [List.forall_mem_cons] at h
    rw [sameEntries]
    exact (h.1.1 _ _).next fun _ => (expectType_stateless _ _).alike.next fun _ =>
      (h.1.2 _ _).next fun _ => (expectType_stateless _ _).alike.next fun _ => ih h.2

theorem values_alike {es : List Expr} (h : ∀ e ∈ es, e.Alike w) (hints : List (Option Ty)) :
    Alike (values w scope hints position es) := by
  cases es with
  | nil =>
    rw [values]
    split
    · exact .pure rfl
    · exact .throw _
  | cons e rest =>
    rw [List.forall_mem_cons] at h
    rw [values]
    split
    · exact (h.1 _ _).next fun _ => (exprs_alike h.2 _).next fun _ => .pure rfl
    · split
      · exact (h.1 _ _).next fun _ => (takeApart_stateless _ _).alike
      · exact .throw _

/-- Whether a target is ignored is seen from variables alone. -/
theorem isIgnored_behind (st : Store) (scope : ScopeId) (e : Expr) :
    isIgnored st.behind scope e = isIgnored st scope e := by
  cases e with
  | varRef info name assigned => simp only [isIgnored, Store.lookupVar_behind]
  | _ => rfl

theorem targets_alike {es : List Expr} (h : ∀ e ∈ es, e.Alike w) :
    Alike (targets w scope es) := by
  induction es with
  | nil =>
    rw [targets]
    exact .pure rfl
  | cons e rest ih =>
    rw [List.forall_mem_cons] at h
    rw [targets]
    refine store_parallel.bind ?_
    rintro st _ ⟨rfl, -⟩
    dsimp only
    rw [isIgnored_behind]
    split
    · exact (Parallel.pure rfl).next fun _ => (ih h.2).next fun _ => .pure rfl
    · exact (h.1 _ _).map.next fun _ => (ih h.2).next fun _ => .pure rfl

/-! ### Expressions -/

section

variable (hw : w.Discreet) (info : NodeInfo)
include hw

theorem typing_alike (node : Nat) {act : Check Ty} (h : Alike act) : Alike (typing w node act) :=
  visiting_alike hw node (h.next fun _ => (setType_alike _ _).next fun _ => .pure rfl)

theorem literal_alike (value : Literal) : (Expr.literal info value).Alike w := by
  intro scope hint
  rw [expr_literal]
  exact typing_alike hw _ (.pure rfl)

theorem array_alike {elems : List Expr} (h : ∀ e ∈ elems, e.Alike w) :
    (Expr.array info elems).Alike w := by
  intro scope hint
  rw [expr.eq_def]
  refine typing_alike hw _ ?_
  cases elems with
  | nil =>
    cases elemHint hint with
    | none => exact .throw _
    | some elem => exact .pure rfl
  | cons first rest =>
    rw [List.forall_mem_cons] at h
    exact (h.1 _ _).next fun _ => (sameType_alike h.2 _).next fun _ => .pure rfl

theorem tuple_alike {elems : List Expr} (h : ∀ e ∈ elems, e.Alike w) :
    (Expr.tuple info elems).Alike w := by
  intro scope hint
  rw [expr.eq_def]
  exact typing_alike hw _ ((exprs_alike h _).next fun _ => .pure rfl)

theorem dict_alike {entries : List (Expr × Expr)}
    (h : ∀ e ∈ entries, e.1.Alike w ∧ e.2.Alike w) : (Expr.dict info entries).Alike w := by
  intro scope hint
  rw [expr.eq_def]
  refine typing_alike hw _ ?_
  cases entries with
  | nil =>
    dsimp only
    split
    · exact .pure rfl
    · exact .throw _
  | cons first rest =>
    rw [List.forall_mem_cons] at h
    exact (h.1.1 _ _).next fun _ => (h.1.2 _ _).next fun _ =>
      (sameEntries_alike h.2 _ _).next fun _ => .pure rfl

theorem varRef_alike {name : String} (hname : name ∉ Builtin.names) (assigned : Bool) :
    (Expr.varRef info name assigned).Alike w := by
  intro scope hint
  rw [expr.eq_def]
  exact typing_alike hw _ (nameType_alike hw info hname)

theorem member_alike {receiver : Expr} (h : receiver.Alike w) {name : String}
    (hname : name ∉ Builtin.names) : (Expr.member info receiver name).Alike w := by
  intro scope hint
  rw [expr.eq_def]
  refine typing_alike hw _ ((h _ _).next fun type => ?_)
  cases type.member? name with
  | some type => exact .pure rfl
  | none =>
    refine (callFunction_parallel hw hname _).bind ?_
    rintro ⟨id, type⟩ _ rfl
    exact (link_parallel _ (.func id)).next fun _ => .pure rfl

theorem index_alike {receiver index : Expr} (hr : receiver.Alike w) (hi : index.Alike w) :
    (Expr.index info receiver index).Alike w := by
  intro scope hint
  rw [expr.eq_def]
  exact typing_alike hw _ ((hr _ _).next fun _ => (hi _ _).next fun _ =>
    (indexType_stateless _ _ _ _).alike)

theorem call_alike {callee : Expr} {args : List Expr} (hnames : Discreet callee.names)
    (hc : callee.Alike w)
    (hr : ∀ {info receiver name}, callee = .member info receiver name → receiver.Alike w)
    (ha : ∀ e ∈ args, e.Alike w) : (Expr.call info callee args).Alike w := by
  intro scope hint
  rw [expr.eq_def]
  refine typing_alike hw _ ((exprs_alike ha _).next fun types => ?_)
  have hvalue : Alike (expr w scope none callee >>= fun type =>
      callValue info callee type callee.label types) :=
    (hc _ _).next fun _ => (callValue_stateless _ _ _ _ _).alike
  cases callee with
  | varRef calleeInfo name assigned =>
    rw [Expr.names, discreet_cons] at hnames
    refine store_parallel.bind ?_
    rintro st _ ⟨rfl, -⟩
    rw [Store.lookupVar_behind]
    split
    · exact callByName_alike hw _ _ hnames.1 types
    · exact hvalue
  | member calleeInfo receiver name =>
    rw [Expr.names, discreet_cons] at hnames
    refine (hr rfl _ _).next fun type => ?_
    split
    · exact (setType_alike _ _).next fun _ => .pure rfl
    · exact callByName_alike hw _ _ hnames.1 _
  | _ => exact hvalue

theorem unary_alike (op : UnaryOp) {operand : Expr} (h : operand.Alike w) :
    (Expr.unary info op operand).Alike w := by
  intro scope hint
  rw [expr.eq_def]
  refine typing_alike hw _ ((h _ _).next fun type => ?_)
  split
  · exact .pure rfl
  · exact .throw _

theorem binary_alike (op : BinaryOp) {lhs rhs : Expr} (hl : lhs.Alike w) (hr : rhs.Alike w) :
    (Expr.binary info op lhs rhs).Alike w := by
  intro scope hint
  rw [expr.eq_def]
  refine typing_alike hw _ ((hl _ _).next fun left => (hr _ _).next fun right =>
    (expectType_stateless _ _).alike.next fun _ => ?_)
  split
  · exact .pure rfl
  · exact .throw _

theorem cast_alike {value : Expr} (h : value.Alike w) (written : TypeExpr) :
    (Expr.cast info value written).Alike w := by
  intro scope hint
  rw [expr.eq_def]
  exact typing_alike hw _ ((h _ _).next fun _ => (denoted_stateless _).alike)

theorem typed_alike {value : Expr} (h : value.Alike w) (written : TypeExpr) :
    (Expr.typed info value written).Alike w := by
  intro scope hint
  rw [expr.eq_def]
  exact typing_alike hw _ ((denoted_stateless _).alike.next fun _ => (h _ _).next fun _ =>
    (expectType_stateless _ _).alike.next fun _ => .pure rfl)

theorem ifElse_alike (kind : IfKind) {condition thenValue elseValue : Expr}
    (hc : condition.Alike w) (ht : thenValue.Alike w) (he : elseValue.Alike w) :
    (Expr.ifElse info kind condition thenValue elseValue).Alike w := by
  intro scope hint
  rw [expr.eq_def]
  exact typing_alike hw _ ((hc _ _).next fun _ => (expectType_stateless _ _).alike.next fun _ =>
    (ht _ _).next fun _ => (he _ _).next fun _ => (expectType_stateless _ _).alike.next fun _ =>
      .pure rfl)

theorem range_alike {first last : Expr} (hf : first.Alike w) (hl : last.Alike w)
    (inclusive : Bool) : (Expr.range info first last inclusive).Alike w := by
  intro scope hint
  rw [expr.eq_def]
  refine typing_alike hw _ ((hf _ _).next fun _ => (hl _ _).next fun _ =>
    (expectType_stateless _ _).alike.next fun _ => ?_)
  split
  · exact .pure rfl
  · exact .throw _

theorem lambda_alike {d : FuncDef} (hd : Discreet d.names) (h : Alike (function w d)) :
    (Expr.lambda info d).Alike w := by
  intro scope hint
  rw [expr.eq_def]
  refine typing_alike hw _ ((declareLambda_parallel hd _).bind ?_)
  rintro ⟨params, id⟩ _ rfl
  exact h.next fun _ => lambdaType_parallel _ _ _

end

/-! ### Statements -/

theorem stmts_alike {body : List Stmt} (h : ∀ st ∈ body, st.Alike w) :
    Alike (stmts w scope body) := by
  induction body with
  | nil =>
    rw [stmts]
    exact .pure rfl
  | cons st rest ih =>
    rw [List.forall_mem_cons] at h
    rw [stmts]
    exact (h.1 _).next fun _ => ih h.2

theorem block_alike (info : NodeInfo) {body : List Stmt} (h : ∀ st ∈ body, st.Alike w) :
    (Block.mk info body).Alike w := by
  intro parent
  rw [block]
  exact (openBlock_alike _ _).next fun _ => stmts_alike h

theorem optionalBlock_alike {b : Option Block} (h : ∀ c ∈ b, c.Alike w) :
    Alike (optionalBlock w scope b) := by
  rw [optionalBlock.eq_def]
  cases b with
  | none => exact .pure rfl
  | some b => exact h b rfl scope

theorem arms_alike {whens : List (Expr × Block)} (h : ∀ a ∈ whens, a.1.Alike w ∧ a.2.Alike w) :
    Alike (arms w scope whens) := by
  induction whens with
  | nil =>
    rw [arms]
    exact .pure rfl
  | cons a rest ih =>
    rw [List.forall_mem_cons] at h
    rw [arms]
    exact (h.1.1 _ _).next fun _ => (expectType_stateless _ _).alike.next fun _ =>
      (h.1.2 _).next fun _ => ih h.2

theorem valueArms_alike {whens : List (List Expr × Block)}
    (h : ∀ a ∈ whens, (∀ e ∈ a.1, e.Alike w) ∧ a.2.Alike w) (type : Ty) :
    Alike (valueArms w scope type whens) := by
  induction whens with
  | nil =>
    rw [valueArms]
    exact .pure rfl
  | cons a rest ih =>
    rw [List.forall_mem_cons] at h
    rw [valueArms]
    exact (sameType_alike h.1.1 _).next fun _ => (h.1.2 _).next fun _ => ih h.2

theorem initStmt_alike (info : NodeInfo) (decls : List VarDecl) {es : List Expr}
    (h : ∀ e ∈ es, e.Alike w) : (Init.mk info decls es).Alike w := by
  intro scope
  rw [initStmt]
  refine (Parallel.mapM (fun d => (denoted?_stateless _).alike) decls).next fun explicit => ?_
  refine Parallel.next ?_ fun types => declareVars_alike _ _ _
  split
  · exact (declaredTypes_stateless _ _).alike
  · exact values_alike h _

theorem initStmts_alike {inits : List Init} (h : ∀ i ∈ inits, i.Alike w) :
    Alike (initStmts w scope inits) := by
  induction inits with
  | nil =>
    rw [initStmts]
    exact .pure rfl
  | cons i rest ih =>
    rw [List.forall_mem_cons] at h
    rw [initStmts]
    exact (h.1 _).next fun _ => ih h.2

section

variable (hw : w.Discreet) (info : NodeInfo)
include hw

theorem assign_alike {ts es : List Expr} (op : Option BinaryOp) (ht : ∀ e ∈ ts, e.Alike w)
    (he : ∀ e ∈ es, e.Alike w) : (Stmt.assign info ts op es).Alike w := by
  intro scope
  cases op with
  | none =>
    have hstmt : stmt w scope (.assign info ts none es) = visiting w info.id (do
        let hints ← targets w scope ts
        let types ← values w scope hints info.span.start es
        assignTargets ts hints types) := by
      rw [stmt]
      rfl
    rw [hstmt]
    exact visiting_alike hw _ ((targets_alike ht).next fun _ => (values_alike he _).next fun _ =>
      assignTargets_alike _ _ _)
  | some op =>
    rw [stmt.eq_def]
    refine visiting_alike hw _ ?_
    -- Only a single target with a single value is not refused.
    rcases ts with _ | ⟨target, _ | ⟨other, ts⟩⟩
    · exact .throw _
    · rcases es with _ | ⟨value, _ | ⟨other, es⟩⟩
      · exact .throw _
      · rw [List.forall_mem_singleton] at ht he
        exact (ht _ _).next fun _ => (he _ _).next fun _ => (expectType_stateless _ _).alike.next
          fun _ => (expectOperand_stateless _ _).alike.next fun _ => checkAssignable_alike _
      · exact .throw _
    · exact .throw _

theorem ifStmt_alike (kind : IfKind) {condition : Expr} {thenBlock : Block}
    {elseifs : List (Expr × Block)} {elseBlock : Option Block} (hc : condition.Alike w)
    (ht : thenBlock.Alike w) (ha : ∀ a ∈ elseifs, a.1.Alike w ∧ a.2.Alike w)
    (he : ∀ b ∈ elseBlock, b.Alike w) :
    (Stmt.ifElse info kind condition thenBlock elseifs elseBlock).Alike w := by
  intro scope
  rw [stmt.eq_def]
  exact visiting_alike hw _ ((hc _ _).next fun _ => (expectType_stateless _ _).alike.next fun _ =>
    (ht _).next fun _ => (arms_alike ha).next fun _ => optionalBlock_alike he)

theorem ret_alike {es : List Expr} (h : ∀ e ∈ es, e.Alike w) : (Stmt.ret info es).Alike w := by
  intro scope
  rw [stmt.eq_def]
  refine visiting_alike hw _ (currentFunc?_parallel.bind ?_)
  rintro current _ rfl
  cases current with
  | none => exact .throw _
  | some current => exact (exprs_alike h _).next fun _ => returnType_parallel _ _

theorem case_alike {whens : List (Expr × Block)} {elseBlock : Option Block}
    (ha : ∀ a ∈ whens, a.1.Alike w ∧ a.2.Alike w) (he : ∀ b ∈ elseBlock, b.Alike w) :
    (Stmt.case info whens elseBlock).Alike w := by
  intro scope
  rw [stmt.eq_def]
  exact visiting_alike hw _ ((arms_alike ha).next fun _ => optionalBlock_alike he)

theorem switch_alike {target : Expr} {whens : List (List Expr × Block)}
    {elseBlock : Option Block} (ht : target.Alike w)
    (ha : ∀ a ∈ whens, (∀ e ∈ a.1, e.Alike w) ∧ a.2.Alike w)
    (he : ∀ b ∈ elseBlock, b.Alike w) : (Stmt.switch info target whens elseBlock).Alike w := by
  intro scope
  rw [stmt.eq_def]
  exact visiting_alike hw _ ((ht _ _).next fun _ => (valueArms_alike ha _).next fun _ =>
    optionalBlock_alike he)

theorem forIn_alike (vars : List Param) {range : Expr} (bodyInfo : NodeInfo) {body : List Stmt}
    (hr : range.Alike w) (hb : ∀ st ∈ body, st.Alike w) :
    (Stmt.forIn info vars range ⟨bodyInfo, body⟩).Alike w := by
  intro scope
  rw [stmt.eq_def]
  refine visiting_alike hw _ ((hr _ _).next fun type => ?_)
  cases type.element? with
  | none => exact .throw _
  | some elem =>
    exact (loopTypes_stateless _ _).alike.next fun _ => (openBlock_alike _ _).next fun _ =>
      (declareLoopVars_alike _ _).next fun _ => stmts_alike hb

theorem whileDo_alike {condition : Expr} {body : Block} (hc : condition.Alike w)
    (hb : body.Alike w) : (Stmt.whileDo info condition body).Alike w := by
  intro scope
  rw [stmt.eq_def]
  exact visiting_alike hw _ ((hc _ _).next fun _ => (expectType_stateless _ _).alike.next fun _ =>
    hb _)

theorem guarded_alike (kind : IfKind) {body : Stmt} {condition : Expr} (hb : body.Alike w)
    (hc : condition.Alike w) : (Stmt.guarded info body kind condition).Alike w := by
  intro scope
  rw [stmt.eq_def]
  exact visiting_alike hw _ ((hb _).next fun _ => (hc _ _).next fun _ =>
    (expectType_stateless _ _).alike)

theorem letIn_alike {inits : List Init} {child : Stmt} (hi : ∀ i ∈ inits, i.Alike w)
    (hc : child.Alike w) : (Stmt.letIn info inits child).Alike w := by
  intro scope
  rw [stmt.eq_def]
  exact visiting_alike hw _ ((openBlock_alike _ _).next fun _ => (initStmts_alike hi).next fun _ =>
    hc _)

theorem init_alike {i : Init} (h : i.Alike w) : (Stmt.init i).Alike w := by
  intro scope
  rw [stmt_init]
  exact visiting_alike hw _ (h scope)

omit info in
theorem exprStmt_alike {value : Expr} (h : value.Alike w) : (Stmt.expr value).Alike w := by
  intro scope
  rw [stmt.eq_def]
  exact visiting_alike hw _ ((h _ _).next fun _ => .pure rfl)

theorem function_alike (kind : FuncKind) (name : String) (params : List Param)
    (returnType : Option TypeExpr) {body : Block} {ensureBody : Option Block}
    (hb : body.Alike w) (he : ∀ b ∈ ensureBody, b.Alike w) :
    Alike (function w ⟨info, kind, name, params, returnType, body, ensureBody⟩) := by
  rw [function]
  refine analysing_alike hw _ ((declared_parallel info).bind ?_)
  rintro ⟨scope, id⟩ _ rfl
  exact (hb _).next fun _ => (optionalBlock_alike he).next fun _ => settleReturn_parallel id

end

end Check

/-! ### All trees -/

/-- Code that mentions no builtin function is analysed alike, whatever the construct. -/
theorem alike_of_discreet (hw : w.Discreet) : TreeInduction
    (fun e => Discreet e.names → e.Alike w)
    (fun d => Discreet d.names → Alike (function w d))
    (fun b => Discreet b.names → b.Alike w)
    (fun i => Discreet i.names → i.Alike w)
    (fun st => Discreet st.names → st.Alike w) where
  literal info value _ := literal_alike hw info value
  array info elems ih h := by
    rw [Expr.names, exprsNames_eq, discreet_flatMap] at h
    exact array_alike hw info fun e he => ih e he (h e he)
  tuple info elems ih h := by
    rw [Expr.names, exprsNames_eq, discreet_flatMap] at h
    exact tuple_alike hw info fun e he => ih e he (h e he)
  dict info entries ih h := by
    rw [Expr.names, entriesNames_eq, discreet_flatMap] at h
    refine dict_alike hw info fun e he => ?_
    obtain ⟨hkey, hvalue⟩ := discreet_append.mp (h e he)
    exact ⟨(ih e he).1 hkey, (ih e he).2 hvalue⟩
  varRef info name assigned h := by
    rw [Expr.names, discreet_cons] at h
    exact varRef_alike hw info h.1 assigned
  member info receiver name ih h := by
    rw [Expr.names, discreet_cons] at h
    exact member_alike hw info (ih h.2) h.1
  index info receiver index ihr ihi h := by
    rw [Expr.names, discreet_append] at h
    exact index_alike hw info (ihr h.1) (ihi h.2)
  call info callee args ihc ihr iha h := by
    rw [Expr.names, exprsNames_eq, discreet_append, discreet_flatMap] at h
    refine call_alike hw info h.1 (ihc h.1) ?_ fun e he => iha e he (h.2 e he)
    rintro calleeInfo receiver name rfl
    have hnames := h.1
    rw [Expr.names, discreet_cons] at hnames
    exact ihr rfl hnames.2
  unary info op operand ih h := by
    rw [Expr.names] at h
    exact unary_alike hw info op (ih h)
  binary info op lhs rhs ihl ihr h := by
    rw [Expr.names, discreet_append] at h
    exact binary_alike hw info op (ihl h.1) (ihr h.2)
  cast info value written ih h := by
    rw [Expr.names] at h
    exact cast_alike hw info (ih h) written
  typed info value written ih h := by
    rw [Expr.names] at h
    exact typed_alike hw info (ih h) written
  ifElse info kind condition thenValue elseValue ihc iht ihe h := by
    rw [Expr.names, discreet_append, discreet_append] at h
    exact ifElse_alike hw info kind (ihc h.1.1) (iht h.1.2) (ihe h.2)
  range info first last inclusive ihf ihl h := by
    rw [Expr.names, discreet_append] at h
    exact range_alike hw info (ihf h.1) (ihl h.2) inclusive
  lambda info d ih h := by
    rw [Expr.names] at h
    exact lambda_alike hw info h (ih h)
  function info kind name params returnType body ensureBody ihb ihe h := by
    rw [FuncDef.names, discreet_append] at h
    exact function_alike hw info kind name params returnType (ihb h.1) fun b hb =>
      ihe b hb (discreet_optional h.2 b hb)
  block info stmts ih h := by
    rw [Block.names, stmtsNames_eq, discreet_flatMap] at h
    exact block_alike info fun st hst => ih st hst (h st hst)
  inits info decls values ih h := by
    rw [Init.names, exprsNames_eq, discreet_flatMap] at h
    exact initStmt_alike info decls fun e he => ih e he (h e he)
  init i ih h := by
    rw [Stmt.names] at h
    exact init_alike hw (ih h)
  assign info targets op values iht ihv h := by
    rw [Stmt.names, exprsNames_eq, exprsNames_eq, discreet_append, discreet_flatMap,
      discreet_flatMap] at h
    exact assign_alike hw info op (fun e he => iht e he (h.1 e he)) fun e he =>
      ihv e he (h.2 e he)
  conditional info kind condition thenBlock elseifs elseBlock ihc iht iha ihe h := by
    rw [Stmt.names, armsNames_eq, discreet_append, discreet_append, discreet_append,
      discreet_flatMap] at h
    refine ifStmt_alike hw info kind (ihc h.1.1.1) (iht h.1.1.2) (fun a ha => ?_) fun b hb =>
      ihe b hb (discreet_optional h.2 b hb)
    obtain ⟨hcondition, hblock⟩ := discreet_append.mp (h.1.2 a ha)
    exact ⟨(iha a ha).1 hcondition, (iha a ha).2 hblock⟩
  ret info values ih h := by
    rw [Stmt.names, exprsNames_eq, discreet_flatMap] at h
    exact ret_alike hw info fun e he => ih e he (h e he)
  case info whens elseBlock iha ihe h := by
    rw [Stmt.names, armsNames_eq, discreet_append, discreet_flatMap] at h
    refine case_alike hw info (fun a ha => ?_) fun b hb => ihe b hb (discreet_optional h.2 b hb)
    obtain ⟨hcondition, hblock⟩ := discreet_append.mp (h.1 a ha)
    exact ⟨(iha a ha).1 hcondition, (iha a ha).2 hblock⟩
  switch info target whens elseBlock iht iha ihe h := by
    rw [Stmt.names, valueArmsNames_eq, discreet_append, discreet_append, discreet_flatMap] at h
    refine switch_alike hw info (iht h.1.1) (fun a ha => ?_) fun b hb =>
      ihe b hb (discreet_optional h.2 b hb)
    obtain ⟨hvalues, hblock⟩ := discreet_append.mp (h.1.2 a ha)
    rw [discreet_flatMap] at hvalues
    exact ⟨fun e he => (iha a ha).1 e he (hvalues e he), (iha a ha).2 hblock⟩
  forIn info vars range bodyInfo stmts ihr ihb h := by
    rw [Stmt.names, Block.names, stmtsNames_eq, discreet_append, discreet_flatMap] at h
    exact forIn_alike hw info vars bodyInfo (ihr h.1) fun st hst => ihb st hst (h.2 st hst)
  whileDo info condition body ihc ihb h := by
    rw [Stmt.names, discreet_append] at h
    exact whileDo_alike hw info (ihc h.1) (ihb h.2)
  guarded info body kind condition ihb ihc h := by
    rw [Stmt.names, discreet_append] at h
    exact guarded_alike hw info kind (ihb h.1) (ihc h.2)
  letIn info inits child ihi ihc h := by
    rw [Stmt.names, initsNames_eq, discreet_append, discreet_flatMap] at h
    exact letIn_alike hw info (fun i hi => ihi i hi (h.1 i hi)) (ihc h.2)
  expr value ih h := by
    rw [Stmt.names] at h
    exact exprStmt_alike hw (ih h)

namespace Check

/-- A definition of constants that mentions no builtin function is analysed alike. -/
theorem constants_alike (hw : w.Discreet) {d : ConstDef} (hd : Discreet (exprsNames d.values)) :
    Alike (constants w d) := by
  rw [exprsNames_eq, discreet_flatMap] at hd
  refine analysing_alike hw _ ((constantHandles_alike _).next fun handles => ?_)
  refine (Parallel.mapM typeOf?_alike handles).next fun hints => ?_
  refine (values_alike (fun e he => ?_) hints).next fun types => assignConstants_alike _ _ _
  exact (alike_of_discreet hw).onExprs e (hd e he)

end Check

end Frontend
