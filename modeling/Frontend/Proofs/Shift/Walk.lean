import Frontend.Proofs.Shift.Calls

/-!
# Bodies with later ids

A shifted body is analysed as the body is: by induction on the tree, one case for each construct.
-/

namespace Frontend

open Check

variable {d : Nat} {w w' : Demand} {position : Position} {scope : ScopeId}

/-- A shifted expression has the shifted type, wherever it stands. -/
def Expr.Shifts (d : Nat) (w w' : Demand) (e : Expr) : Prop :=
  ∀ scope hint, Carries (twin d) (Ty.shift d) (expr w scope hint e)
    (expr w' scope (hint.map (Ty.shift d)) (e.shift d))

/-- A shifted block is analysed as the block is, wherever it stands. -/
def Block.Shifts (d : Nat) (w w' : Demand) (b : Block) : Prop :=
  ∀ parent, Agree (twin d) (block w parent b) (block w' parent (b.shift d))

/-- A shifted initialize statement is analysed as the statement is, wherever it stands. -/
def Init.Shifts (d : Nat) (w w' : Demand) (i : Init) : Prop :=
  ∀ scope, Agree (twin d) (initStmt w scope i) (initStmt w' scope (i.shift d))

/-- A shifted statement is analysed as the statement is, wherever it stands. -/
def Stmt.Shifts (d : Nat) (w w' : Demand) (st : Stmt) : Prop :=
  ∀ scope, Agree (twin d) (stmt w scope st) (stmt w' scope (st.shift d))

namespace Expr.Shifts

variable {e : Expr} (h : e.Shifts d w w')
include h

/-- Nothing is expected of the type. -/
theorem plain (scope : ScopeId) : Carries (twin d) (Ty.shift d) (expr w scope none e)
    (expr w' scope none (e.shift d)) := h scope none

/-- A type is expected. -/
theorem hinted (scope : ScopeId) (type : Ty) :
    Carries (twin d) (Ty.shift d) (expr w scope (some type) e)
      (expr w' scope (some (type.shift d)) (e.shift d)) := h scope (some type)

/-- A truth value is expected. -/
theorem boolean (scope : ScopeId) :
    Carries (twin d) (Ty.shift d) (expr w scope (some .bool) e)
      (expr w' scope (some .bool) (e.shift d)) := by
  have hhinted := h.hinted scope .bool
  simp only [Ty.shift] at hhinted
  exact hhinted

end Expr.Shifts

namespace Check

theorem expectBool_shifts (type : Ty) :
    Agree (twin d) (expectType .bool type position) (expectType .bool (type.shift d) position) := by
  have hexpect : Agree (twin d) (expectType .bool type position)
      (expectType (Ty.shift d .bool) (type.shift d) position) := expectType_shifts .bool type
  rw [Ty.shift] at hexpect
  exact hexpect

/-! ### Lists of expressions -/

/-- The first of shifted hints is the shift of the first hint. -/
theorem headHint_shift (hints : List (Option Ty)) :
    (hints.map (Option.map (Ty.shift d))).headD none = (hints.headD none).map (Ty.shift d) := by
  cases hints <;> rfl

theorem exprs_shifts {es : List Expr} (h : ∀ e ∈ es, e.Shifts d w w') (hints : List (Option Ty)) :
    Carries (twin d) (List.map (Ty.shift d)) (exprs w scope hints es)
      (exprs w' scope (hints.map (Option.map (Ty.shift d))) (es.map (Expr.shift d))) := by
  induction es generalizing hints with
  | nil =>
    rw [List.map_nil, exprs, exprs]
    exact .pure rfl
  | cons e rest ih =>
    rw [List.forall_mem_cons] at h
    rw [List.map_cons, exprs, exprs, headHint_shift, ← List.map_tail]
    exact (h.1 scope _).carry fun type => (ih h.2 hints.tail).carry fun types => .pure rfl

theorem sameType_shifts {es : List Expr} (h : ∀ e ∈ es, e.Shifts d w w') (type : Ty) :
    Agree (twin d) (sameType w scope type es)
      (sameType w' scope (type.shift d) (es.map (Expr.shift d))) := by
  induction es with
  | nil =>
    rw [List.map_nil, sameType, sameType]
    exact .pure rfl
  | cons e rest ih =>
    rw [List.forall_mem_cons] at h
    rw [List.map_cons, sameType, sameType, e.position_shift]
    exact (h.1.hinted scope type).carry fun actual => (expectType_shifts type actual).next fun _ =>
      ih h.2

theorem sameEntries_shifts {entries : List (Expr × Expr)}
    (h : ∀ e ∈ entries, e.1.Shifts d w w' ∧ e.2.Shifts d w w') (key value : Ty) :
    Agree (twin d) (sameEntries w scope key value entries)
      (sameEntries w' scope (key.shift d) (value.shift d) (entries.map (shiftEntry d))) := by
  induction entries with
  | nil =>
    rw [List.map_nil, sameEntries, sameEntries]
    exact .pure rfl
  | cons e rest ih =>
    rw [List.forall_mem_cons] at h
    rw [List.map_cons, sameEntries, sameEntries, e.1.position_shift, e.2.position_shift]
    exact (h.1.1.hinted scope key).carry fun keyType => (expectType_shifts key keyType).next
      fun _ => (h.1.2.hinted scope value).carry fun valueType =>
        (expectType_shifts value valueType).next fun _ => ih h.2

theorem values_shifts {es : List Expr} (h : ∀ e ∈ es, e.Shifts d w w') (hints : List (Option Ty)) :
    Carries (twin d) (List.map (Ty.shift d)) (values w scope hints position es)
      (values w' scope (hints.map (Option.map (Ty.shift d))) position
        (es.map (Expr.shift d))) := by
  cases es with
  | nil =>
    rw [List.map_nil, values, values, List.isEmpty_map, List.length_map]
    split
    · exact .pure rfl
    · exact fail_same rfl
  | cons e rest =>
    rw [List.forall_mem_cons] at h
    rw [List.map_cons, values, values, List.length_map, List.length_map, List.isEmpty_map,
      headHint_shift, ← List.map_tail, joinHints_shift, e.position_shift]
    split
    · exact (h.1 scope _).carry fun type => (exprs_shifts h.2 hints.tail).carry fun types =>
        .pure rfl
    · split
      · exact (h.1 scope _).carry fun type => takeApart_shifts hints.length type
      · exact fail_same rfl

/-- Whether a target is ignored is seen from names alone. -/
theorem isIgnored_shift (st : Store) (scope : ScopeId) (e : Expr) :
    isIgnored (st.shift d) scope (e.shift d) = isIgnored st scope e := by
  cases e with
  | varRef info name assigned => simp only [Expr.shift, isIgnored, Store.lookupVar_shift]
  | _ => rfl

theorem targets_shifts {es : List Expr} (h : ∀ e ∈ es, e.Shifts d w w') :
    Carries (twin d) (List.map (Option.map (Ty.shift d))) (targets w scope es)
      (targets w' scope (es.map (Expr.shift d))) := by
  induction es with
  | nil =>
    rw [List.map_nil, targets, targets]
    exact .pure rfl
  | cons e rest ih =>
    rw [List.forall_mem_cons] at h
    rw [List.map_cons, targets, targets]
    have htyped : Carries (twin d) (Option.map (Ty.shift d)) (some <$> expr w scope none e)
        (some <$> expr w' scope none (e.shift d)) := by
      rw [← bind_pure_comp, ← bind_pure_comp]
      exact (h.1.plain scope).carry fun type => .pure rfl
    refine shifts_store fun st _ => ?_
    dsimp only
    rw [isIgnored_shift]
    split
    · exact Alongside.carry (.pure rfl : Carries (twin d) (Option.map (Ty.shift d)) _ _) fun type =>
        (ih h.2).carry fun types => .pure rfl
    · exact htyped.carry fun type => (ih h.2).carry fun types => .pure rfl

/-! ### Expressions -/

section

variable (hw : Demand.Shifted d w w') (info : NodeInfo)
include hw

theorem typing_shifts (node : Nat) {act act' : Check Ty}
    (h : Carries (twin d) (Ty.shift d) act act') :
    Carries (twin d) (Ty.shift d) (typing w node act) (typing w' (shiftId d node) act') :=
  visiting_shifts hw node (h.carry fun type => (setType_shifts node type).next fun _ => .pure rfl)

theorem literal_shifts (value : Literal) : (Expr.literal info value).Shifts d w w' := by
  intro scope hint
  rw [Expr.shift, expr_literal, expr_literal]
  exact typing_shifts hw info.id (.pure (value.type_shift).symm)

theorem array_shifts {elems : List Expr} (h : ∀ e ∈ elems, e.Shifts d w w') :
    (Expr.array info elems).Shifts d w w' := by
  intro scope hint
  rw [Expr.shift, shiftExprs_eq, expr.eq_def w, expr.eq_def w']
  refine typing_shifts hw info.id ?_
  rw [elemHint_shift]
  cases elems with
  | nil =>
    cases elemHint hint with
    | none => exact fail_same rfl
    | some elem => exact .pure rfl
  | cons first rest =>
    rw [List.forall_mem_cons] at h
    exact (h.1 scope _).carry fun elem => (sameType_shifts h.2 elem).next fun _ => .pure rfl

theorem tuple_shifts {elems : List Expr} (h : ∀ e ∈ elems, e.Shifts d w w') :
    (Expr.tuple info elems).Shifts d w w' := by
  intro scope hint
  rw [Expr.shift, shiftExprs_eq, expr.eq_def w, expr.eq_def w']
  refine typing_shifts hw info.id ?_
  dsimp only
  rw [List.length_map, tupleHints_shift]
  exact (exprs_shifts h _).carry fun types => .pure (by simp)

theorem dict_shifts {entries : List (Expr × Expr)}
    (h : ∀ e ∈ entries, e.1.Shifts d w w' ∧ e.2.Shifts d w w') :
    (Expr.dict info entries).Shifts d w w' := by
  intro scope hint
  rw [Expr.shift, shiftEntries_eq, expr.eq_def w, expr.eq_def w']
  refine typing_shifts hw info.id ?_
  rw [dictHints_shift]
  cases entries with
  | nil =>
    rcases dictHints hint with ⟨_ | key, _ | value⟩
    · exact fail_same rfl
    · exact fail_same rfl
    · exact fail_same rfl
    · exact .pure rfl
  | cons first rest =>
    rw [List.forall_mem_cons] at h
    exact (h.1.1 scope _).carry fun key => (h.1.2 scope _).carry fun value =>
      (sameEntries_shifts h.2 key value).next fun _ => .pure rfl

theorem varRef_shifts (name : String) (assigned : Bool) :
    (Expr.varRef info name assigned).Shifts d w w' := by
  intro scope hint
  rw [Expr.shift, expr.eq_def w, expr.eq_def w']
  exact typing_shifts hw info.id (nameType_shifts hw info name)

theorem member_shifts {receiver : Expr} (h : receiver.Shifts d w w') (name : String) :
    (Expr.member info receiver name).Shifts d w w' := by
  intro scope hint
  rw [Expr.shift, expr.eq_def w, expr.eq_def w']
  refine typing_shifts hw info.id ((h.plain scope).carry fun type => ?_)
  rw [type.member?_shift]
  cases type.member? name with
  | some type => exact .pure rfl
  | none =>
    exact (callFunction_shifts hw name [type]).carry fun found =>
      (link_shifts info.id (.func found.1)).next fun _ => .pure rfl

theorem index_shifts {receiver index : Expr} (hr : receiver.Shifts d w w')
    (hi : index.Shifts d w w') : (Expr.index info receiver index).Shifts d w w' := by
  intro scope hint
  rw [Expr.shift, expr.eq_def w, expr.eq_def w']
  refine typing_shifts hw info.id ((hr.plain scope).carry fun receiverType => ?_)
  rw [indexHint_shift]
  exact (hi scope _).carry fun type => indexType_shifts receiver index receiverType type

theorem call_shifts {callee : Expr} {args : List Expr} (hc : callee.Shifts d w w')
    (hr : ∀ {info receiver name}, callee = .member info receiver name → receiver.Shifts d w w')
    (ha : ∀ e ∈ args, e.Shifts d w w') : (Expr.call info callee args).Shifts d w w' := by
  intro scope hint
  rw [Expr.shift, shiftExprs_eq, expr.eq_def w, expr.eq_def w']
  refine typing_shifts hw info.id ((exprs_shifts ha []).carry fun types => ?_)
  have hvalue : Carries (twin d) (Ty.shift d)
      (expr w scope none callee >>= fun type => callValue info callee type callee.label types)
      (expr w' scope none (callee.shift d) >>= fun type =>
        callValue (info.shift d) (callee.shift d) type (callee.shift d).label
          (types.map (Ty.shift d))) := by
    rw [callee.label_shift]
    exact (hc.plain scope).carry fun type => callValue_shifts info callee type _ types
  cases callee with
  | varRef calleeInfo name assigned =>
    refine shifts_store fun st _ => ?_
    rw [Store.lookupVar_shift]
    split
    · exact callByName_shifts hw info calleeInfo name types
    · exact hvalue
  | member calleeInfo receiver name =>
    refine ((hr rfl).plain scope).carry fun type => ?_
    rw [List.isEmpty_map, type.member?_shift]
    split
    · next type' hmember =>
      have hshifted : (if types.isEmpty then (type.member? name).map (Ty.shift d) else none) =
          some (type'.shift d) := by
        split at hmember
        · next hempty => rw [if_pos hempty, hmember]; rfl
        · cases hmember
      rw [hshifted]
      exact (setType_shifts calleeInfo.id type').next fun _ => .pure rfl
    · next hmember =>
      have hshifted : (if types.isEmpty then (type.member? name).map (Ty.shift d) else none) =
          none := by
        split at hmember
        · next hempty => rw [if_pos hempty, hmember]; rfl
        · next hempty => rw [if_neg hempty]
      rw [hshifted]
      exact callByName_shifts hw info calleeInfo name (type :: types)
  | _ => exact hvalue

theorem unary_shifts (op : UnaryOp) {operand : Expr} (h : operand.Shifts d w w') :
    (Expr.unary info op operand).Shifts d w w' := by
  intro scope hint
  rw [Expr.shift, expr.eq_def w, expr.eq_def w']
  refine typing_shifts hw info.id ((h scope hint).carry fun type => ?_)
  rw [op.result_shift, operand.position_shift]
  cases op.result type with
  | ok type => exact .pure rfl
  | error expected => exact mismatch_shifts _ _

theorem binary_shifts (op : BinaryOp) {lhs rhs : Expr} (hl : lhs.Shifts d w w')
    (hr : rhs.Shifts d w w') : (Expr.binary info op lhs rhs).Shifts d w w' := by
  intro scope hint
  rw [Expr.shift, expr.eq_def w, expr.eq_def w']
  refine typing_shifts hw info.id ((hl.plain scope).carry fun left => ?_)
  rw [lhs.position_shift, rhs.position_shift, op.result?_shift]
  refine (hr.hinted scope left).carry fun right => (expectType_shifts left right).next fun _ => ?_
  cases op.result? left with
  | some type => exact .pure rfl
  | none => exact mismatch_shifts _ _

theorem cast_shifts {value : Expr} (h : value.Shifts d w w') (written : TypeExpr) :
    (Expr.cast info value written).Shifts d w w' := by
  intro scope hint
  rw [Expr.shift, expr.eq_def w, expr.eq_def w']
  exact typing_shifts hw info.id ((h.plain scope).carry fun _ => denoted_shifts written)

theorem typed_shifts {value : Expr} (h : value.Shifts d w w') (written : TypeExpr) :
    (Expr.typed info value written).Shifts d w w' := by
  intro scope hint
  rw [Expr.shift, expr.eq_def w, expr.eq_def w']
  refine typing_shifts hw info.id ((denoted_shifts written).carry fun type => ?_)
  rw [value.position_shift]
  exact (h.hinted scope type).carry fun actual => (expectType_shifts type actual).next fun _ =>
    .pure rfl

theorem ifElse_shifts (kind : IfKind) {condition thenValue elseValue : Expr}
    (hc : condition.Shifts d w w') (ht : thenValue.Shifts d w w') (he : elseValue.Shifts d w w') :
    (Expr.ifElse info kind condition thenValue elseValue).Shifts d w w' := by
  intro scope hint
  rw [Expr.shift, expr.eq_def w, expr.eq_def w']
  refine typing_shifts hw info.id ((hc.boolean scope).carry fun type => ?_)
  rw [condition.position_shift, elseValue.position_shift]
  refine (expectBool_shifts type).next fun _ => (ht scope hint).carry fun thenType => ?_
  exact (he.hinted scope thenType).carry fun elseType =>
    (expectType_shifts thenType elseType).next fun _ => .pure rfl

theorem range_shifts {first last : Expr} (hf : first.Shifts d w w') (hl : last.Shifts d w w')
    (inclusive : Bool) : (Expr.range info first last inclusive).Shifts d w w' := by
  intro scope hint
  rw [Expr.shift, expr.eq_def w, expr.eq_def w']
  refine typing_shifts hw info.id ((hf.plain scope).carry fun type => ?_)
  rw [first.position_shift, last.position_shift, type.isNumeric_shift]
  refine (hl.hinted scope type).carry fun lastType => (expectType_shifts type lastType).next
    fun _ => ?_
  split
  · exact .pure (by simp)
  · exact mismatch_shifts _ _

theorem lambda_shifts {f : FuncDef} (h : Agree (twin d) (function w f) (function w' (f.shift d))) :
    (Expr.lambda info f).Shifts d w w' := by
  intro scope hint
  rw [Expr.shift, expr.eq_def w, expr.eq_def w']
  refine typing_shifts hw info.id ?_
  dsimp only
  rw [f.params_shift, List.length_map, lambdaHint_shift]
  refine (declareLambda_shifts scope f _).carry fun declared => ?_
  exact h.next fun _ => lambdaType_shifts declared.1 declared.2 _

end

/-! ### Statements -/

theorem stmts_shifts {body : List Stmt} (h : ∀ st ∈ body, st.Shifts d w w') :
    Agree (twin d) (stmts w scope body) (stmts w' scope (body.map (Stmt.shift d))) := by
  induction body with
  | nil =>
    rw [List.map_nil, stmts, stmts]
    exact .pure rfl
  | cons st rest ih =>
    rw [List.forall_mem_cons] at h
    rw [List.map_cons, stmts, stmts]
    exact (h.1 scope).next fun _ => ih h.2

theorem block_shifts (info : NodeInfo) {body : List Stmt} (h : ∀ st ∈ body, st.Shifts d w w') :
    (Block.mk info body).Shifts d w w' := by
  intro parent
  rw [Block.shift, shiftStmts_eq, block, block]
  exact (openBlock_shifts parent info.id).next fun _ => stmts_shifts h

theorem optionalBlock_shifts {b : Option Block} (h : ∀ c ∈ b, c.Shifts d w w') :
    Agree (twin d) (optionalBlock w scope b) (optionalBlock w' scope (b.map (Block.shift d))) := by
  rw [optionalBlock.eq_def, optionalBlock.eq_def]
  cases b with
  | none => exact .pure rfl
  | some b => exact h b rfl scope

theorem arms_shifts {whens : List (Expr × Block)}
    (h : ∀ a ∈ whens, a.1.Shifts d w w' ∧ a.2.Shifts d w w') :
    Agree (twin d) (arms w scope whens) (arms w' scope (whens.map (shiftArm d))) := by
  induction whens with
  | nil =>
    rw [List.map_nil, arms, arms]
    exact .pure rfl
  | cons a rest ih =>
    rw [List.forall_mem_cons] at h
    rw [List.map_cons, arms, arms, a.1.position_shift]
    exact (h.1.1.boolean scope).carry fun type => (expectBool_shifts type).next fun _ =>
      (h.1.2 scope).next fun _ => ih h.2

theorem valueArms_shifts {whens : List (List Expr × Block)}
    (h : ∀ a ∈ whens, (∀ e ∈ a.1, e.Shifts d w w') ∧ a.2.Shifts d w w') (type : Ty) :
    Agree (twin d) (valueArms w scope type whens)
      (valueArms w' scope (type.shift d) (whens.map (shiftValueArm d))) := by
  induction whens with
  | nil =>
    rw [List.map_nil, valueArms, valueArms]
    exact .pure rfl
  | cons a rest ih =>
    rw [List.forall_mem_cons] at h
    rw [List.map_cons, valueArms, valueArms]
    exact (sameType_shifts h.1.1 type).next fun _ => (h.1.2 scope).next fun _ => ih h.2

theorem initStmt_shifts (info : NodeInfo) (decls : List VarDecl) {es : List Expr}
    (h : ∀ e ∈ es, e.Shifts d w w') : (Init.mk info decls es).Shifts d w w' := by
  intro scope
  have hexplicit : Carries (twin d) (List.map (Option.map (Ty.shift d)))
      (decls.mapM fun decl => denoted? decl.type)
      ((decls.map (VarDecl.shift d)).mapM fun decl => denoted? decl.type) :=
    .mapM fun decl _ => denoted?_shifts decl.type
  rw [Init.shift, shiftExprs_eq, initStmt, initStmt]
  refine hexplicit.carry fun explicit => ?_
  rw [List.isEmpty_map]
  refine Alongside.carry (g := List.map (Ty.shift d)) ?_ fun types => declareVars_shifts _ _ _
  split
  · exact declaredTypes_shifts decls explicit
  · exact values_shifts h explicit

theorem initStmts_shifts {inits : List Init} (h : ∀ i ∈ inits, i.Shifts d w w') :
    Agree (twin d) (initStmts w scope inits) (initStmts w' scope (inits.map (Init.shift d))) := by
  induction inits with
  | nil =>
    rw [List.map_nil, initStmts, initStmts]
    exact .pure rfl
  | cons i rest ih =>
    rw [List.forall_mem_cons] at h
    rw [List.map_cons, initStmts, initStmts]
    exact (h.1 scope).next fun _ => ih h.2

section

variable (hw : Demand.Shifted d w w') (info : NodeInfo)
include hw

theorem assign_shifts {ts es : List Expr} (op : Option BinaryOp) (ht : ∀ e ∈ ts, e.Shifts d w w')
    (he : ∀ e ∈ es, e.Shifts d w w') : (Stmt.assign info ts op es).Shifts d w w' := by
  intro scope
  rw [Stmt.shift, shiftExprs_eq, shiftExprs_eq]
  cases op with
  | none =>
    have hstmt : ∀ (w : Demand) (info : NodeInfo) (ts es : List Expr),
        stmt w scope (.assign info ts none es) = visiting w info.id (do
          let hints ← targets w scope ts
          let types ← values w scope hints info.span.start es
          assignTargets ts hints types) := by
      intro w info ts es
      rw [stmt]
      rfl
    rw [hstmt, hstmt]
    exact visiting_shifts hw info.id ((targets_shifts ht).carry fun hints =>
      (values_shifts he hints).carry fun types => assignTargets_shifts ts hints types)
  | some op =>
    rw [stmt.eq_def w, stmt.eq_def w']
    refine visiting_shifts hw info.id ?_
    -- Only a single target with a single value is not refused.
    rcases ts with _ | ⟨target, _ | ⟨other, ts⟩⟩
    · rw [List.map_nil]
      dsimp only
      rw [List.length_map]
      exact fail_same rfl
    · rcases es with _ | ⟨value, _ | ⟨other, es⟩⟩
      · exact fail_same rfl
      · rw [List.forall_mem_singleton] at ht he
        refine (ht.plain scope).carry fun type => (he.hinted scope type).carry fun actual => ?_
        rw [target.position_shift, value.position_shift]
        exact (expectType_shifts type actual).next fun _ => (expectOperand_shifts op type).next
          fun _ => checkAssignable_shifts target
      · simp only [List.map_cons, List.map_nil, List.length_cons, List.length_map]
        exact fail_same rfl
    · simp only [List.map_cons, List.length_map]
      exact fail_same rfl

theorem ifStmt_shifts (kind : IfKind) {condition : Expr} {thenBlock : Block}
    {elseifs : List (Expr × Block)} {elseBlock : Option Block} (hc : condition.Shifts d w w')
    (ht : thenBlock.Shifts d w w') (ha : ∀ a ∈ elseifs, a.1.Shifts d w w' ∧ a.2.Shifts d w w')
    (he : ∀ b ∈ elseBlock, b.Shifts d w w') :
    (Stmt.ifElse info kind condition thenBlock elseifs elseBlock).Shifts d w w' := by
  intro scope
  rw [Stmt.shift, shiftArms_eq, shiftBlock_eq, stmt.eq_def w, stmt.eq_def w']
  refine visiting_shifts hw info.id ((hc.boolean scope).carry fun type => ?_)
  rw [condition.position_shift]
  exact (expectBool_shifts type).next fun _ => (ht scope).next fun _ => (arms_shifts ha).next
    fun _ => optionalBlock_shifts he

theorem ret_shifts {es : List Expr} (h : ∀ e ∈ es, e.Shifts d w w') :
    (Stmt.ret info es).Shifts d w w' := by
  intro scope
  rw [Stmt.shift, shiftExprs_eq, stmt.eq_def w, stmt.eq_def w']
  refine visiting_shifts hw info.id (currentFunc?_shifts.carry fun current => ?_)
  rcases current with _ | ⟨id, f⟩
  · exact fail_same rfl
  · have hret : (f.shift d).ret = f.ret.map (Ty.shift d) := rfl
    dsimp only [Option.map_some]
    rw [hret, List.length_map, returnHints_shift]
    refine (exprs_shifts h _).carry fun types => ?_
    rw [joinTypes_shift]
    exact returnType_shifts id (joinTypes types)

theorem case_shifts {whens : List (Expr × Block)} {elseBlock : Option Block}
    (ha : ∀ a ∈ whens, a.1.Shifts d w w' ∧ a.2.Shifts d w w')
    (he : ∀ b ∈ elseBlock, b.Shifts d w w') : (Stmt.case info whens elseBlock).Shifts d w w' := by
  intro scope
  rw [Stmt.shift, shiftArms_eq, shiftBlock_eq, stmt.eq_def w, stmt.eq_def w']
  exact visiting_shifts hw info.id ((arms_shifts ha).next fun _ => optionalBlock_shifts he)

theorem switch_shifts {target : Expr} {whens : List (List Expr × Block)}
    {elseBlock : Option Block} (ht : target.Shifts d w w')
    (ha : ∀ a ∈ whens, (∀ e ∈ a.1, e.Shifts d w w') ∧ a.2.Shifts d w w')
    (he : ∀ b ∈ elseBlock, b.Shifts d w w') :
    (Stmt.switch info target whens elseBlock).Shifts d w w' := by
  intro scope
  rw [Stmt.shift, shiftValueArms_eq, shiftBlock_eq, stmt.eq_def w, stmt.eq_def w']
  exact visiting_shifts hw info.id ((ht.plain scope).carry fun type =>
    (valueArms_shifts ha type).next fun _ => optionalBlock_shifts he)

theorem forIn_shifts (vars : List Param) {range : Expr} (bodyInfo : NodeInfo) {body : List Stmt}
    (hr : range.Shifts d w w') (hb : ∀ st ∈ body, st.Shifts d w w') :
    (Stmt.forIn info vars range ⟨bodyInfo, body⟩).Shifts d w w' := by
  intro scope
  rw [Stmt.shift, Block.shift, shiftStmts_eq, stmt.eq_def w, stmt.eq_def w']
  refine visiting_shifts hw info.id ((hr.plain scope).carry fun type => ?_)
  rw [range.position_shift, type.element?_shift, List.length_map]
  cases type.element? with
  | none => exact mismatch_shifts _ _
  | some elem =>
    exact (loopTypes_shifts vars.length elem).carry fun types =>
      (openBlock_shifts scope bodyInfo.id).next fun _ =>
        (declareLoopVars_shifts vars types).next fun _ => stmts_shifts hb

theorem whileDo_shifts {condition : Expr} {body : Block} (hc : condition.Shifts d w w')
    (hb : body.Shifts d w w') : (Stmt.whileDo info condition body).Shifts d w w' := by
  intro scope
  rw [Stmt.shift, stmt.eq_def w, stmt.eq_def w']
  refine visiting_shifts hw info.id ((hc.boolean scope).carry fun type => ?_)
  rw [condition.position_shift]
  exact (expectBool_shifts type).next fun _ => hb scope

theorem guarded_shifts (kind : IfKind) {body : Stmt} {condition : Expr} (hb : body.Shifts d w w')
    (hc : condition.Shifts d w w') : (Stmt.guarded info body kind condition).Shifts d w w' := by
  intro scope
  rw [Stmt.shift, stmt.eq_def w, stmt.eq_def w']
  refine visiting_shifts hw info.id ((hb scope).next fun _ => ?_)
  rw [condition.position_shift]
  exact (hc.boolean scope).carry fun type => expectBool_shifts type

theorem letIn_shifts {inits : List Init} {child : Stmt} (hi : ∀ i ∈ inits, i.Shifts d w w')
    (hc : child.Shifts d w w') : (Stmt.letIn info inits child).Shifts d w w' := by
  intro scope
  rw [Stmt.shift, shiftInits_eq, stmt.eq_def w, stmt.eq_def w']
  exact visiting_shifts hw info.id ((openBlock_shifts scope info.id).next fun inner =>
    (initStmts_shifts hi).next fun _ => hc inner)

theorem init_shifts {i : Init} (h : i.Shifts d w w') : (Stmt.init i).Shifts d w w' := by
  intro scope
  have hinfo := (Stmt.init i).info_shift d
  rw [Stmt.shift] at hinfo ⊢
  rw [stmt_init, stmt_init, hinfo]
  exact visiting_shifts hw _ (h scope)

omit info in
theorem exprStmt_shifts {value : Expr} (h : value.Shifts d w w') :
    (Stmt.expr value).Shifts d w w' := by
  intro scope
  have hinfo := value.info_shift d
  rw [Stmt.shift, stmt.eq_def w, stmt.eq_def w', Stmt.info, Stmt.info, hinfo]
  exact visiting_shifts hw _ ((h.plain scope).carry fun _ => .pure rfl)

theorem function_shifts (kind : FuncKind) (name : String) (params : List Param)
    (returnType : Option TypeExpr) {body : Block} {ensureBody : Option Block}
    (hb : body.Shifts d w w') (he : ∀ b ∈ ensureBody, b.Shifts d w w') :
    Agree (twin d) (function w ⟨info, kind, name, params, returnType, body, ensureBody⟩)
      (function w' (FuncDef.shift d
        ⟨info, kind, name, params, returnType, body, ensureBody⟩)) := by
  rw [FuncDef.shift, function, function, shiftBlock_eq]
  refine analysing_shifts hw info.id ((declared_shifts info).next fun declared => ?_)
  exact (hb declared.1).next fun _ => (optionalBlock_shifts he).next fun _ =>
    settleReturn_shifts declared.2

end

end Check

/-! ### All trees -/

/-- Whatever is shifted is analysed as it is itself. -/
theorem shifts_of_demand (hw : Demand.Shifted d w w') : TreeInduction (Expr.Shifts d w w')
    (fun f => Agree (twin d) (function w f) (function w' (f.shift d))) (Block.Shifts d w w')
    (Init.Shifts d w w') (Stmt.Shifts d w w') where
  literal info value := literal_shifts hw info value
  array info _ ih := array_shifts hw info ih
  tuple info _ ih := tuple_shifts hw info ih
  dict info _ ih := dict_shifts hw info ih
  varRef info name assigned := varRef_shifts hw info name assigned
  member info _ name ih := member_shifts hw info ih name
  index info _ _ ihr ihi := index_shifts hw info ihr ihi
  call info _ _ ihc ihr iha := call_shifts hw info ihc ihr iha
  unary info op _ ih := unary_shifts hw info op ih
  binary info op _ _ ihl ihr := binary_shifts hw info op ihl ihr
  cast info _ written ih := cast_shifts hw info ih written
  typed info _ written ih := typed_shifts hw info ih written
  ifElse info kind _ _ _ ihc iht ihe := ifElse_shifts hw info kind ihc iht ihe
  range info _ _ inclusive ihf ihl := range_shifts hw info ihf ihl inclusive
  lambda info _ ih := lambda_shifts hw info ih
  function info kind name params returnType _ _ ihb ihe :=
    function_shifts hw info kind name params returnType ihb ihe
  block info _ ih := block_shifts info ih
  inits info decls _ ih := initStmt_shifts info decls ih
  init _ ih := init_shifts hw ih
  assign info _ op _ iht ihv := assign_shifts hw info op iht ihv
  conditional info kind _ _ _ _ ihc iht iha ihe := ifStmt_shifts hw info kind ihc iht iha ihe
  ret info _ ih := ret_shifts hw info ih
  case info _ _ iha ihe := case_shifts hw info iha ihe
  switch info _ _ _ iht iha ihe := switch_shifts hw info iht iha ihe
  forIn info vars _ bodyInfo _ ihr ihb := forIn_shifts hw info vars bodyInfo ihr ihb
  whileDo info _ _ ihc ihb := whileDo_shifts hw info ihc ihb
  guarded info _ kind _ ihb ihc := guarded_shifts hw info kind ihb ihc
  letIn info _ _ ihi ihc := letIn_shifts hw info ihi ihc
  expr _ ih := exprStmt_shifts hw ih

namespace Check

/-- A shifted definition of constants is analysed as the definition is. -/
theorem constants_shifts (hw : Demand.Shifted d w w') (c : ConstDef) :
    Agree (twin d) (constants w c) (constants w' (c.shift d)) := by
  have hvalues : ∀ e ∈ c.values, e.Shifts d w w' := fun e _ => (shifts_of_demand hw).onExprs e
  refine analysing_shifts hw c.info.id ((constantHandles_shifts c.decls).next fun handles => ?_)
  have hhints : Carries (twin d) (List.map (Option.map (Ty.shift d))) (handles.mapM typeOf?)
      ((handles.map id).mapM typeOf?) := .mapM fun handle _ => typeOf?_shifts handle
  rw [List.map_id] at hhints
  exact hhints.carry fun hints => (values_shifts hvalues hints).carry fun types =>
    assignConstants_shifts c.decls handles types

end Check

end Frontend
