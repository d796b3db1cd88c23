import Frontend.Parser.Program
import Frontend.Proofs.Shift.Tree
import Frontend.Proofs.Shift.Twin

/-!
# Reading with later ids

A parser looks at the counter of ids only to give out the next one. From a stream with a later
counter it reads the same tokens into a shifted tree, or it fails in the same way. `Shifts` says so
of a parser; along the grammar it is shown of programs.
-/

namespace Frontend

variable (d : Nat)

/-- A stream whose counter of ids has been moved on. -/
def TokenStream.shift (s : TokenStream) : TokenStream := { s with nextId := s.nextId + d }

/-- Streams that differ in the counter, which is past the ids of builtin placeholders. Failures are
the same, and no ids are in them. -/
def Parse.twin : Twin Failure TokenStream where
  states s s' := Builtin.firstNodeId ≤ s.nextId ∧ s' = s.shift d
  failures e e' := e' = e ∧ e.isPlain = true

namespace Parse

variable {d} {α β : Type} {act act' : Parse α}

/-- A parser reads a shifted result from a stream with a later counter. -/
abbrev Shifts (d : Nat) (g : α → α) (act : Parse α) : Prop := Carries (twin d) g act act

/-- A parser reads the same from a stream with a later counter. -/
abbrev Steady (d : Nat) (act : Parse α) : Prop := Agree (twin d) act act

/-- A look at the stream comes first. -/
theorem shifts_get {good : α → α → Prop} {f f' : TokenStream → Parse α}
    (h : ∀ s, Alongside (twin d) good (f s) (f' (s.shift d))) :
    Alongside (twin d) good (MonadState.get >>= f) (MonadState.get >>= f') := by
  refine Alongside.get.bind ?_
  rintro s _ ⟨-, rfl⟩
  exact h s

/-! ### Tokens -/

theorem outOfFuel_shifts {g : α → α} : Shifts d g outOfFuel := .throw ⟨rfl, rfl⟩

theorem kind_steady : Steady d kind := shifts_get fun _ => .pure rfl

theorem position_steady : Steady d position := shifts_get fun _ => .pure rfl

theorem advance_steady : Steady d advance := by
  refine Alongside.get.bind ?_
  rintro s _ ⟨hs, rfl⟩
  have hadvance : (twin d).states s.advance (s.shift d).advance := ⟨hs, rfl⟩
  exact (Alongside.set hadvance).next fun _ => .pure rfl

theorem unexpected_shifts {g : α → α} : Shifts d g unexpected :=
  shifts_get fun _ => .throw ⟨rfl, rfl⟩

theorem fail_shifts {g : α → α} (message : String) : Shifts d g (fail message) :=
  shifts_get fun _ => .throw ⟨rfl, rfl⟩

theorem expectOr_steady (expected : TokenKind) (message : String) :
    Steady d (expectOr expected message) := by
  refine kind_steady.next fun kind => ?_
  split
  · exact advance_steady
  · exact shifts_get fun _ => .throw ⟨rfl, rfl⟩

theorem expect_steady (expected : TokenKind) : Steady d (expect expected) := expectOr_steady _ _

theorem name_steady (message : String) : Steady d (name message) :=
  (expectOr_steady _ _).next fun _ => .pure rfl

theorem eat_steady (wanted : TokenKind) : Steady d (eat wanted) := by
  refine kind_steady.next fun kind => ?_
  split
  · exact advance_steady.next fun _ => .pure rfl
  · exact .pure rfl

/-- The next id is the next one, shifted. -/
theorem mint_shifts : Shifts d (shiftId d) mint := by
  refine .modifyGet ?_
  rintro s _ ⟨hs, rfl⟩
  refine ⟨(shiftId_of_le d hs).symm, Nat.le_succ_of_le hs, ?_⟩
  simp only [TokenStream.shift, Nat.add_right_comm]

theorem infoFrom_shifts (start : Position) : Shifts d (NodeInfo.shift d) (infoFrom start) :=
  shifts_get fun _ => mint_shifts.carry fun _ => .pure rfl

/-! ### Combinations -/

variable {g : α → α}

theorem bounded_shifts {p p' : Nat → Parse α} (h : ∀ n, Carries (twin d) g (p n) (p' n)) :
    Carries (twin d) g (bounded p) (bounded p') := shifts_get fun s => h s.bound

theorem commaList_shifts (h : Shifts d g act) (n : Nat) :
    Shifts d (List.map g) (commaList act n) := by
  induction n with
  | zero => exact outOfFuel_shifts
  | succ n ih =>
    rw [commaList]
    refine h.carry fun first => ?_
    refine (eat_steady _).next fun more => ?_
    split
    · exact ih.carry fun rest => .pure rfl
    · exact .pure rfl

theorem listUntil_shifts (stops : TokenKind → Bool) (h : Shifts d g act) (n : Nat) :
    Shifts d (List.map g) (listUntil stops act n) := by
  induction n with
  | zero => exact outOfFuel_shifts
  | succ n ih =>
    rw [listUntil]
    refine kind_steady.next fun kind => ?_
    split
    · exact .pure rfl
    · refine h.carry fun first => ?_
      refine (eat_steady _).next fun more => ?_
      split
      · exact ih.carry fun rest => .pure rfl
      · exact .pure rfl

theorem introduced_shifts (keyword : TokenKind) (h : Shifts d g act) (n : Nat) :
    Shifts d (List.map g) (introduced keyword act n) := by
  induction n with
  | zero => exact outOfFuel_shifts
  | succ n ih =>
    rw [introduced]
    refine (eat_steady _).next fun more => ?_
    split
    · exact h.carry fun first => ih.carry fun rest => .pure rfl
    · exact .pure rfl

theorem optional_shifts (keyword : TokenKind) (h : Shifts d g act) :
    Shifts d (Option.map g) (optional keyword act) := by
  refine (eat_steady _).next fun more => ?_
  split
  · exact h.carry fun _ => .pure rfl
  · exact .pure rfl

/-! ### Type annotations -/

section

variable {nested : Power → Parse TypeExpr}
  (h : ∀ power, Shifts d (TypeExpr.shift d) (nested power))
include h

theorem typeList_shifts (close : TokenKind) :
    Shifts d (List.map (TypeExpr.shift d)) (typeList nested close) :=
  bounded_shifts fun n => listUntil_shifts _ (h .default) n

theorem primaryType_shifts : Shifts d (TypeExpr.shift d) (primaryType nested) := by
  refine (expect_steady _).next fun token => ?_
  have hrest : ∀ args : List TypeExpr, Carries (twin d) (TypeExpr.shift d)
      (do return .primary (← infoFrom token.span.start) token.value args)
      (do
        return .primary (← infoFrom token.span.start) token.value
          (args.map (TypeExpr.shift d))) := fun args =>
    (infoFrom_shifts _).carry fun info => .pure (by simp [TypeExpr.shift])
  refine (eat_steady _).next fun more => ?_
  dsimp only
  split
  · refine (typeList_shifts h _).carry fun args => ?_
    exact (expect_steady _).next fun _ => hrest args
  · exact hrest []

theorem arrayType_shifts : Shifts d (TypeExpr.shift d) (arrayType nested) := by
  refine advance_steady.next fun token => ?_
  refine (h _).carry fun elem => ?_
  refine (expect_steady _).next fun _ => ?_
  exact (infoFrom_shifts _).carry fun info => .pure rfl

theorem dictType_shifts : Shifts d (TypeExpr.shift d) (dictType nested) := by
  refine advance_steady.next fun token => ?_
  refine (h _).carry fun key => ?_
  refine (expect_steady _).next fun _ => ?_
  refine (h _).carry fun value => ?_
  refine (expect_steady _).next fun _ => ?_
  exact (infoFrom_shifts _).carry fun info => .pure rfl

theorem tupleType_shifts : Shifts d (TypeExpr.shift d) (tupleType nested) := by
  refine advance_steady.next fun token => ?_
  refine (typeList_shifts h _).carry fun elems => ?_
  refine (expect_steady _).next fun _ => ?_
  rcases elems with _ | ⟨elem, _ | ⟨other, rest⟩⟩
  · exact (infoFrom_shifts _).carry fun info => .pure rfl
  · exact .pure rfl
  · exact (infoFrom_shifts _).carry fun info => .pure (by simp [TypeExpr.shift])

theorem funcType_shifts : Shifts d (TypeExpr.shift d) (funcType nested) := by
  refine advance_steady.next fun keyword => ?_
  refine (expect_steady _).next fun _ => ?_
  refine (typeList_shifts h _).carry fun params => ?_
  refine (expect_steady _).next fun _ => ?_
  have hrest : ∀ (kind : FuncKind) (ret : Option TypeExpr), Carries (twin d) (TypeExpr.shift d)
      (do return .func (← infoFrom keyword.span.start) kind params ret)
      (do
        return .func (← infoFrom keyword.span.start) kind (params.map (TypeExpr.shift d))
          (ret.map (TypeExpr.shift d))) := by
    intro kind ret
    refine (infoFrom_shifts _).carry fun info => .pure ?_
    cases ret <;> simp [TypeExpr.shift]
  dsimp only
  generalize (if keyword.kind = .proc then FuncKind.proc else .func) = kind
  split
  · exact (optional_shifts _ (h _)).carry (hrest kind)
  · exact hrest kind none

theorem refType_shifts : Shifts d (TypeExpr.shift d) (refType nested) := by
  refine advance_steady.next fun token => ?_
  refine (h _).carry fun inner => ?_
  exact (infoFrom_shifts _).carry fun info => .pure rfl

theorem typeOperand_shifts : Shifts d (TypeExpr.shift d) (typeOperand nested) := by
  refine kind_steady.next fun kind => ?_
  split
  · exact primaryType_shifts h
  · exact arrayType_shifts h
  · exact dictType_shifts h
  · exact tupleType_shifts h
  · exact funcType_shifts h
  · exact funcType_shifts h
  · exact refType_shifts h
  · exact fail_shifts _

end

theorem typeSuffixes_shifts (power : Power) (left : TypeExpr) (n : Nat) :
    Carries (twin d) (TypeExpr.shift d) (typeSuffixes power left n)
      (typeSuffixes power (left.shift d) n) := by
  induction n generalizing left with
  | zero => exact outOfFuel_shifts
  | succ n ih =>
    rw [typeSuffixes, typeSuffixes]
    split
    · exact .pure rfl
    · refine (eat_steady _).next fun more => ?_
      split
      · rw [TypeExpr.position_shift]
        exact (infoFrom_shifts _).carry fun info => ih (.qualified info .maybe left)
      · exact .pure rfl

theorem typeExprAt_shifts (n : Nat) (power : Power) :
    Shifts d (TypeExpr.shift d) (typeExprAt n power) := by
  induction n generalizing power with
  | zero => exact outOfFuel_shifts
  | succ n ih =>
    exact (typeOperand_shifts ih).carry fun left =>
      bounded_shifts fun n => typeSuffixes_shifts power left n

theorem typeExpr_shifts (power : Power) : Shifts d (TypeExpr.shift d) (typeExpr power) :=
  bounded_shifts fun n => typeExprAt_shifts n power

theorem optionalType_shifts : Shifts d (Option.map (TypeExpr.shift d)) optionalType :=
  optional_shifts _ (typeExpr_shifts _)

/-! ### Expressions -/

theorem numeral_steady (read : String → Option α) : Steady d (numeral read) := by
  refine shifts_get fun s => ?_
  have hcurrent : (s.shift d).current = s.current := rfl
  rw [hcurrent]
  split
  · exact .pure rfl
  · exact .throw ⟨rfl, rfl⟩

theorem primary_shifts {build : NodeInfo → Expr}
    (h : ∀ info, build (info.shift d) = (build info).shift d) :
    Shifts d (Expr.shift d) (primary build) :=
  advance_steady.next fun token => mint_shifts.carry fun id => .pure (h ⟨id, token.span⟩)

theorem literal_shifts (value : Literal) : Shifts d (Expr.shift d) (literal value) :=
  primary_shifts fun _ => rfl

theorem symbolLiteral_shifts : Shifts d (Expr.shift d) symbolLiteral := by
  refine advance_steady.next fun token => ?_
  refine (name_steady _).next fun name => ?_
  exact (infoFrom_shifts _).carry fun info => .pure rfl

theorem param_shifts : Shifts d (Param.shift d) param := by
  refine position_steady.next fun start => ?_
  refine (eat_steady _).next fun isVar => ?_
  refine (name_steady _).next fun name => ?_
  refine optionalType_shifts.carry fun type => ?_
  exact (infoFrom_shifts _).carry fun info => .pure rfl

/-- Readers of what may be nested read shifted trees. -/
structure Nested.Shifts (d : Nat) (g : Nested) : Prop where
  expr : ∀ power, Parse.Shifts d (Expr.shift d) (g.expr power)
  block : Parse.Shifts d (Block.shift d) g.block
  stmt : Parse.Shifts d (Stmt.shift d) g.stmt

section

variable {g : Nested} (h : g.Shifts d)
include h

theorem exprList_shifts : Shifts d (List.map (Expr.shift d)) (exprList g) :=
  bounded_shifts fun n => commaList_shifts (h.expr _) n

theorem exprListBefore_shifts (close : TokenKind) :
    Shifts d (List.map (Expr.shift d)) (exprListBefore g close) := by
  refine kind_steady.next fun kind => ?_
  split
  · exact .pure rfl
  · exact exprList_shifts h

theorem unaryExpr_shifts (op : UnaryOp) : Shifts d (Expr.shift d) (unaryExpr g op) := by
  refine advance_steady.next fun token => ?_
  refine (h.expr _).carry fun operand => ?_
  exact (infoFrom_shifts _).carry fun info => .pure rfl

theorem grouping_shifts : Shifts d (Expr.shift d) (grouping g) := by
  refine advance_steady.next fun token => ?_
  refine (eat_steady _).next fun closed => ?_
  split
  · exact (infoFrom_shifts _).carry fun info => .pure rfl
  · refine (exprList_shifts h).carry fun elems => ?_
    refine (expect_steady _).next fun _ => ?_
    rcases elems with _ | ⟨elem, _ | ⟨other, rest⟩⟩
    · exact (infoFrom_shifts _).carry fun info => .pure rfl
    · exact .pure rfl
    · exact (infoFrom_shifts _).carry fun info => .pure (by simp [Expr.shift])

theorem arrayLiteral_shifts : Shifts d (Expr.shift d) (arrayLiteral g) := by
  refine advance_steady.next fun token => ?_
  refine (exprListBefore_shifts h _).carry fun elems => ?_
  refine (expect_steady _).next fun _ => ?_
  exact (infoFrom_shifts _).carry fun info => .pure (by simp [Expr.shift])

theorem dictEntry_shifts : Shifts d (shiftEntry d) (dictEntry g) := by
  refine (h.expr _).carry fun key => ?_
  refine (expect_steady _).next fun _ => ?_
  exact (h.expr _).carry fun value => .pure rfl

theorem dictLiteral_shifts : Shifts d (Expr.shift d) (dictLiteral g) := by
  refine advance_steady.next fun token => ?_
  refine (bounded_shifts fun n => listUntil_shifts _ (dictEntry_shifts h) n).carry fun entries => ?_
  refine (expect_steady _).next fun _ => ?_
  exact (infoFrom_shifts _).carry fun info => .pure (by simp [Expr.shift])

theorem lambdaBody_shifts : Shifts d (Block.shift d) (lambdaBody g) := by
  refine (eat_steady _).next fun short => ?_
  split
  · refine position_steady.next fun start => ?_
    refine (h.expr _).carry fun value => ?_
    refine (infoFrom_shifts _).carry fun inner => ?_
    exact (infoFrom_shifts _).carry fun info => .pure rfl
  · exact h.block

/-- The name of a lambda is made from its shifted id. -/
theorem lambda_shifts : Shifts d (Expr.shift d) (lambda g) := by
  refine advance_steady.next fun token => ?_
  refine (eat_steady _).next fun parenthesized => ?_
  refine (bounded_shifts fun n => listUntil_shifts _ param_shifts n).carry fun params => ?_
  have hrest : ∀ params' : List Param, params' = params.map (Param.shift d) →
      Carries (twin d) (Expr.shift d)
        (do
          let body ← lambdaBody g
          let info ← infoFrom token.span.start
          let definition : FuncDef :=
            ⟨info, .lambda, "lambda." ++ info.id.repr, params, none, body, none⟩
          return .lambda (← infoFrom token.span.start) definition)
        (do
          let body ← lambdaBody g
          let info ← infoFrom token.span.start
          let definition : FuncDef :=
            ⟨info, .lambda, "lambda." ++ info.id.repr, params', none, body, none⟩
          return .lambda (← infoFrom token.span.start) definition) := by
    rintro _ rfl
    refine (lambdaBody_shifts h).carry fun body => ?_
    refine (infoFrom_shifts _).carry fun info => ?_
    refine (infoFrom_shifts _).carry fun outer => .pure ?_
    simp only [Expr.shift, FuncDef.shift, shiftBlock, shiftName_lambda, Option.map_none]
    rfl
  dsimp only
  split
  · exact (expect_steady _).next fun _ => hrest _ rfl
  · exact hrest _ rfl

theorem ifExpr_shifts (kind : IfKind) : Shifts d (Expr.shift d) (ifExpr g kind) := by
  refine advance_steady.next fun keyword => ?_
  refine (h.expr _).carry fun condition => ?_
  refine (expect_steady _).next fun _ => ?_
  refine (h.expr _).carry fun thenValue => ?_
  refine (expect_steady _).next fun _ => ?_
  refine (h.expr _).carry fun elseValue => ?_
  exact (infoFrom_shifts _).carry fun info => .pure rfl

theorem operand_shifts : Shifts d (Expr.shift d) (operand g) := by
  refine shifts_get fun s => ?_
  have hcurrent : (s.shift d).current = s.current := rfl
  simp only [hcurrent]
  split
  · exact (numeral_steady _).next fun value => literal_shifts _
  · exact (numeral_steady _).next fun value => literal_shifts _
  · exact (numeral_steady _).next fun value => literal_shifts _
  · split
    · exact literal_shifts _
    · exact fail_shifts _
  · exact literal_shifts _
  · exact literal_shifts _
  · exact literal_shifts _
  · exact primary_shifts fun _ => rfl
  · exact unaryExpr_shifts h _
  · exact unaryExpr_shifts h _
  · exact unaryExpr_shifts h _
  · exact grouping_shifts h
  · exact arrayLiteral_shifts h
  · exact dictLiteral_shifts h
  · exact ifExpr_shifts h _
  · exact ifExpr_shifts h _
  · exact symbolLiteral_shifts
  · exact lambda_shifts h
  · exact unexpected_shifts

theorem applyOperator_shifts (op : Operator) (left : Expr) :
    Carries (twin d) (Expr.shift d) (applyOperator g op left)
      (applyOperator g op (left.shift d)) := by
  have hinfo : Shifts d (NodeInfo.shift d) (infoFrom left.position) := infoFrom_shifts _
  refine advance_steady.next fun _ => ?_
  simp only [Expr.position_shift]
  cases op with
  | binary op => exact (h.expr _).carry fun right => hinfo.carry fun info => .pure rfl
  | range inclusive => exact (h.expr _).carry fun last => hinfo.carry fun info => .pure rfl
  | typed => exact (typeExpr_shifts _).carry fun type => hinfo.carry fun info => .pure rfl
  | cast => exact (typeExpr_shifts _).carry fun type => hinfo.carry fun info => .pure rfl
  | call =>
    refine (exprListBefore_shifts h _).carry fun args => ?_
    refine (expect_steady _).next fun _ => ?_
    exact hinfo.carry fun info => .pure (by simp [Expr.shift])
  | index =>
    refine (h.expr _).carry fun index => ?_
    refine (expect_steady _).next fun _ => ?_
    exact hinfo.carry fun info => .pure rfl
  | member => exact (name_steady _).next fun name => hinfo.carry fun info => .pure rfl

theorem operators_shifts (power : Power) (left : Expr) (n : Nat) :
    Carries (twin d) (Expr.shift d) (operators g power left n)
      (operators g power (left.shift d) n) := by
  induction n generalizing left with
  | zero => exact outOfFuel_shifts
  | succ n ih =>
    rw [operators, operators]
    refine kind_steady.next fun kind => ?_
    split
    · exact .pure rfl
    · split
      · exact .pure rfl
      · exact (applyOperator_shifts h _ left).carry ih

theorem exprWith_shifts (power : Power) : Shifts d (Expr.shift d) (exprWith g power) :=
  (operand_shifts h).carry fun left => bounded_shifts fun n => operators_shifts h power left n

end

/-! ### Statements -/

theorem varDecl_shifts (isVar : Bool) : Shifts d (VarDecl.shift d) (varDecl isVar) := by
  refine position_steady.next fun start => ?_
  refine (name_steady _).next fun name => ?_
  refine optionalType_shifts.carry fun type => ?_
  exact (infoFrom_shifts _).carry fun info => .pure rfl

theorem any_untyped_shift (decls : List VarDecl) :
    (decls.map (VarDecl.shift d)).any (·.type.isNone) = decls.any (·.type.isNone) := by
  rw [List.any_map]
  simp [VarDecl.shift, Function.comp_def]

section

variable {g : Nested} (h : g.Shifts d)
include h

theorem initStmt_shifts : Shifts d (Init.shift d) (initStmt g) := by
  refine advance_steady.next fun keyword => ?_
  refine (bounded_shifts fun n => commaList_shifts (varDecl_shifts _) n).carry fun decls => ?_
  have hrest : ∀ values : List Expr, Carries (twin d) (Init.shift d)
      (do return ⟨← infoFrom keyword.span.start, decls, values⟩)
      (do
        return ⟨← infoFrom keyword.span.start, decls.map (VarDecl.shift d),
          values.map (Expr.shift d)⟩) := fun values =>
    (infoFrom_shifts _).carry fun info => .pure (by simp [Init.shift])
  refine (eat_steady _).next fun assigned => ?_
  rw [any_untyped_shift]
  dsimp only
  split
  · exact (exprList_shifts h).carry hrest
  · split
    · exact (fail_shifts _ : Shifts d (List.map (Expr.shift d)) _).carry hrest
    · exact hrest []

theorem returnStmt_shifts : Shifts d (Stmt.shift d) (returnStmt g) := by
  refine advance_steady.next fun keyword => ?_
  refine kind_steady.next fun kind => ?_
  have hrest : ∀ values : List Expr, Carries (twin d) (Stmt.shift d)
      (do return .ret (← infoFrom keyword.span.start) values)
      (do return .ret (← infoFrom keyword.span.start) (values.map (Expr.shift d))) := fun values =>
    (infoFrom_shifts _).carry fun info => .pure (by simp [Stmt.shift])
  dsimp only
  split
  · exact hrest []
  · exact hrest []
  · exact hrest []
  · exact (exprList_shifts h).carry hrest

theorem exprOrAssign_shifts : Shifts d (Stmt.shift d) (exprOrAssign g) := by
  refine position_steady.next fun start => ?_
  refine (exprList_shifts h).carry fun exprs => ?_
  refine kind_steady.next fun kind => ?_
  dsimp only
  split
  · refine advance_steady.next fun _ => ?_
    refine (exprList_shifts h).carry fun values => ?_
    simp only [List.length_map]
    split
    · exact fail_shifts _
    · refine (infoFrom_shifts _).carry fun info => .pure ?_
      have htargets : (exprs.map (Expr.shift d)).map Expr.asTarget =
          (exprs.map Expr.asTarget).map (Expr.shift d) := by
        simp only [List.map_map, Function.comp_def, Expr.asTarget_shift]
      rw [htargets]
      simp [Stmt.shift]
  · rcases exprs with _ | ⟨value, _ | ⟨other, rest⟩⟩
    · exact fail_shifts _
    · exact .pure rfl
    · exact fail_shifts _

theorem guard_shifts (start : Position) (body : Stmt) :
    Carries (twin d) (Stmt.shift d) (guard g start body) (guard g start (body.shift d)) := by
  have hguarded : ∀ kind : IfKind, Carries (twin d) (Stmt.shift d)
      (do
        let _ ← advance
        let condition ← g.expr .default
        return .guarded (← infoFrom start) body kind condition)
      (do
        let _ ← advance
        let condition ← g.expr .default
        return .guarded (← infoFrom start) (body.shift d) kind condition) := by
    intro kind
    refine advance_steady.next fun _ => ?_
    refine (h.expr _).carry fun condition => ?_
    exact (infoFrom_shifts _).carry fun info => .pure rfl
  refine kind_steady.next fun kind => ?_
  split
  · exact hguarded .if
  · exact hguarded .unless
  · exact .pure rfl

theorem simpleStmt_shifts {body : Parse Stmt} (hbody : Shifts d (Stmt.shift d) body) :
    Shifts d (Stmt.shift d) (simpleStmt g body) := by
  refine position_steady.next fun start => ?_
  refine hbody.carry fun stmt => ?_
  refine (guard_shifts h start stmt).carry fun stmt => ?_
  exact (expect_steady _).next fun _ => .pure rfl

theorem arm_shifts : Shifts d (shiftArm d) (arm g) :=
  (h.expr _).carry fun _ => h.block.carry fun _ => .pure rfl

theorem valueArm_shifts : Shifts d (shiftValueArm d) (valueArm g) :=
  (exprList_shifts h).carry fun _ => h.block.carry fun _ => .pure rfl

theorem ifStmt_shifts (kind : IfKind) : Shifts d (Stmt.shift d) (ifStmt g kind) := by
  refine advance_steady.next fun keyword => ?_
  refine (arm_shifts h).carry fun arm => ?_
  refine (bounded_shifts fun n => introduced_shifts _ (arm_shifts h) n).carry fun elseifs => ?_
  refine (optional_shifts _ h.block).carry fun elseBlock => ?_
  exact (infoFrom_shifts _).carry fun info => .pure (by simp [Stmt.shift])

theorem caseStmt_shifts : Shifts d (Stmt.shift d) (caseStmt g) := by
  refine advance_steady.next fun keyword => ?_
  refine (eat_steady _).next fun plain => ?_
  split
  · refine (bounded_shifts fun n => introduced_shifts _ (arm_shifts h) n).carry fun whens => ?_
    refine (optional_shifts _ h.block).carry fun elseBlock => ?_
    refine (expect_steady _).next fun _ => ?_
    exact (infoFrom_shifts _).carry fun info => .pure (by simp [Stmt.shift])
  · refine (h.expr _).carry fun target => ?_
    refine (expect_steady _).next fun _ => ?_
    refine (bounded_shifts fun n => introduced_shifts _ (valueArm_shifts h) n).carry fun whens => ?_
    refine (optional_shifts _ h.block).carry fun elseBlock => ?_
    refine (expect_steady _).next fun _ => ?_
    exact (infoFrom_shifts _).carry fun info => .pure (by simp [Stmt.shift])

theorem forStmt_shifts : Shifts d (Stmt.shift d) (forStmt g) := by
  refine advance_steady.next fun keyword => ?_
  refine (bounded_shifts fun n => commaList_shifts param_shifts n).carry fun vars => ?_
  refine (expect_steady _).next fun _ => ?_
  refine (h.expr _).carry fun range => ?_
  refine h.block.carry fun body => ?_
  exact (infoFrom_shifts _).carry fun info => .pure rfl

theorem whileStmt_shifts : Shifts d (Stmt.shift d) (whileStmt g) := by
  refine advance_steady.next fun keyword => ?_
  refine (h.expr _).carry fun condition => ?_
  refine h.block.carry fun body => ?_
  exact (infoFrom_shifts _).carry fun info => .pure rfl

theorem letInits_shifts (n : Nat) : Shifts d (List.map (Init.shift d)) (letInits g n) := by
  have hrest : ∀ {n}, Shifts d (List.map (Init.shift d)) (letInits g n) →
      Shifts d (List.map (Init.shift d)) (do
        let first ← initStmt g
        if ← eat .semicolon then return first :: (← letInits g n) else return [first]) := by
    intro n ih
    refine (initStmt_shifts h).carry fun first => ?_
    refine (eat_steady _).next fun more => ?_
    split
    · exact ih.carry fun rest => .pure rfl
    · exact .pure rfl
  induction n with
  | zero => exact outOfFuel_shifts
  | succ n ih =>
    rw [letInits]
    refine kind_steady.next fun kind => ?_
    split
    · exact hrest ih
    · exact hrest ih
    · exact fail_shifts _

theorem letStmt_shifts : Shifts d (Stmt.shift d) (letStmt g) := by
  refine advance_steady.next fun keyword => ?_
  refine (bounded_shifts (letInits_shifts h)).carry fun inits => ?_
  refine (expect_steady _).next fun _ => ?_
  refine h.stmt.carry fun child => ?_
  exact (infoFrom_shifts _).carry fun info => .pure (by simp [Stmt.shift])

theorem stmtWith_shifts : Shifts d (Stmt.shift d) (stmtWith g) := by
  have hinit : Shifts d (Stmt.shift d) (do return .init (← initStmt g)) :=
    (initStmt_shifts h).carry fun init => .pure rfl
  refine kind_steady.next fun kind => ?_
  split
  · exact simpleStmt_shifts h hinit
  · exact simpleStmt_shifts h hinit
  · exact simpleStmt_shifts h (returnStmt_shifts h)
  · exact ifStmt_shifts h _
  · exact ifStmt_shifts h _
  · exact caseStmt_shifts h
  · exact forStmt_shifts h
  · exact whileStmt_shifts h
  · exact letStmt_shifts h
  · exact simpleStmt_shifts h (exprOrAssign_shifts h)

theorem stmtsUntilClose_shifts (n : Nat) :
    Shifts d (List.map (Stmt.shift d)) (stmtsUntilClose g n) := by
  induction n with
  | zero => exact outOfFuel_shifts
  | succ n ih =>
    refine shifts_get fun s => ?_
    have hkind : (s.shift d).kind = s.kind := rfl
    have htokens : (s.shift d).hasTokens = s.hasTokens := rfl
    simp only [hkind, htokens]
    split
    · exact .pure rfl
    · split
      · exact fail_shifts _
      · exact h.stmt.carry fun first => ih.carry fun rest => .pure rfl

theorem blockWith_shifts : Shifts d (Block.shift d) (blockWith g) := by
  refine position_steady.next fun start => ?_
  refine (expect_steady _).next fun _ => ?_
  refine (bounded_shifts (stmtsUntilClose_shifts h)).carry fun stmts => ?_
  refine (expect_steady _).next fun _ => ?_
  exact (infoFrom_shifts _).carry fun info => .pure (by simp [Block.shift])

end

/-- Whatever is nested is read shifted, to any depth. -/
theorem nestedAt_shifts (n : Nat) : Nested.Shifts d ⟨exprAt n, blockAt n, stmtAt n⟩ := by
  induction n with
  | zero =>
    exact
      { expr := fun _ => outOfFuel_shifts
        block := outOfFuel_shifts
        stmt := outOfFuel_shifts }
  | succ n ih =>
    exact
      { expr := exprWith_shifts ih
        block := blockWith_shifts ih
        stmt := stmtWith_shifts ih }

theorem nested_shifts : Nested.Shifts d nested where
  expr power := bounded_shifts fun n => (nestedAt_shifts (depth n)).expr power
  block := bounded_shifts fun n => (nestedAt_shifts (depth n)).block
  stmt := bounded_shifts fun n => (nestedAt_shifts (depth n)).stmt

/-! ### Programs -/

theorem returnType_shifts (kind : FuncKind) :
    Shifts d (Option.map (TypeExpr.shift d)) (returnType kind) := by
  refine kind_steady.next fun token => ?_
  split
  · exact fail_shifts _
  · exact optionalType_shifts

theorem function_shifts {kind : FuncKind} (hkind : kind ≠ .lambda) :
    Shifts d (FuncDef.shift d) (function kind) := by
  refine advance_steady.next fun keyword => ?_
  refine (name_steady _).next fun name => ?_
  refine (expect_steady _).next fun _ => ?_
  refine (bounded_shifts fun n => listUntil_shifts _ param_shifts n).carry fun params => ?_
  refine (expect_steady _).next fun _ => ?_
  refine (returnType_shifts kind).carry fun type => ?_
  refine nested_shifts.block.carry fun body => ?_
  refine (optional_shifts _ nested_shifts.block).carry fun ensureBody => ?_
  refine (infoFrom_shifts _).carry fun info => .pure ?_
  simp [FuncDef.shift, shiftName_of_ne d hkind]

theorem constDecl_shifts : Shifts d (ConstDecl.shift d) constDecl := by
  refine position_steady.next fun start => ?_
  refine (name_steady _).next fun name => ?_
  refine optionalType_shifts.carry fun type => ?_
  exact (infoFrom_shifts _).carry fun info => .pure rfl

theorem constant_shifts : Shifts d (ConstDef.shift d) constant := by
  refine advance_steady.next fun keyword => ?_
  refine (bounded_shifts fun n => commaList_shifts constDecl_shifts n).carry fun decls => ?_
  refine (expectOr_steady _ _).next fun _ => ?_
  refine (exprList_shifts nested_shifts).carry fun values => ?_
  refine (expect_steady _).next fun _ => ?_
  exact (infoFrom_shifts _).carry fun info => .pure rfl

theorem definition_shifts : Shifts d (Definition.shift d) definition := by
  refine kind_steady.next fun kind => ?_
  split
  · exact (function_shifts (by decide)).carry fun f => .pure rfl
  · exact (function_shifts (by decide)).carry fun f => .pure rfl
  · exact constant_shifts.carry fun c => .pure rfl
  · exact fail_shifts _

theorem definitions_shifts (n : Nat) :
    Shifts d (List.map (Definition.shift d)) (definitions n) := by
  induction n with
  | zero => exact outOfFuel_shifts
  | succ n ih =>
    refine shifts_get fun s => ?_
    have htokens : (s.shift d).hasTokens = s.hasTokens := rfl
    rw [htokens]
    split
    · exact definition_shifts.carry fun first => ih.carry fun rest => .pure rfl
    · exact .pure rfl

theorem program_shifts : Shifts d (Program.shift d) program := by
  refine position_steady.next fun start => ?_
  refine (bounded_shifts definitions_shifts).carry fun definitions => ?_
  exact (infoFrom_shifts _).carry fun info => .pure rfl

end Parse

/-- From a later id on, the same tokens are read as a shifted program, or they are refused in the
same way, without an id in the report. -/
theorem Program.parse_follows (tokens : List Token) (file : String) {first : Nat}
    (h : Builtin.firstNodeId ≤ first) (d : Nat) :
    match Program.parse tokens file first with
    | .ok (p, nextId) => Program.parse tokens file (first + d) = .ok (p.shift d, nextId + d)
    | .error e => Program.parse tokens file (first + d) = .error e ∧ e.isPlain = true := by
  have hstreams : (Parse.twin d).states (.ofTokens tokens file first)
      (.ofTokens tokens file (first + d)) := ⟨h, rfl⟩
  have hfollows := Parse.program_shifts hstreams
  unfold parse EStateM.run
  cases hrun : Parse.program (.ofTokens tokens file first) with
  | ok p s =>
    obtain ⟨_, _, hrun', rfl, -, rfl⟩ := hfollows.of_ok hrun
    rw [hrun']
    rfl
  | error e s =>
    obtain ⟨_, _, hrun', rfl, hplain⟩ := hfollows.of_error hrun
    rw [hrun']
    exact ⟨rfl, hplain⟩

end Frontend
