import Frontend.Decimal.Numeral
import Frontend.Proofs.Tree.Shape

/-!
# Trees that can be written down

What the grammar promises of every tree that is read from tokens: groups of one element are
collapsed to it, lists that the grammar wants filled are not empty, names are marked as assigned
just where they are targets, and each literal has a text that reads back to it. A tree that can be
written down is well shaped.
-/

namespace Frontend

/-- A text stands for a literal. The text of a truth value is its keyword, whatever it says. -/
def Literal.Reads : Literal → String → Prop
  | .char c, text => text.toList.head? = some c
  | .float value, text => Numeral.double? text = some value
  | .bool _, _ => True
  | .string value, text => text = value
  | .int value, text => Numeral.int? text = some value
  | .uint value, text => Numeral.uint? text = some value
  | .symbol name, text => text = name

/-- Some text stands for a literal. -/
def Literal.Readable (l : Literal) : Prop := ∃ text, l.Reads text

mutual

/-- A type annotation that can be written down. -/
@[simp] def TypeExpr.Written : TypeExpr → Prop
  | .primary _ _ args => typesWritten args
  | .array _ elem => elem.Written
  | .dict _ key value => key.Written ∧ value.Written
  | .tuple _ elems => elems.length ≠ 1 ∧ typesWritten elems
  | .func _ kind params none => kind ≠ .lambda ∧ typesWritten params
  | .func _ kind params (some ret) => kind = .func ∧ typesWritten params ∧ ret.Written
  | .qualified _ _ inner => inner.Written

/-- Type annotations that can be written down. -/
@[simp] def typesWritten : List TypeExpr → Prop
  | [] => True
  | t :: rest => t.Written ∧ typesWritten rest

end

/-- A parameter that can be written down. -/
def Param.Written (p : Param) : Prop := ∀ t ∈ p.type, t.Written

/-- A declared name that can be written down. -/
def VarDecl.Written (d : VarDecl) : Prop := ∀ t ∈ d.type, t.Written

/-- A declared constant that can be written down. -/
def ConstDecl.Written (d : ConstDecl) : Prop := ∀ t ∈ d.type, t.Written

/-- Whether an expression is a plain name. -/
def Expr.isName : Expr → Bool
  | .varRef .. => true
  | _ => false

/-- A plain name without its mark as a target. -/
def Expr.unmarked : Expr → Expr
  | .varRef info name _ => .varRef info name false
  | e => e

/-- The statements that a condition may stand behind. -/
def Stmt.isSimple : Stmt → Bool
  | .init _ | .assign .. | .ret .. | .expr _ => true
  | _ => false

/-- What a lambda fixes of its definition; it is named after its own id. -/
structure FuncDef.IsLambda (d : FuncDef) : Prop where
  kind : d.kind = .lambda
  name : d.name = "lambda." ++ d.info.id.repr
  returnType : d.returnType = none
  ensureBody : d.ensureBody = none

mutual

/-- An expression that can be written down, where no target stands. -/
@[simp] def Expr.Written : Expr → Prop
  | .literal _ value => value.Readable
  | .varRef _ _ assigned => assigned = false
  | .array _ elems => exprsWritten elems
  | .tuple _ elems => elems.length ≠ 1 ∧ exprsWritten elems
  | .dict _ entries => entriesWritten entries
  | .member _ receiver _ => receiver.Written
  | .index _ receiver index => receiver.Written ∧ index.Written
  | .call _ callee args => callee.Written ∧ exprsWritten args
  | .unary _ _ operand => operand.Written
  | .binary _ _ lhs rhs => lhs.Written ∧ rhs.Written
  | .cast _ value type | .typed _ value type => value.Written ∧ type.Written
  | .ifElse _ _ condition thenValue elseValue =>
    condition.Written ∧ thenValue.Written ∧ elseValue.Written
  | .range _ first last _ => first.Written ∧ last.Written
  | .lambda _ d => d.IsLambda ∧ d.Written

/-- Expressions that can be written down. -/
@[simp] def exprsWritten : List Expr → Prop
  | [] => True
  | e :: rest => e.Written ∧ exprsWritten rest

/-- Targets of an assignment that can be written down: plain names are marked. -/
@[simp] def targetsWritten : List Expr → Prop
  | [] => True
  | e :: rest => (e.asTarget = e ∧ (e.isName = true ∨ e.Written)) ∧ targetsWritten rest

/-- Entries of a dictionary that can be written down. -/
@[simp] def entriesWritten : List (Expr × Expr) → Prop
  | [] => True
  | (key, value) :: rest => key.Written ∧ value.Written ∧ entriesWritten rest

/-- The parameters and bodies of a function can be written down. -/
@[simp] def FuncDef.Written : FuncDef → Prop
  | ⟨_, _, _, params, returnType, body, ensureBody⟩ =>
    (∀ p ∈ params, p.Written) ∧ (∀ t ∈ returnType, t.Written) ∧ body.Written ∧
      blockWritten ensureBody

/-- A block that can be written down. -/
@[simp] def Block.Written : Block → Prop
  | ⟨_, stmts⟩ => stmtsWritten stmts

/-- An optional block that can be written down. -/
@[simp] def blockWritten : Option Block → Prop
  | none => True
  | some b => b.Written

/-- An initialize statement that can be written down: one keyword declares all its names, and
without values each has a type. -/
@[simp] def Init.Written : Init → Prop
  | ⟨_, decls, values⟩ =>
    decls ≠ [] ∧ (∃ isVar, ∀ d ∈ decls, d.isVar = isVar) ∧ (∀ d ∈ decls, d.Written) ∧
      (values = [] → ∀ d ∈ decls, d.type.isSome) ∧ exprsWritten values

/-- A statement that can be written down. -/
@[simp] def Stmt.Written : Stmt → Prop
  | .init init => init.Written
  | .assign _ targets op values =>
    targets ≠ [] ∧ values ≠ [] ∧
      (∀ o ∈ op, o.isArithmetic = true ∧ targets.length = 1 ∧ values.length = 1) ∧
      targetsWritten targets ∧ exprsWritten values
  | .ifElse _ _ condition thenBlock elseifs elseBlock =>
    condition.Written ∧ thenBlock.Written ∧ armsWritten elseifs ∧ blockWritten elseBlock
  | .ret _ values => exprsWritten values
  | .case _ whens elseBlock => armsWritten whens ∧ blockWritten elseBlock
  | .switch _ target whens elseBlock =>
    target.Written ∧ valueArmsWritten whens ∧ blockWritten elseBlock
  | .forIn _ vars range body =>
    vars ≠ [] ∧ (∀ p ∈ vars, p.Written) ∧ range.Written ∧ body.Written
  | .whileDo _ condition body => condition.Written ∧ body.Written
  | .guarded _ body _ condition => body.isSimple = true ∧ body.Written ∧ condition.Written
  | .letIn _ inits child => inits ≠ [] ∧ initsWritten inits ∧ child.Written
  | .expr value => value.Written

/-- Statements that can be written down. -/
@[simp] def stmtsWritten : List Stmt → Prop
  | [] => True
  | s :: rest => s.Written ∧ stmtsWritten rest

/-- Initialize statements that can be written down. -/
@[simp] def initsWritten : List Init → Prop
  | [] => True
  | init :: rest => init.Written ∧ initsWritten rest

/-- Conditions and the blocks they guard can be written down. -/
@[simp] def armsWritten : List (Expr × Block) → Prop
  | [] => True
  | (condition, block) :: rest => condition.Written ∧ block.Written ∧ armsWritten rest

/-- Values, at least one, and the blocks that are run for them can be written down. -/
@[simp] def valueArmsWritten : List (List Expr × Block) → Prop
  | [] => True
  | (values, block) :: rest =>
    (values ≠ [] ∧ exprsWritten values) ∧ block.Written ∧ valueArmsWritten rest

end

/-- What a keyword fixes of the definition of a function. -/
structure FuncDef.IsNamed (d : FuncDef) : Prop where
  kind : d.kind ≠ .lambda
  returnType : d.kind = .proc → d.returnType = none

/-- A definition that can be written down. -/
def Definition.Written : Definition → Prop
  | .function d => d.IsNamed ∧ d.Written
  | .constant d =>
    d.decls ≠ [] ∧ d.values ≠ [] ∧ (∀ c ∈ d.decls, c.Written) ∧ exprsWritten d.values

/-- A program that can be written down. -/
def Program.Written (p : Program) : Prop := ∀ d ∈ p.definitions, d.Written

/-! ### Lists of parts -/

theorem typesWritten_iff (ts : List TypeExpr) : typesWritten ts ↔ ∀ t ∈ ts, t.Written := by
  induction ts with
  | nil => simp [typesWritten]
  | cons t rest ih => simp [typesWritten, ih]

theorem exprsWritten_iff (es : List Expr) : exprsWritten es ↔ ∀ e ∈ es, e.Written := by
  induction es with
  | nil => simp [exprsWritten]
  | cons e rest ih => simp [exprsWritten, ih]

theorem targetsWritten_iff (es : List Expr) :
    targetsWritten es ↔ ∀ e ∈ es, e.asTarget = e ∧ (e.isName = true ∨ e.Written) := by
  induction es with
  | nil => simp [targetsWritten]
  | cons e rest ih => simp [targetsWritten, ih]

theorem entriesWritten_iff (es : List (Expr × Expr)) :
    entriesWritten es ↔ ∀ e ∈ es, e.1.Written ∧ e.2.Written := by
  induction es with
  | nil => simp [entriesWritten]
  | cons e rest ih => simp [entriesWritten, ih, and_assoc]

theorem stmtsWritten_iff (ss : List Stmt) : stmtsWritten ss ↔ ∀ st ∈ ss, st.Written := by
  induction ss with
  | nil => simp [stmtsWritten]
  | cons st rest ih => simp [stmtsWritten, ih]

theorem initsWritten_iff (is : List Init) : initsWritten is ↔ ∀ i ∈ is, i.Written := by
  induction is with
  | nil => simp [initsWritten]
  | cons i rest ih => simp [initsWritten, ih]

theorem armsWritten_iff (whens : List (Expr × Block)) :
    armsWritten whens ↔ ∀ a ∈ whens, a.1.Written ∧ a.2.Written := by
  induction whens with
  | nil => simp [armsWritten]
  | cons a rest ih => simp [armsWritten, ih, and_assoc]

theorem valueArmsWritten_iff (whens : List (List Expr × Block)) :
    valueArmsWritten whens ↔ ∀ a ∈ whens, (a.1 ≠ [] ∧ exprsWritten a.1) ∧ a.2.Written := by
  induction whens with
  | nil => simp [valueArmsWritten]
  | cons a rest ih => simp [valueArmsWritten, ih, and_assoc]

theorem blockWritten_iff (b : Option Block) : blockWritten b ↔ ∀ b' ∈ b, b'.Written := by
  cases b <;> simp [blockWritten]

/-! ### Targets -/

theorem Expr.asTarget_unmarked {e : Expr} (h : e.asTarget = e) : e.unmarked.asTarget = e := by
  cases e <;> exact h

/-- What stands where a target is read can be written down without the mark. -/
theorem Expr.unmarked_written {e : Expr} (h : e.isName = true ∨ e.Written) :
    e.unmarked.Written := by
  cases e <;> simp_all [isName, unmarked, Expr.Written]

/-- Marking what was read makes it a target. -/
theorem Expr.Written.target {e : Expr} (h : e.Written) :
    e.asTarget.asTarget = e.asTarget ∧ (e.asTarget.isName = true ∨ e.asTarget.Written) := by
  refine ⟨e.asTarget_asTarget, ?_⟩
  cases e <;> first | exact .inl rfl | exact .inr h

/-! ### Shape -/

mutual

theorem Expr.Written.wellShaped : ∀ {e : Expr}, e.Written → e.WellShaped
  | .literal .., _ => by rw [Expr.WellShaped]; trivial
  | .varRef .., _ => by rw [Expr.WellShaped]; trivial
  | .array .., h => by
    rw [Expr.Written] at h
    rw [Expr.WellShaped]
    exact exprs_wellShaped h
  | .tuple .., h => by
    rw [Expr.Written] at h
    rw [Expr.WellShaped]
    exact exprs_wellShaped h.2
  | .dict .., h => by
    rw [Expr.Written] at h
    rw [Expr.WellShaped]
    exact entries_wellShaped h
  | .member .., h => by
    rw [Expr.Written] at h
    rw [Expr.WellShaped]
    exact h.wellShaped
  | .index .., h => by
    rw [Expr.Written] at h
    rw [Expr.WellShaped]
    exact ⟨h.1.wellShaped, h.2.wellShaped⟩
  | .call .., h => by
    rw [Expr.Written] at h
    rw [Expr.WellShaped]
    exact ⟨h.1.wellShaped, exprs_wellShaped h.2⟩
  | .unary .., h => by
    rw [Expr.Written] at h
    rw [Expr.WellShaped]
    exact h.wellShaped
  | .binary .., h => by
    rw [Expr.Written] at h
    rw [Expr.WellShaped]
    exact ⟨h.1.wellShaped, h.2.wellShaped⟩
  | .cast .., h => by
    rw [Expr.Written] at h
    rw [Expr.WellShaped]
    exact h.1.wellShaped
  | .typed .., h => by
    rw [Expr.Written] at h
    rw [Expr.WellShaped]
    exact h.1.wellShaped
  | .ifElse .., h => by
    rw [Expr.Written] at h
    rw [Expr.WellShaped]
    exact ⟨h.1.wellShaped, h.2.1.wellShaped, h.2.2.wellShaped⟩
  | .range .., h => by
    rw [Expr.Written] at h
    rw [Expr.WellShaped]
    exact ⟨h.1.wellShaped, h.2.wellShaped⟩
  | .lambda .., h => by
    rw [Expr.Written] at h
    rw [Expr.WellShaped]
    exact ⟨h.1.kind, h.2.wellShaped⟩

theorem exprs_wellShaped : ∀ {es : List Expr}, exprsWritten es → exprsWellShaped es
  | [], _ => by rw [exprsWellShaped]; trivial
  | e :: rest, h => by
    rw [exprsWritten] at h
    rw [exprsWellShaped]
    exact ⟨h.1.wellShaped, exprs_wellShaped h.2⟩

theorem targets_wellShaped : ∀ {es : List Expr}, targetsWritten es →
    (∀ e ∈ es, e.asTarget = e) ∧ exprsWellShaped es
  | [], _ => by rw [exprsWellShaped]; exact ⟨nofun, trivial⟩
  | e :: rest, h => by
    rw [targetsWritten] at h
    rw [exprsWellShaped]
    have hrest := targets_wellShaped h.2
    refine ⟨List.forall_mem_cons.mpr ⟨h.1.1, hrest.1⟩, ?_, hrest.2⟩
    rcases h.1.2 with hname | hwritten
    · cases e with
      | varRef =>
        rw [Expr.WellShaped]
        trivial
      | _ => cases hname
    · exact hwritten.wellShaped

theorem entries_wellShaped : ∀ {es : List (Expr × Expr)}, entriesWritten es → entriesWellShaped es
  | [], _ => by rw [entriesWellShaped]; trivial
  | (key, value) :: rest, h => by
    rw [entriesWritten] at h
    rw [entriesWellShaped]
    exact ⟨h.1.wellShaped, h.2.1.wellShaped, entries_wellShaped h.2.2⟩

theorem FuncDef.Written.wellShaped : ∀ {d : FuncDef}, d.Written → d.WellShaped
  | ⟨_, _, _, _, _, body, ensureBody⟩, h => by
    rw [FuncDef.Written] at h
    rw [FuncDef.WellShaped]
    exact ⟨h.2.2.1.wellShaped, block_wellShaped h.2.2.2⟩

theorem Block.Written.wellShaped : ∀ {b : Block}, b.Written → b.WellShaped
  | ⟨_, stmts⟩, h => by
    rw [Block.Written] at h
    rw [Block.WellShaped]
    exact stmts_wellShaped h

theorem block_wellShaped : ∀ {b : Option Block}, blockWritten b → optionalWellShaped b
  | none, _ => by rw [optionalWellShaped]; trivial
  | some b, h => by
    rw [blockWritten] at h
    rw [optionalWellShaped]
    exact h.wellShaped

theorem Init.Written.wellShaped : ∀ {i : Init}, i.Written → i.WellShaped
  | ⟨_, _, values⟩, h => by
    rw [Init.Written] at h
    rw [Init.WellShaped]
    exact h.2.2.2.imp id exprs_wellShaped

theorem Stmt.Written.wellShaped : ∀ {st : Stmt}, st.Written → st.WellShaped
  | .init .., h => by
    rw [Stmt.Written] at h
    rw [Stmt.WellShaped]
    exact h.wellShaped
  | .assign .., h => by
    rw [Stmt.Written] at h
    rw [Stmt.WellShaped]
    obtain ⟨-, -, hop, htargets, hvalues⟩ := h
    refine ⟨fun hsome => ?_, (targets_wellShaped htargets).1, (targets_wellShaped htargets).2,
      exprs_wellShaped hvalues⟩
    obtain ⟨o, ho⟩ := Option.isSome_iff_exists.mp hsome
    exact (hop o ho).2
  | .ifElse .., h => by
    rw [Stmt.Written] at h
    rw [Stmt.WellShaped]
    exact ⟨h.1.wellShaped, h.2.1.wellShaped, arms_wellShaped h.2.2.1, block_wellShaped h.2.2.2⟩
  | .ret .., h => by
    rw [Stmt.Written] at h
    rw [Stmt.WellShaped]
    exact exprs_wellShaped h
  | .case .., h => by
    rw [Stmt.Written] at h
    rw [Stmt.WellShaped]
    exact ⟨arms_wellShaped h.1, block_wellShaped h.2⟩
  | .switch .., h => by
    rw [Stmt.Written] at h
    rw [Stmt.WellShaped]
    exact ⟨h.1.wellShaped, valueArms_wellShaped h.2.1, block_wellShaped h.2.2⟩
  | .forIn .., h => by
    rw [Stmt.Written] at h
    rw [Stmt.WellShaped]
    exact ⟨h.2.2.1.wellShaped, h.2.2.2.wellShaped⟩
  | .whileDo .., h => by
    rw [Stmt.Written] at h
    rw [Stmt.WellShaped]
    exact ⟨h.1.wellShaped, h.2.wellShaped⟩
  | .guarded .., h => by
    rw [Stmt.Written] at h
    rw [Stmt.WellShaped]
    exact ⟨h.2.1.wellShaped, h.2.2.wellShaped⟩
  | .letIn .., h => by
    rw [Stmt.Written] at h
    rw [Stmt.WellShaped]
    exact ⟨inits_wellShaped h.2.1, h.2.2.wellShaped⟩
  | .expr .., h => by
    rw [Stmt.Written] at h
    rw [Stmt.WellShaped]
    exact h.wellShaped

theorem stmts_wellShaped : ∀ {ss : List Stmt}, stmtsWritten ss → stmtsWellShaped ss
  | [], _ => by rw [stmtsWellShaped]; trivial
  | st :: rest, h => by
    rw [stmtsWritten] at h
    rw [stmtsWellShaped]
    exact ⟨h.1.wellShaped, stmts_wellShaped h.2⟩

theorem inits_wellShaped : ∀ {is : List Init}, initsWritten is → initsWellShaped is
  | [], _ => by rw [initsWellShaped]; trivial
  | i :: rest, h => by
    rw [initsWritten] at h
    rw [initsWellShaped]
    exact ⟨h.1.wellShaped, inits_wellShaped h.2⟩

theorem arms_wellShaped : ∀ {whens : List (Expr × Block)}, armsWritten whens → armsWellShaped whens
  | [], _ => by rw [armsWellShaped]; trivial
  | (condition, block) :: rest, h => by
    rw [armsWritten] at h
    rw [armsWellShaped]
    exact ⟨h.1.wellShaped, h.2.1.wellShaped, arms_wellShaped h.2.2⟩

theorem valueArms_wellShaped :
    ∀ {whens : List (List Expr × Block)}, valueArmsWritten whens → valueArmsWellShaped whens
  | [], _ => by rw [valueArmsWellShaped]; trivial
  | (values, block) :: rest, h => by
    rw [valueArmsWritten] at h
    rw [valueArmsWellShaped]
    exact ⟨exprs_wellShaped h.1.2, h.2.1.wellShaped, valueArms_wellShaped h.2.2⟩

end

theorem Definition.Written.wellShaped {d : Definition} (h : d.Written) : d.WellShaped := by
  cases d with
  | function d => exact h.2.wellShaped
  | constant d => exact exprs_wellShaped h.2.2.2

theorem Program.Written.wellShaped {p : Program} (h : p.Written) : p.WellShaped :=
  fun d hd => (h d hd).wellShaped

end Frontend
