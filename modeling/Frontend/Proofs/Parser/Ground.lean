import Frontend.Parser.Expr
import Frontend.Proofs.Ensures
import Frontend.Proofs.Tree.Regular

/-!
# What is read stands on its tokens

A node begins where some token begins, and so does the report of whatever does not fit. `Keeps` says
so of a parser and is closed under the ways to build one; along the grammar it shows that types and
expressions that are read are regular.
-/

namespace Frontend

/-- All tokens of a stream begin at places. -/
structure TokenStream.Stands (place : Position → Prop) (s : TokenStream) : Prop where
  rest : ∀ t ∈ s.rest, place t.span.start
  final : place s.final.span.start

/-- Nodes begin at places, have any id and play any role. -/
abbrev Ground.at (place : Position → Prop) : Ground := ⟨⟨place, fun _ => True⟩, fun _ _ => True⟩

variable {place : Position → Prop}

theorem TokenStream.Stands.current {s : TokenStream} (h : s.Stands place) :
    place s.current.span.start := by
  unfold TokenStream.current
  cases hrest : s.rest with
  | nil => exact h.final
  | cons t rest => exact h.rest t (hrest ▸ List.mem_cons_self)

namespace Parse

/-- Where tokens begin at places, a parser reads what is as promised, or it reports an error at a
place. -/
def Keeps {α : Type} (place : Position → Prop) (act : Parse α) (good : α → Prop) : Prop :=
  ∀ s, s.Stands place →
    Ensures (fun e _ => ∀ error, e = .error error → place error.position) act s
      fun a t => t.Stands place ∧ good a

variable {α β : Type} {act : Parse α} {good good' : α → Prop}

namespace Keeps

theorem pure {a : α} (h : good a) : Keeps place (pure a) good := fun _ hs => .pure ⟨hs, h⟩

theorem imp (h : Keeps place act good) (hg : ∀ a, good a → good' a) : Keeps place act good' :=
  fun s hs => (h s hs).imp fun a _ _ ha => ⟨ha.1, hg a ha.2⟩

theorem bind {f : α → Parse β} {good' : β → Prop} (h : Keeps place act good)
    (hf : ∀ a, good a → Keeps place (f a) good') : Keeps place (act >>= f) good' :=
  fun s hs => .bind ((h s hs).imp fun a t _ ha => hf a ha.2 t ha.1)

/-- A look at the stream comes first. -/
theorem get {f : TokenStream → Parse β} {good : β → Prop}
    (h : ∀ s, s.Stands place → Keeps place (f s) good) :
    Keeps place (MonadState.get >>= f) good := fun s hs => .bind (.get (h s hs s hs))

theorem throw {e : Failure} (h : ∀ error, e = .error error → place error.position) :
    Keeps place (throw e : Parse α) good := fun _ _ => .throw h

end Keeps

/-! ### Tokens -/

theorem outOfFuel_keeps : Keeps place (outOfFuel : Parse α) good := .throw nofun

theorem kind_keeps : Keeps place kind fun _ => True := .get fun _ _ => .pure trivial

theorem position_keeps : Keeps place position place := .get fun _ hs => .pure hs.current

theorem advance_keeps : Keeps place advance fun token => place token.span.start := fun _ hs =>
  .bind (.get (.bind (.set (.pure
    ⟨⟨fun t ht => hs.rest t (List.mem_of_mem_tail ht), hs.final⟩, hs.current⟩))))

theorem unexpected_keeps : Keeps place (unexpected : Parse α) good := .get fun _ hs =>
  .throw fun _ he => by cases he; exact hs.current

theorem fail_keeps (message : String) : Keeps place (fail message : Parse α) good :=
  .get fun _ hs => .throw fun _ he => by cases he; exact hs.current

theorem expectOr_keeps (expected : TokenKind) (message : String) :
    Keeps place (expectOr expected message) fun token => place token.span.start :=
  .bind kind_keeps fun _ _ => by
    split
    · exact advance_keeps
    · exact fail_keeps message

theorem expect_keeps (expected : TokenKind) :
    Keeps place (expect expected) fun token => place token.span.start := expectOr_keeps _ _

theorem name_keeps (message : String) : Keeps place (name message) fun _ => True :=
  .bind (expectOr_keeps _ _) fun _ _ => .pure trivial

theorem eat_keeps (wanted : TokenKind) : Keeps place (eat wanted) fun _ => True :=
  .bind kind_keeps fun _ _ => by
    split
    · exact .bind advance_keeps fun _ _ => .pure trivial
    · exact .pure trivial

theorem mint_keeps : Keeps place mint fun _ => True :=
  fun _ hs => .modifyGet ⟨⟨hs.rest, hs.final⟩, trivial⟩

/-- A node begins where its parser has seen a token. -/
theorem infoFrom_keeps {start : Position} (h : place start) :
    Keeps place (infoFrom start) fun info => info.On (.at place) :=
  .get fun _ _ => .bind mint_keeps fun _ _ => .pure ⟨h, trivial⟩

/-! ### Combinations -/

theorem bounded_keeps {p : Nat → Parse α} (h : ∀ n, Keeps place (p n) good) :
    Keeps place (bounded p) good := .get fun s _ => h s.bound

theorem commaList_keeps (h : Keeps place act good) (n : Nat) :
    Keeps place (commaList act n) fun as => ∀ a ∈ as, good a := by
  induction n with
  | zero => exact outOfFuel_keeps
  | succ n ih =>
    rw [commaList]
    refine .bind h fun first hfirst => ?_
    refine .bind (eat_keeps _) fun more _ => ?_
    split
    · exact .bind ih fun rest hrest => .pure (List.forall_mem_cons.mpr ⟨hfirst, hrest⟩)
    · exact .pure (List.forall_mem_singleton.mpr hfirst)

theorem listUntil_keeps (stops : TokenKind → Bool) (h : Keeps place act good) (n : Nat) :
    Keeps place (listUntil stops act n) fun as => ∀ a ∈ as, good a := by
  induction n with
  | zero => exact outOfFuel_keeps
  | succ n ih =>
    rw [listUntil]
    refine .bind kind_keeps fun kind _ => ?_
    split
    · exact .pure (List.forall_mem_nil _)
    · refine .bind h fun first hfirst => ?_
      refine .bind (eat_keeps _) fun more _ => ?_
      split
      · exact .bind ih fun rest hrest => .pure (List.forall_mem_cons.mpr ⟨hfirst, hrest⟩)
      · exact .pure (List.forall_mem_singleton.mpr hfirst)

theorem introduced_keeps (keyword : TokenKind) (h : Keeps place act good) (n : Nat) :
    Keeps place (introduced keyword act n) fun as => ∀ a ∈ as, good a := by
  induction n with
  | zero => exact outOfFuel_keeps
  | succ n ih =>
    rw [introduced]
    refine .bind (eat_keeps _) fun more _ => ?_
    split
    · refine .bind h fun first hfirst => ?_
      refine .bind ih fun rest hrest => ?_
      exact .pure (List.forall_mem_cons.mpr ⟨hfirst, hrest⟩)
    · exact .pure (List.forall_mem_nil _)

theorem optional_keeps (keyword : TokenKind) (h : Keeps place act good) :
    Keeps place (optional keyword act) fun o => ∀ a ∈ o, good a := by
  refine .bind (eat_keeps _) fun more _ => ?_
  split
  · refine .bind h fun a ha => .pure ?_
    rintro _ ⟨⟩
    exact ha
  · exact .pure nofun

/-! ### Type annotations -/

section

variable {nested : Power → Parse TypeExpr}
  (h : ∀ power, Keeps place (nested power) (TypeExpr.Regular (.at place)))
include h

theorem typeList_keeps (close : TokenKind) :
    Keeps place (typeList nested close) (typesRegular (.at place)) :=
  (bounded_keeps fun n => listUntil_keeps _ (h .default) n).imp fun _ hts =>
    (typesRegular_iff _).mpr hts

theorem primaryType_keeps : Keeps place (primaryType nested) (TypeExpr.Regular (.at place)) := by
  refine .bind (expect_keeps _) fun token htoken => ?_
  refine .bind (eat_keeps _) fun more _ => ?_
  have hrest : ∀ args, typesRegular (.at place) args → Keeps place (do
      return TypeExpr.primary (← infoFrom token.span.start) token.value args)
        (TypeExpr.Regular (.at place)) := by
    refine fun args hargs => .bind (infoFrom_keeps htoken) fun info hinfo => .pure ?_
    simp only [TypeExpr.Regular]
    exact ⟨hinfo, hargs⟩
  dsimp only
  split
  · exact .bind (typeList_keeps h _) fun args hargs => .bind (expect_keeps _) fun _ _ =>
      .bind (.pure hargs) hrest
  · exact .bind (.pure (by simp only [typesRegular])) hrest

theorem arrayType_keeps : Keeps place (arrayType nested) (TypeExpr.Regular (.at place)) := by
  refine .bind advance_keeps fun token htoken => ?_
  refine .bind (h _) fun elem helem => ?_
  refine .bind (expect_keeps _) fun _ _ => ?_
  refine .bind (infoFrom_keeps htoken) fun info hinfo => ?_
  refine .pure ?_
  simp only [TypeExpr.Regular]
  exact ⟨hinfo, helem⟩

theorem dictType_keeps : Keeps place (dictType nested) (TypeExpr.Regular (.at place)) := by
  refine .bind advance_keeps fun token htoken => ?_
  refine .bind (h _) fun key hkey => ?_
  refine .bind (expect_keeps _) fun _ _ => ?_
  refine .bind (h _) fun value hvalue => ?_
  refine .bind (expect_keeps _) fun _ _ => ?_
  refine .bind (infoFrom_keeps htoken) fun info hinfo => ?_
  refine .pure ?_
  simp only [TypeExpr.Regular]
  exact ⟨hinfo, hkey, hvalue⟩

/-- One type in parentheses is just that type. -/
theorem tupleType_keeps : Keeps place (tupleType nested) (TypeExpr.Regular (.at place)) := by
  refine .bind advance_keeps fun token htoken => ?_
  refine .bind (typeList_keeps h _) fun elems helems => ?_
  refine .bind (expect_keeps _) fun _ _ => ?_
  split
  · simp only [typesRegular, and_true] at helems
    exact .pure helems
  · next hmany =>
    refine .bind (infoFrom_keeps htoken) fun info hinfo => .pure ?_
    simp only [TypeExpr.Regular, ne_eq, List.length_eq_one_iff, not_exists]
    exact ⟨hinfo, hmany, helems⟩

theorem funcType_keeps : Keeps place (funcType nested) (TypeExpr.Regular (.at place)) := by
  refine .bind advance_keeps fun keyword hkeyword => ?_
  refine .bind (expect_keeps _) fun _ _ => ?_
  refine .bind (typeList_keeps h _) fun params hparams => ?_
  refine .bind (expect_keeps _) fun _ _ => ?_
  have hrest : ∀ kind ret, (∀ t ∈ ret, t.Regular (.at place)) → Keeps place (do
      return TypeExpr.func (← infoFrom keyword.span.start) kind params ret)
        (TypeExpr.Regular (.at place)) := by
    refine fun kind ret hret => .bind (infoFrom_keeps hkeyword) fun info hinfo => .pure ?_
    cases ret with
    | none =>
      simp only [TypeExpr.Regular]
      exact ⟨hinfo, hparams⟩
    | some ret =>
      simp only [TypeExpr.Regular]
      exact ⟨hinfo, hparams, hret ret rfl⟩
  dsimp only
  split
  · split
    · exact .bind (optional_keeps _ (h _)) (hrest _)
    · exact .bind (.pure nofun) (hrest _)
  · split
    · exact .bind (optional_keeps _ (h _)) (hrest _)
    · exact .bind (.pure nofun) (hrest _)

theorem refType_keeps : Keeps place (refType nested) (TypeExpr.Regular (.at place)) := by
  refine .bind advance_keeps fun token htoken => ?_
  refine .bind (h _) fun inner hinner => ?_
  refine .bind (infoFrom_keeps htoken) fun info hinfo => ?_
  refine .pure ?_
  simp only [TypeExpr.Regular]
  exact ⟨hinfo, hinner⟩

theorem typeOperand_keeps : Keeps place (typeOperand nested) (TypeExpr.Regular (.at place)) := by
  refine .bind kind_keeps fun kind _ => ?_
  split
  · exact primaryType_keeps h
  · exact arrayType_keeps h
  · exact dictType_keeps h
  · exact tupleType_keeps h
  · exact funcType_keeps h
  · exact funcType_keeps h
  · exact refType_keeps h
  · exact fail_keeps _

end

theorem typeSuffixes_keeps (power : Power) {left : TypeExpr} (h : left.Regular (.at place))
    (n : Nat) : Keeps place (typeSuffixes power left n) (TypeExpr.Regular (.at place)) := by
  induction n generalizing left with
  | zero => exact outOfFuel_keeps
  | succ n ih =>
    rw [typeSuffixes]
    split
    · exact .pure h
    · refine .bind (eat_keeps _) fun more _ => ?_
      split
      · refine .bind (infoFrom_keeps h.on.place) fun info hinfo => ih ?_
        simp only [TypeExpr.Regular]
        exact ⟨hinfo, h⟩
      · exact .pure h

theorem typeExprAt_keeps (n : Nat) (power : Power) :
    Keeps place (typeExprAt n power) (TypeExpr.Regular (.at place)) := by
  induction n generalizing power with
  | zero => exact outOfFuel_keeps
  | succ n ih =>
    exact .bind (typeOperand_keeps ih) fun left hleft =>
      bounded_keeps fun n => typeSuffixes_keeps power hleft n

theorem typeExpr_keeps (power : Power) :
    Keeps place (typeExpr power) (TypeExpr.Regular (.at place)) :=
  bounded_keeps fun n => typeExprAt_keeps n power

theorem optionalType_keeps :
    Keeps place optionalType fun o => ∀ t ∈ o, t.Regular (.at place) :=
  optional_keeps _ (typeExpr_keeps _)

/-! ### Expressions -/

theorem numeral_keeps (read : String → Option α) : Keeps place (numeral read) fun _ => True :=
  .get fun s hs => by
    split
    · exact .pure trivial
    · exact .throw fun _ he => by cases he; exact hs.current

theorem primary_keeps {build : NodeInfo → Expr}
    (h : ∀ info, info.On (.at place) → (build info).Regular (.at place)) :
    Keeps place (primary build) (Expr.Regular (.at place)) := by
  refine .bind advance_keeps fun _ htoken => ?_
  refine .bind mint_keeps fun _ _ => ?_
  exact .pure (h _ ⟨htoken, trivial⟩)

theorem literal_keeps (value : Literal) :
    Keeps place (literal value) (Expr.Regular (.at place)) :=
  primary_keeps fun _ hinfo => by simpa only [Expr.Regular] using hinfo

theorem symbolLiteral_keeps : Keeps place symbolLiteral (Expr.Regular (.at place)) := by
  refine .bind advance_keeps fun token htoken => ?_
  refine .bind (name_keeps _) fun name _ => ?_
  refine .bind (infoFrom_keeps htoken) fun info hinfo => ?_
  refine .pure ?_
  simpa only [Expr.Regular] using hinfo

theorem param_keeps : Keeps place param (Param.Regular (.at place)) := by
  refine .bind position_keeps fun _ hstart => ?_
  refine .bind (eat_keeps _) fun _ _ => ?_
  refine .bind (name_keeps _) fun _ _ => ?_
  refine .bind optionalType_keeps fun _ htype => ?_
  refine .bind (infoFrom_keeps hstart) fun _ hinfo => ?_
  exact .pure ⟨hinfo, htype⟩

/-- Readers of what may be nested keep to the places of the tokens. -/
structure Nested.Keeps (place : Position → Prop) (g : Nested) : Prop where
  expr : ∀ power, Parse.Keeps place (g.expr power) (Expr.Regular (.at place))
  block : Parse.Keeps place g.block (Block.Regular (.at place))
  stmt : Parse.Keeps place g.stmt (Stmt.Regular (.at place))

section

variable {g : Nested} (h : g.Keeps place)
include h

theorem exprList_keeps : Keeps place (exprList g) (exprsRegular (.at place)) :=
  (bounded_keeps fun n => commaList_keeps (h.expr _) n).imp fun _ hes =>
    (exprsRegular_iff _).mpr hes

theorem exprListBefore_keeps (close : TokenKind) :
    Keeps place (exprListBefore g close) (exprsRegular (.at place)) := by
  refine .bind kind_keeps fun kind _ => ?_
  split
  · exact .pure (by simp only [exprsRegular])
  · exact exprList_keeps h

theorem unaryExpr_keeps (op : UnaryOp) :
    Keeps place (unaryExpr g op) (Expr.Regular (.at place)) := by
  refine .bind advance_keeps fun token htoken => ?_
  refine .bind (h.expr _) fun operand hoperand => ?_
  refine .bind (infoFrom_keeps htoken) fun info hinfo => ?_
  refine .pure ?_
  simp only [Expr.Regular]
  exact ⟨hinfo, hoperand⟩

/-- One expression in parentheses is just that expression. -/
theorem grouping_keeps : Keeps place (grouping g) (Expr.Regular (.at place)) := by
  refine .bind advance_keeps fun token htoken => ?_
  refine .bind (eat_keeps _) fun closed _ => ?_
  split
  · refine .bind (infoFrom_keeps htoken) fun info hinfo => .pure ?_
    simp only [Expr.Regular, exprsRegular, and_true]
    exact ⟨hinfo, nofun⟩
  · refine .bind (exprList_keeps h) fun elems helems => ?_
    refine .bind (expect_keeps _) fun _ _ => ?_
    split
    · simp only [exprsRegular, and_true] at helems
      exact .pure helems
    · next hmany =>
      refine .bind (infoFrom_keeps htoken) fun info hinfo => .pure ?_
      simp only [Expr.Regular, ne_eq, List.length_eq_one_iff, not_exists]
      exact ⟨hinfo, hmany, helems⟩

theorem arrayLiteral_keeps : Keeps place (arrayLiteral g) (Expr.Regular (.at place)) := by
  refine .bind advance_keeps fun token htoken => ?_
  refine .bind (exprListBefore_keeps h _) fun elems helems => ?_
  refine .bind (expect_keeps _) fun _ _ => ?_
  refine .bind (infoFrom_keeps htoken) fun info hinfo => ?_
  refine .pure ?_
  simp only [Expr.Regular]
  exact ⟨hinfo, helems⟩

theorem dictEntry_keeps : Keeps place (dictEntry g)
    fun e => e.1.Regular (.at place) ∧ e.2.Regular (.at place) := by
  refine .bind (h.expr _) fun _ hkey => ?_
  refine .bind (expect_keeps _) fun _ _ => ?_
  refine .bind (h.expr _) fun _ hvalue => ?_
  exact .pure ⟨hkey, hvalue⟩

theorem dictLiteral_keeps : Keeps place (dictLiteral g) (Expr.Regular (.at place)) := by
  refine .bind advance_keeps fun token htoken => ?_
  refine .bind (bounded_keeps fun n => listUntil_keeps _ (dictEntry_keeps h) n)
    fun entries hentries => ?_
  refine .bind (expect_keeps _) fun _ _ => ?_
  refine .bind (infoFrom_keeps htoken) fun info hinfo => ?_
  refine .pure ?_
  simp only [Expr.Regular]
  exact ⟨hinfo, (entriesRegular_iff _).mpr hentries⟩

theorem lambdaBody_keeps : Keeps place (lambdaBody g) (Block.Regular (.at place)) := by
  refine .bind (eat_keeps _) fun short _ => ?_
  split
  · refine .bind position_keeps fun start hstart => ?_
    refine .bind (h.expr _) fun value hvalue => ?_
    refine .bind (infoFrom_keeps hstart) fun info hinfo => ?_
    refine .bind (infoFrom_keeps hstart) fun info' hinfo' => ?_
    refine .pure ?_
    simp only [Block.Regular, stmtsRegular, Stmt.Regular, exprsRegular, and_true]
    exact ⟨hinfo', ⟨hinfo, trivial⟩, hvalue⟩
  · exact h.block

theorem lambda_keeps : Keeps place (lambda g) (Expr.Regular (.at place)) := by
  refine .bind advance_keeps fun token htoken => ?_
  refine .bind (eat_keeps _) fun parenthesized _ => ?_
  refine .bind (bounded_keeps fun n => listUntil_keeps _ param_keeps n) fun params hparams => ?_
  have hrest : Keeps place (do
      let body ← lambdaBody g
      let info ← infoFrom token.span.start
      let definition : FuncDef :=
        ⟨info, .lambda, "lambda." ++ info.id.repr, params, none, body, none⟩
      return .lambda (← infoFrom token.span.start) definition) (Expr.Regular (.at place)) := by
    refine .bind (lambdaBody_keeps h) fun body hbody => ?_
    refine .bind (infoFrom_keeps htoken) fun info hinfo => ?_
    refine .bind (infoFrom_keeps htoken) fun info' hinfo' => ?_
    refine .pure ?_
    simp only [Expr.Regular, FuncDef.Regular, blockRegular, and_true]
    exact ⟨hinfo', hinfo, hparams, nofun, hbody⟩
  dsimp only
  split
  · exact .bind (expect_keeps _) fun _ _ => hrest
  · exact hrest

theorem ifExpr_keeps (kind : IfKind) :
    Keeps place (ifExpr g kind) (Expr.Regular (.at place)) := by
  refine .bind advance_keeps fun keyword hkeyword => ?_
  refine .bind (h.expr _) fun condition hcondition => ?_
  refine .bind (expect_keeps _) fun _ _ => ?_
  refine .bind (h.expr _) fun thenValue hthen => ?_
  refine .bind (expect_keeps _) fun _ _ => ?_
  refine .bind (h.expr _) fun elseValue helse => ?_
  refine .bind (infoFrom_keeps hkeyword) fun info hinfo => ?_
  refine .pure ?_
  simp only [Expr.Regular]
  exact ⟨hinfo, hcondition, hthen, helse⟩

theorem operand_keeps : Keeps place (operand g) (Expr.Regular (.at place)) := by
  refine .get fun s hs => ?_
  dsimp only
  split
  · exact .bind (numeral_keeps _) fun value _ => literal_keeps _
  · exact .bind (numeral_keeps _) fun value _ => literal_keeps _
  · exact .bind (numeral_keeps _) fun value _ => literal_keeps _
  · split
    · exact literal_keeps _
    · exact fail_keeps _
  · exact literal_keeps _
  · exact literal_keeps _
  · exact literal_keeps _
  · exact primary_keeps fun _ hinfo => by simpa only [Expr.Regular] using hinfo
  · exact unaryExpr_keeps h _
  · exact unaryExpr_keeps h _
  · exact unaryExpr_keeps h _
  · exact grouping_keeps h
  · exact arrayLiteral_keeps h
  · exact dictLiteral_keeps h
  · exact ifExpr_keeps h _
  · exact ifExpr_keeps h _
  · exact symbolLiteral_keeps
  · exact lambda_keeps h
  · exact unexpected_keeps

/-- An operator and what follows it begin where its left side begins. -/
theorem applyOperator_keeps (op : Operator) {left : Expr} (hleft : left.Regular (.at place)) :
    Keeps place (applyOperator g op left) (Expr.Regular (.at place)) := by
  have hinfo : Keeps place (infoFrom left.position) fun info => info.On (.at place) :=
    infoFrom_keeps hleft.position
  refine .bind advance_keeps fun _ _ => ?_
  cases op with
  | binary op =>
    refine .bind (h.expr _) fun right hright => ?_
    refine .bind hinfo fun info hinfo => ?_
    refine .pure ?_
    simp only [Expr.Regular]
    exact ⟨hinfo, hleft, hright⟩
  | range inclusive =>
    refine .bind (h.expr _) fun last hlast => ?_
    refine .bind hinfo fun info hinfo => ?_
    refine .pure ?_
    simp only [Expr.Regular]
    exact ⟨hinfo, hleft, hlast⟩
  | typed =>
    refine .bind (typeExpr_keeps _) fun type htype => ?_
    refine .bind hinfo fun info hinfo => ?_
    refine .pure ?_
    simp only [Expr.Regular]
    exact ⟨hinfo, hleft, htype⟩
  | cast =>
    refine .bind (typeExpr_keeps _) fun type htype => ?_
    refine .bind hinfo fun info hinfo => ?_
    refine .pure ?_
    simp only [Expr.Regular]
    exact ⟨hinfo, hleft, htype⟩
  | call =>
    refine .bind (exprListBefore_keeps h _) fun args hargs => ?_
    refine .bind (expect_keeps _) fun _ _ => ?_
    refine .bind hinfo fun info hinfo => ?_
    refine .pure ?_
    simp only [Expr.Regular, true_and]
    exact ⟨hinfo, hleft, hargs⟩
  | index =>
    refine .bind (h.expr _) fun index hindex => ?_
    refine .bind (expect_keeps _) fun _ _ => ?_
    refine .bind hinfo fun info hinfo => ?_
    refine .pure ?_
    simp only [Expr.Regular]
    exact ⟨hinfo, hleft, hindex⟩
  | member =>
    refine .bind (name_keeps _) fun name _ => ?_
    refine .bind hinfo fun info hinfo => ?_
    refine .pure ?_
    simp only [Expr.Regular]
    exact ⟨hinfo, hleft⟩

theorem operators_keeps (power : Power) {left : Expr} (hleft : left.Regular (.at place)) (n : Nat) :
    Keeps place (operators g power left n) (Expr.Regular (.at place)) := by
  induction n generalizing left with
  | zero => exact outOfFuel_keeps
  | succ n ih =>
    rw [operators]
    refine .bind kind_keeps fun kind _ => ?_
    split
    · exact .pure hleft
    · split
      · exact .pure hleft
      · exact .bind (applyOperator_keeps h _ hleft) fun _ => ih

theorem exprWith_keeps (power : Power) :
    Keeps place (exprWith g power) (Expr.Regular (.at place)) :=
  .bind (operand_keeps h) fun _ hleft => bounded_keeps fun n => operators_keeps h power hleft n

end

end Parse

end Frontend
