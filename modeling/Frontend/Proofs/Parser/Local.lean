import Frontend.Parser.Expr
import Frontend.Proofs.Ensures

/-!
# One token of look-ahead

What a parser does depends on the tokens it consumes and on the one at which it stops, not on what
stands behind that one. `Local` says so of two actions that may differ in the bounds of their
recursions, since these bounds are taken from the number of all tokens that are left: on tokens that
agree so far the second action repeats the run of the first one, unless a bound is met. Along the
grammar it is shown of expressions, with the readers of what is nested as a hypothesis.
-/

namespace Frontend

/-- The stream with other tokens from the cursor on. -/
def TokenStream.onto (s : TokenStream) (rest : List Token) (final : Token) : TokenStream :=
  { ofTokens rest s.file s.nextId with final, lastEnd := s.lastEnd }

namespace Parse

variable {α β : Type} {s t u : TokenStream}

/-- A run that met a bound of its recursion. -/
def Exhausted (act : Parse α) (s : TokenStream) : Prop := ∃ t, act s = .error (.fault .outOfFuel) t

/-- An action repeats a run from `s` to `t`, whatever stands behind the token at which that run
stopped. -/
structure Repeats (act : Parse α) (s t : TokenStream)
    (outcome : TokenStream → EStateM.Result Failure TokenStream α) : Prop where
  suffix : t.rest <:+ s.rest
  again : ∀ used behind final look, s.rest = used ++ t.rest → t.rest.head? = some look →
    act (s.onto (used ++ look :: behind) final) = outcome (t.onto (look :: behind) final) ∨
      Exhausted act (s.onto (used ++ look :: behind) final)

/-- The second action repeats what the first one does. -/
def Local (act act' : Parse α) : Prop :=
  ∀ s, Ensures (fun e t => e = .fault .outOfFuel ∨ Repeats act' s t (.error e)) act s
    fun a t => Repeats act' s t (.ok a)

/-! ### Rules -/

theorem Exhausted.bind {act : Parse α} {f : α → Parse β} (h : Exhausted act s) :
    Exhausted (act >>= f) s := by
  obtain ⟨t, hrun⟩ := h
  refine ⟨t, ?_⟩
  change EStateM.bind act f s = _
  rw [EStateM.bind, hrun]

namespace Repeats

variable {act : Parse α} {f : α → Parse β} {a : α}
  {outcome : TokenStream → EStateM.Result Failure TokenStream β}

/-- A failure is repeated by whatever goes on behind it. -/
theorem fails {e : Failure} (h : Repeats act s t (.error e)) :
    Repeats (act >>= f) s t (.error e) := by
  refine ⟨h.suffix, fun used behind final look hs hlook => ?_⟩
  refine (h.again used behind final look hs hlook).imp (fun hrun => ?_) .bind
  change EStateM.bind act f _ = _
  rw [EStateM.bind, hrun]

/-- Two runs one after the other are repeated one after the other: the first one stopped at the
token with which the second one begins. -/
theorem goesOn (h : Repeats act s t (.ok a)) (h' : Repeats (f a) t u outcome) :
    Repeats (act >>= f) s u outcome := by
  refine ⟨h'.suffix.trans h.suffix, fun used behind final look hs hlook => ?_⟩
  obtain ⟨front, hfront⟩ := h.suffix
  obtain ⟨mid, hmid⟩ := h'.suffix
  obtain rfl : used = front ++ mid := by
    refine (List.append_left_inj u.rest).mp ?_
    rw [← hs, List.append_assoc, hmid, hfront]
  obtain ⟨first, more, hfirst, hbegin⟩ : ∃ first more,
      mid ++ look :: behind = first :: more ∧ t.rest.head? = some first := by
    cases mid with
    | nil => exact ⟨look, behind, rfl, hmid ▸ hlook⟩
    | cons first mid => exact ⟨first, mid ++ look :: behind, rfl, by rw [← hmid]; rfl⟩
  have hsecond := h'.again mid behind final look hmid.symm hlook
  rw [List.append_assoc]
  rw [hfirst] at hsecond ⊢
  obtain hrun | hexhausted := h.again front more final first hfront.symm hbegin
  · have hbind : (act >>= f) (s.onto (front ++ first :: more) final) =
        f a (t.onto (first :: more) final) := by
      change EStateM.bind act f _ = _
      rw [EStateM.bind, hrun]
    rw [hbind, Exhausted, hbind]
    exact hsecond
  · exact .inr hexhausted.bind

end Repeats

namespace Local

variable {act act' : Parse α}

theorem pure (a : α) : Local (pure a) (pure a) := fun s =>
  Ensures.pure ⟨List.suffix_rfl, fun used behind final look hs hlook => by
    obtain rfl : used = [] := List.append_left_eq_self.mp hs.symm
    exact .inl rfl⟩

theorem throw (e : Failure) : Local (throw e : Parse α) (throw e) := fun s =>
  Ensures.throw (.inr ⟨List.suffix_rfl, fun used behind final look hs hlook => by
    obtain rfl : used = [] := List.append_left_eq_self.mp hs.symm
    exact .inl rfl⟩)

theorem bind {f f' : α → Parse β} (h : Local act act') (hf : ∀ a, Local (f a) (f' a)) :
    Local (act >>= f) (act' >>= f') := fun s =>
  .bind ((h s).imp_both (fun _ _ he => he.imp_right .fails) fun a t ha =>
    (hf a t).imp_both (fun _ _ he => he.imp_right ha.goesOn) fun _ _ hb => ha.goesOn hb)

/-- A look at the stream shows the current token and where the one before it ended. -/
theorem get {f f' : TokenStream → Parse α}
    (h : ∀ s s', s'.current = s.current → s'.lastEnd = s.lastEnd → Local (f s) (f' s')) :
    Local (MonadState.get >>= f) (MonadState.get >>= f') := by
  have hsame : ∀ {s t : TokenStream} {used behind : List Token} {final look : Token},
      s.rest = used ++ t.rest → t.rest.head? = some look →
      (s.onto (used ++ look :: behind) final).current = s.current := by
    intro s t used behind final look hs hlook
    obtain ⟨rest, hrest⟩ := List.head?_eq_some_iff.mp hlook
    rw [TokenStream.current, TokenStream.current, hs, hrest]
    cases used <;> rfl
  intro s
  refine .bind (.get ?_)
  unfold Ensures
  cases hrun : f s s with
  | ok a t =>
    have hrepeats := fun s' hcurrent hend => (h s s' hcurrent hend s).of_ok hrun
    refine ⟨(hrepeats s rfl rfl).suffix, fun used behind final look hs hlook => ?_⟩
    exact (hrepeats _ (hsame hs hlook) rfl).again used behind final look hs hlook
  | error e t =>
    refine Classical.or_iff_not_imp_left.mpr fun he => ?_
    have hrepeats := fun s' hcurrent hend =>
      ((h s s' hcurrent hend s).of_error hrun).resolve_left he
    refine ⟨(hrepeats s rfl rfl).suffix, fun used behind final look hs hlook => ?_⟩
    exact (hrepeats _ (hsame hs hlook) rfl).again used behind final look hs hlook

/-- A recursion that has met its bound repeats whatever keeps to one token of look-ahead. -/
theorem exhausted (h : Local act act') : Local act outOfFuel := fun s =>
  (h s).imp_both
    (fun _ _ he => he.imp_right fun hr => ⟨hr.suffix, fun _ _ _ _ _ _ => .inr ⟨_, rfl⟩⟩)
    fun _ _ ha => ⟨ha.suffix, fun _ _ _ _ _ _ => .inr ⟨_, rfl⟩⟩

end Local

/-- A recursion that has met its bound has nothing to repeat. -/
theorem outOfFuel_local (act : Parse α) : Local outOfFuel act := fun _ => .throw (.inl rfl)

/-- One level of a recursion after the other, with any two bounds. -/
theorem fuel_local {ι : Type} (p p' : Nat → ι → Parse α) (hp : ∀ i, p 0 i = outOfFuel)
    (hp' : ∀ i, p' 0 i = outOfFuel)
    (hstep : ∀ n n', (∀ i, Local (p n i) (p' n' i)) → ∀ i, Local (p (n + 1) i) (p' (n' + 1) i))
    (n n' : Nat) (i : ι) : Local (p n i) (p' n' i) := by
  induction n generalizing n' i with
  | zero =>
    rw [hp]
    exact outOfFuel_local _
  | succ n ih =>
    cases n' with
    | zero =>
      rw [hp']
      exact (hstep n 0 (ih 0) i).exhausted
    | succ n' => exact hstep n n' (ih n') i

/-- One level of a recursion after the other, with nothing handed down. -/
theorem loop_local {p p' : Nat → Parse α} (hp : p 0 = outOfFuel) (hp' : p' 0 = outOfFuel)
    (hstep : ∀ n n', Local (p n) (p' n') → Local (p (n + 1)) (p' (n' + 1))) (n n' : Nat) :
    Local (p n) (p' n') :=
  fuel_local (fun n _ => p n) (fun n _ => p' n) (fun _ => hp) (fun _ => hp')
    (fun n n' ih _ => hstep n n' (ih ())) n n' ()

/-! ### Tokens -/

theorem kind_local : Local kind kind := .get fun s s' hcurrent _ => by
  rw [TokenStream.kind, TokenStream.kind, hcurrent]
  exact .pure _

theorem position_local : Local position position := .get fun s s' hcurrent _ => by
  rw [TokenStream.position, TokenStream.position, hcurrent]
  exact .pure _

theorem advance_local : Local advance advance := by
  intro s
  refine .bind (.get (.bind (.set (.pure ⟨List.tail_suffix _, ?_⟩))))
  intro used behind final look hs hlook
  left
  obtain ⟨token, rest, hrest⟩ : ∃ token rest, s.rest = token :: rest := by
    cases hrest : s.rest with
    | nil => simp [TokenStream.advance, hrest] at hlook
    | cons token rest => exact ⟨token, rest, rfl⟩
  have htail : s.advance.rest = rest := congrArg List.tail hrest
  rw [htail, hrest] at hs
  obtain rfl : used = [token] := List.append_cancel_right hs.symm
  have hcurrent : s.current = token := by rw [TokenStream.current, hrest, List.headD_cons]
  simp only [TokenStream.onto, TokenStream.advance, hcurrent]
  rfl

theorem failureAt_eq (h : t.current = s.current) (cause : Cause) :
    t.failureAt cause = s.failureAt cause := by
  rw [TokenStream.failureAt, TokenStream.failureAt, TokenStream.position, TokenStream.position, h]

theorem unexpected_local : Local (unexpected : Parse α) unexpected := .get fun s s' hcurrent _ => by
  rw [TokenStream.unexpected, TokenStream.unexpected, hcurrent, failureAt_eq hcurrent]
  exact .throw _

theorem fail_local (message : String) : Local (fail message : Parse α) (fail message) :=
  .get fun s s' hcurrent _ => by
    rw [TokenStream.unexpectedDetailed, TokenStream.unexpectedDetailed, hcurrent,
      failureAt_eq hcurrent]
    exact .throw _

theorem expectOr_local (expected : TokenKind) (message : String) :
    Local (expectOr expected message) (expectOr expected message) := by
  refine .bind kind_local fun kind => ?_
  split
  · exact advance_local
  · exact fail_local message

theorem expect_local (expected : TokenKind) : Local (expect expected) (expect expected) :=
  expectOr_local _ _

theorem name_local (message : String) : Local (name message) (name message) :=
  .bind (expectOr_local _ _) fun _ => .pure _

theorem eat_local (wanted : TokenKind) : Local (eat wanted) (eat wanted) := by
  refine .bind kind_local fun kind => ?_
  split
  · exact .bind advance_local fun _ => .pure _
  · exact .pure _

theorem mint_local : Local mint mint := fun s =>
  Ensures.modifyGet ⟨List.suffix_rfl, fun used behind final look hs hlook => by
    obtain rfl : used = [] := List.append_left_eq_self.mp hs.symm
    exact .inl rfl⟩

theorem infoFrom_local (start : Position) : Local (infoFrom start) (infoFrom start) :=
  .get fun s s' _ hend => by
    rw [TokenStream.spanFrom, TokenStream.spanFrom, hend]
    exact .bind mint_local fun _ => .pure _

/-- The end of a production: a node around what has been read. -/
theorem node_local (start : Position) (build : NodeInfo → α) :
    Local (do return build (← infoFrom start)) (do return build (← infoFrom start)) :=
  .bind (infoFrom_local _) fun _ => .pure _

/-! ### Combinations -/

theorem bounded_local {p p' : Nat → Parse α} (h : ∀ n n', Local (p n) (p' n')) :
    Local (bounded p) (bounded p') := .get fun s s' _ _ => h s.bound s'.bound

section

variable {item item' : Parse α} (h : Local item item')
include h

theorem commaList_local (n n' : Nat) : Local (commaList item n) (commaList item' n') := by
  refine loop_local rfl rfl (fun n n' ih => ?_) n n'
  refine .bind h fun first => .bind (eat_local _) fun more => ?_
  cases more
  · exact .pure _
  · exact .bind ih fun rest => .pure _

theorem listUntil_local (stops : TokenKind → Bool) (n n' : Nat) :
    Local (listUntil stops item n) (listUntil stops item' n') := by
  refine loop_local rfl rfl (fun n n' ih => ?_) n n'
  refine .bind kind_local fun kind => ?_
  cases stops kind
  · refine .bind h fun first => .bind (eat_local _) fun more => ?_
    cases more
    · exact .pure _
    · exact .bind ih fun rest => .pure _
  · exact .pure _

theorem introduced_local (keyword : TokenKind) (n n' : Nat) :
    Local (introduced keyword item n) (introduced keyword item' n') := by
  refine loop_local rfl rfl (fun n n' ih => ?_) n n'
  refine .bind (eat_local _) fun more => ?_
  cases more
  · exact .pure _
  · exact .bind h fun first => .bind ih fun rest => .pure _

theorem optional_local (keyword : TokenKind) :
    Local (optional keyword item) (optional keyword item') := by
  refine .bind (eat_local _) fun more => ?_
  cases more
  · exact .pure _
  · exact .bind h fun a => .pure _

end

/-! ### Type annotations -/

section

variable {nested nested' : Power → Parse TypeExpr}
  (h : ∀ power, Local (nested power) (nested' power))
include h

theorem typeList_local (close : TokenKind) :
    Local (typeList nested close) (typeList nested' close) :=
  bounded_local (listUntil_local (h .default) _)

theorem primaryType_local : Local (primaryType nested) (primaryType nested') := by
  refine .bind (expect_local _) fun token => .bind (eat_local _) fun more => ?_
  cases more
  · exact .bind (.pure _) fun _ => node_local _ _
  · refine .bind (typeList_local h _) fun args => .bind (expect_local _) fun _ => ?_
    exact .bind (.pure _) fun _ => node_local _ _

theorem arrayType_local : Local (arrayType nested) (arrayType nested') := by
  refine .bind advance_local fun token => .bind (h _) fun elem => ?_
  exact .bind (expect_local _) fun _ => node_local _ _

theorem dictType_local : Local (dictType nested) (dictType nested') := by
  refine .bind advance_local fun token => .bind (h _) fun key => ?_
  refine .bind (expect_local _) fun _ => .bind (h _) fun value => ?_
  exact .bind (expect_local _) fun _ => node_local _ _

theorem tupleType_local : Local (tupleType nested) (tupleType nested') := by
  refine .bind advance_local fun token => .bind (typeList_local h _) fun elems => ?_
  refine .bind (expect_local _) fun _ => ?_
  split
  · exact .pure _
  · exact node_local _ _

theorem funcType_local : Local (funcType nested) (funcType nested') := by
  refine .bind advance_local fun keyword => .bind (expect_local _) fun _ => ?_
  refine .bind (typeList_local h _) fun params => .bind (expect_local _) fun _ => ?_
  dsimp only
  generalize (if keyword.kind = .proc then FuncKind.proc else .func) = kind
  split
  · exact .bind (optional_local (h _) _) fun ret => node_local _ _
  · exact .bind (.pure _) fun ret => node_local _ _

theorem refType_local : Local (refType nested) (refType nested') := by
  refine .bind advance_local fun token => .bind (h _) fun inner => ?_
  exact node_local _ _

theorem typeOperand_local : Local (typeOperand nested) (typeOperand nested') := by
  refine .bind kind_local fun kind => ?_
  split
  · exact primaryType_local h
  · exact arrayType_local h
  · exact dictType_local h
  · exact tupleType_local h
  · exact funcType_local h
  · exact funcType_local h
  · exact refType_local h
  · exact fail_local _

end

theorem typeSuffixes_local (power : Power) (left : TypeExpr) (n n' : Nat) :
    Local (typeSuffixes power left n) (typeSuffixes power left n') := by
  refine fuel_local (fun n left => typeSuffixes power left n)
    (fun n left => typeSuffixes power left n) (fun _ => rfl) (fun _ => rfl)
    (fun n n' ih left => ?_) n n' left
  simp only [typeSuffixes]
  split
  · exact .pure _
  · refine .bind (eat_local _) fun more => ?_
    cases more
    · exact .pure _
    · exact .bind (infoFrom_local _) fun info => ih _

theorem typeExprAt_local (n n' : Nat) (power : Power) :
    Local (typeExprAt n power) (typeExprAt n' power) :=
  fuel_local typeExprAt typeExprAt (fun _ => rfl) (fun _ => rfl)
    (fun _ _ ih power => .bind (typeOperand_local ih) fun left =>
      bounded_local (typeSuffixes_local power left)) n n' power

theorem typeExpr_local (power : Power) : Local (typeExpr power) (typeExpr power) :=
  bounded_local fun n n' => typeExprAt_local n n' power

theorem optionalType_local : Local optionalType optionalType :=
  optional_local (typeExpr_local _) _

/-! ### Expressions -/

theorem numeral_local (read : String → Option α) : Local (numeral read) (numeral read) :=
  .get fun s s' hcurrent _ => by
    rw [hcurrent, failureAt_eq hcurrent]
    split
    · exact .pure _
    · exact .throw _

theorem primary_local (build : NodeInfo → Expr) : Local (primary build) (primary build) :=
  .bind advance_local fun _ => .bind mint_local fun _ => .pure _

theorem symbolLiteral_local : Local symbolLiteral symbolLiteral := by
  refine .bind advance_local fun token => .bind (name_local _) fun name => ?_
  exact node_local _ _

theorem param_local : Local param param := by
  refine .bind position_local fun start => .bind (eat_local _) fun isVar => ?_
  refine .bind (name_local _) fun name => .bind optionalType_local fun type => ?_
  exact node_local _ _

/-- Readers of what may be nested, with bounds of two kinds. -/
structure Nested.Local (g g' : Nested) : Prop where
  expr : ∀ power, Parse.Local (g.expr power) (g'.expr power)
  block : Parse.Local g.block g'.block
  stmt : Parse.Local g.stmt g'.stmt

section

variable {g g' : Nested} (h : g.Local g')
include h

theorem exprList_local : Local (exprList g) (exprList g') :=
  bounded_local (commaList_local (h.expr _))

theorem exprListBefore_local (close : TokenKind) :
    Local (exprListBefore g close) (exprListBefore g' close) := by
  refine .bind kind_local fun kind => ?_
  split
  · exact .pure _
  · exact exprList_local h

theorem unaryExpr_local (op : UnaryOp) : Local (unaryExpr g op) (unaryExpr g' op) := by
  refine .bind advance_local fun token => .bind (h.expr _) fun operand => ?_
  exact node_local _ _

theorem grouping_local : Local (grouping g) (grouping g') := by
  refine .bind advance_local fun token => .bind (eat_local _) fun closed => ?_
  cases closed
  · refine .bind (exprList_local h) fun elems => .bind (expect_local _) fun _ => ?_
    split
    · exact .pure _
    · exact node_local _ _
  · exact node_local _ _

theorem arrayLiteral_local : Local (arrayLiteral g) (arrayLiteral g') := by
  refine .bind advance_local fun token => .bind (exprListBefore_local h _) fun elems => ?_
  exact .bind (expect_local _) fun _ => node_local _ _

theorem dictEntry_local : Local (dictEntry g) (dictEntry g') := by
  refine .bind (h.expr _) fun key => .bind (expect_local _) fun _ => ?_
  exact .bind (h.expr _) fun value => .pure _

theorem dictLiteral_local : Local (dictLiteral g) (dictLiteral g') := by
  refine .bind advance_local fun token => ?_
  refine .bind (bounded_local (listUntil_local (dictEntry_local h) _)) fun entries => ?_
  exact .bind (expect_local _) fun _ => node_local _ _

theorem lambdaBody_local : Local (lambdaBody g) (lambdaBody g') := by
  refine .bind (eat_local _) fun short => ?_
  cases short
  · exact h.block
  · refine .bind position_local fun start => .bind (h.expr _) fun value => ?_
    exact .bind (infoFrom_local _) fun inner => node_local _ _

theorem lambda_local : Local (lambda g) (lambda g') := by
  refine .bind advance_local fun token => .bind (eat_local _) fun parenthesized => ?_
  refine .bind (bounded_local (listUntil_local param_local _)) fun params => ?_
  have hrest : Local
      (do
        let body ← lambdaBody g
        let info ← infoFrom token.span.start
        let definition : FuncDef :=
          ⟨info, .lambda, "lambda." ++ info.id.repr, params, none, body, none⟩
        return Expr.lambda (← infoFrom token.span.start) definition)
      (do
        let body ← lambdaBody g'
        let info ← infoFrom token.span.start
        let definition : FuncDef :=
          ⟨info, .lambda, "lambda." ++ info.id.repr, params, none, body, none⟩
        return Expr.lambda (← infoFrom token.span.start) definition) :=
    .bind (lambdaBody_local h) fun body => .bind (infoFrom_local _) fun info =>
      .bind (infoFrom_local _) fun outer => .pure _
  cases parenthesized
  · exact hrest
  · exact .bind (expect_local _) fun _ => hrest

theorem ifExpr_local (kind : IfKind) : Local (ifExpr g kind) (ifExpr g' kind) := by
  refine .bind advance_local fun keyword => .bind (h.expr _) fun condition => ?_
  refine .bind (expect_local _) fun _ => .bind (h.expr _) fun thenValue => ?_
  refine .bind (expect_local _) fun _ => .bind (h.expr _) fun elseValue => ?_
  exact node_local _ _

theorem operand_local : Local (operand g) (operand g') := by
  refine .get fun s s' hcurrent _ => ?_
  dsimp only
  rw [hcurrent]
  split
  · exact .bind (numeral_local _) fun value => primary_local _
  · exact .bind (numeral_local _) fun value => primary_local _
  · exact .bind (numeral_local _) fun value => primary_local _
  · split
    · exact primary_local _
    · exact fail_local _
  · exact primary_local _
  · exact primary_local _
  · exact primary_local _
  · exact primary_local _
  · exact unaryExpr_local h _
  · exact unaryExpr_local h _
  · exact unaryExpr_local h _
  · exact grouping_local h
  · exact arrayLiteral_local h
  · exact dictLiteral_local h
  · exact ifExpr_local h _
  · exact ifExpr_local h _
  · exact symbolLiteral_local
  · exact lambda_local h
  · exact unexpected_local

theorem applyOperator_local (op : Operator) (left : Expr) :
    Local (applyOperator g op left) (applyOperator g' op left) := by
  refine .bind advance_local fun _ => ?_
  cases op with
  | binary op => exact .bind (h.expr _) fun right => node_local _ _
  | range inclusive =>
    exact .bind (h.expr _) fun last => node_local _ _
  | typed => exact .bind (typeExpr_local _) fun type => node_local _ _
  | cast => exact .bind (typeExpr_local _) fun type => node_local _ _
  | call =>
    refine .bind (exprListBefore_local h _) fun args => .bind (expect_local _) fun _ => ?_
    exact node_local _ _
  | index =>
    refine .bind (h.expr _) fun index => .bind (expect_local _) fun _ => ?_
    exact node_local _ _
  | member => exact .bind (name_local _) fun name => node_local _ _

theorem operators_local (power : Power) (left : Expr) (n n' : Nat) :
    Local (operators g power left n) (operators g' power left n') := by
  refine fuel_local (fun n left => operators g power left n)
    (fun n left => operators g' power left n) (fun _ => rfl) (fun _ => rfl)
    (fun n n' ih left => ?_) n n' left
  refine .bind kind_local fun kind => ?_
  split
  · exact .pure _
  · split
    · exact .pure _
    · exact .bind (applyOperator_local h _ left) ih

theorem exprWith_local (power : Power) : Local (exprWith g power) (exprWith g' power) :=
  .bind (operand_local h) fun left => bounded_local (operators_local h power left)

end

end Parse

end Frontend
