import Frontend.Parser.Expr
import Frontend.Proofs.Rendering.TypeExpr

/-!
# Reading rendered expressions

If the readers of nested constructs read back what is shorter than a bound, then so does every
production of the expression grammar. An expression in parentheses is read whatever operator is
wanted by its context; without its parentheses it is read where a parenthesis or a comma follows.
-/

namespace Frontend

section

variable (σ : Spelling)

@[simp] theorem exprTexts_eq (es : List Expr) : exprTexts σ es = es.map (Expr.text σ) := by
  induction es with
  | nil => rw [exprTexts, List.map_nil]
  | cons e rest ih => rw [exprTexts, ih, List.map_cons, Expr.text]

@[simp] theorem entryTexts_eq (entries : List (Expr × Expr)) :
    entryTexts σ entries =
      entries.map fun e => e.1.text σ ++ sign .fatArrow :: e.2.text σ := by
  induction entries with
  | nil => rw [entryTexts, List.map_nil]
  | cons e rest ih => rw [entryTexts, ih, List.map_cons, Expr.text, Expr.text]

@[simp] theorem Expr.parens_bare (e : Expr) : parens (e.bare σ) = e.text σ := rfl

theorem Expr.length_text (e : Expr) : (e.text σ).length = (e.bare σ).length + 2 :=
  length_parens _

end

/-- What closes a list of expressions is no operator. -/
theorem Closes.operator? {k : TokenKind} (h : Closes k) : k.operator? = none := by
  rcases h with rfl | rfl <;> rfl

theorem Closes.ne_question {k : TokenKind} (h : Closes k) : k ≠ .question := by
  rcases h with rfl | rfl <;> decide

theorem TokenKind.operator?_openParen : openParen.operator? = some .call := rfl

/-- An operator binds tighter than the loosest context. -/
theorem Operator.not_power_le_default (op : Operator) : ¬ op.power ≤ .default := by
  cases op with
  | binary op => cases op <;> decide
  | range _ => exact (by decide : ¬ Power.range ≤ .default)
  | typed | cast | call | index | member => decide

theorem BinaryOp.operator?_token (op : BinaryOp) :
    op.token.operator? = some (.binary op) := by
  cases op <;> rfl

/-- What begins an operand does not close a group. -/
theorem Expr.bare_begins (σ : Spelling) (e : Expr) :
    Parse.Begins (· ≠ .closeParen) (e.bare σ) := by
  cases e with
  | literal _ value =>
    rw [bare]
    cases value with
    | bool b => cases b <;> exact ⟨_, _, _, rfl, by decide⟩
    | _ => exact ⟨_, _, _, rfl, by decide⟩
  | varRef => exact ⟨_, _, _, by rw [bare], by decide⟩
  | array => exact ⟨.openBracket, "", _, by rw [bare]; rfl, by decide⟩
  | dict => exact ⟨.openCurly, "", _, by rw [bare]; rfl, by decide⟩
  | unary _ op => exact ⟨op.token, "", _, by rw [bare]; rfl, by cases op <;> decide⟩
  | ifElse _ kind => exact ⟨kind.token, "", _, by rw [bare]; rfl, by cases kind <;> decide⟩
  | lambda => exact ⟨.arrow, "", _, by rw [bare]; rfl, by decide⟩
  | _ => exact ⟨.openParen, "", _, by rw [bare]; rfl, by decide⟩

namespace Parse

/-- Whatever is nested is read back from texts shorter than `m`. -/
structure Nested.Recovering (σ : Spelling) (g : Nested) (m : Nat) : Prop where
  text : ∀ {e : Expr}, e.Written → (e.text σ).length < m → ∀ power,
    Recovers (g.expr power) (e.text σ) (·.operator? = none) fun b => b.erase = e.erase
  bare : ∀ {e : Expr}, e.Written → (e.bare σ).length < m →
    Recovers (g.expr .default) (e.bare σ) Closes fun b => b.erase = e.erase
  block : ∀ {b : Block}, b.Written → (b.text σ).length < m →
    Recovers g.block (b.text σ) (fun _ => True) fun b' => b'.erase = b.erase
  stmt : ∀ {st : Stmt}, st.Written → (st.text σ).length < m →
    Recovers g.stmt (st.text σ) (fun k => k ≠ .elseif ∧ k ≠ .else) fun b => b.erase = st.erase

/-! ### Parameters -/

section

variable {p : Param}

theorem param_recovers (hp : p.Written) :
    Recovers param p.text (fun k => k ≠ .question ∧ k ≠ .colon) fun b => b.erase = p.erase := by
  intro s k v more hk hs
  rw [Param.text, List.append_assoc, List.cons_append] at hs
  have htail : ∀ {start : Position} {t : TokenStream},
      t.ahead = (.identifier, p.name) :: (annotationText p.type ++ (k, v) :: more) →
      Yields (do
        let name ← name "expected parameter name"
        let type ← optionalType
        return (⟨← infoFrom start, p.isVar, name, type⟩ : Param) : Parse Param) t
        fun b u => u.ahead = (k, v) :: more ∧ b.erase = p.erase := by
    intro start t ht
    refine .bind (name_yields ht fun u hu => ?_)
    refine .bind ((optionalType_recovers hp hk hu).imp fun type w _ hw => ?_)
    refine .bind (infoFrom_yields fun info x hx => .pure ⟨hx.trans hw.1, ?_⟩)
    rw [Param.erase, Param.erase, hw.2]
  refine .bind (position_yields ?_)
  cases hvar : p.isVar with
  | true =>
    rw [hvar, if_pos rfl, List.singleton_append] at hs
    rw [hvar] at htail
    exact .bind (eat_yields hs fun t ht => htail ht)
  | false =>
    rw [hvar, if_neg Bool.false_ne_true, List.nil_append] at hs
    rw [hvar] at htail
    exact .bind (eat_skips hs (by decide) (htail hs))

/-- A parameter begins with a keyword or with its name. -/
theorem param_begins (p : Param) {stops : TokenKind → Bool} (hvar : stops .var = false)
    (hname : stops .identifier = false) : Begins (fun k => stops k = false) p.text := by
  rw [Param.text]
  cases p.isVar with
  | true => exact ⟨.var, "", _, rfl, hvar⟩
  | false => exact ⟨.identifier, p.name, _, rfl, hname⟩

theorem param_text_ne_nil (p : Param) : p.text ≠ [] := by
  rw [Param.text]
  exact List.append_ne_nil_of_right_ne_nil _ (List.cons_ne_nil _ _)

/-- Parameters up to the parenthesis that closes them. -/
theorem params_recovers {stops : TokenKind → Bool} {params : List Param}
    (hparams : ∀ p ∈ params, p.Written) (hclose : stops .closeParen = true)
    (hvar : stops .var = false) (hname : stops .identifier = false) :
    Recovers (bounded (listUntil stops param)) (listed (params.map Param.text))
      (· = .closeParen) fun ps => ps.map Param.erase = params.map Param.erase := by
  refine bounded_recovers fun n hn => ?_
  have hcount := length_le_listed params param_text_ne_nil
  intro s k v more hk hs
  subst hk
  exact listUntil_recovers (fun k => k ≠ .question ∧ k ≠ .colon) (by omega) (by decide)
    (fun p _ => param_begins p hvar hname)
    (fun p hp => param_recovers (hparams p hp)) ⟨by decide, hclose, by decide⟩ hs

end

/-! ### Literals and names -/

section

variable {s : TokenStream} {k : TokenKind} {v : String} {more : List Lexeme}

theorem primary_yields {build : NodeInfo → Expr} {e : Expr} {k₁ : TokenKind} {v₁ : String}
    (hs : s.ahead = (k₁, v₁) :: more) (hbuild : ∀ info, (build info).erase = e.erase) :
    Yields (primary build) s fun b t => t.ahead = more ∧ b.erase = e.erase :=
  .bind (advance_yields hs fun _ _ _ ht => .bind (.modifyGet (.pure ⟨ht, hbuild _⟩)))

/-- A numeral is read where its token has its text. -/
theorem numeral_yields {α : Type} {read : String → Option α} {value : α} {k₁ : TokenKind}
    {text : String} {post : α → TokenStream → Prop} (hs : s.ahead = (k₁, text) :: more)
    (hk : k₁.hasText = true) (hvalue : read text = some value) (hp : post value s) :
    Yields (numeral read) s post := by
  refine .bind (.get ?_)
  rw [value_eq (current_lexeme hs).1 hk, hvalue]
  exact .pure hp

/-- A literal is read back from any text that stands for it. -/
theorem operand_literal (σ : Spelling) (g : Nested) {info : NodeInfo} {value : Literal}
    (hvalue : value.Readable) :
    Recovers (operand g) ((Expr.literal info value).bare σ) (fun _ => True)
      fun b => b.erase = (Expr.literal info value).erase := by
  intro s k v more _ hs
  have hreads := σ.reads hvalue
  have hbuild : ∀ info', (Expr.literal info' value).erase = (Expr.literal info value).erase :=
    fun _ => by rw [Expr.erase, Expr.erase]
  rw [Expr.bare] at hs
  refine .bind (.get ?_)
  cases value with
  | char c =>
    have hkind : s.current.kind = .char := kind_eq hs
    have hvalue : s.current.value = σ.text (.char c) := value_eq (current_lexeme hs).1 rfl
    obtain ⟨rest, hrest⟩ := List.head?_eq_some_iff.mp hreads
    simp only [hkind, hvalue, hrest]
    exact primary_yields hs hbuild
  | float x =>
    have hkind : s.current.kind = .float := kind_eq hs
    simp only [hkind]
    exact .bind (numeral_yields hs rfl hreads (primary_yields hs hbuild))
  | bool b =>
    cases b with
    | true =>
      have hkind : s.current.kind = .true := kind_eq hs
      simp only [hkind]
      exact primary_yields hs hbuild
    | false =>
      have hkind : s.current.kind = .false := kind_eq hs
      simp only [hkind]
      exact primary_yields hs hbuild
  | string text =>
    have hkind : s.current.kind = .string := kind_eq hs
    have hvalue : s.current.value = σ.text (.string text) := value_eq (current_lexeme hs).1 rfl
    simp only [hkind, hvalue, show σ.text (.string text) = text from hreads]
    exact primary_yields hs hbuild
  | int i =>
    have hkind : s.current.kind = .int := kind_eq hs
    simp only [hkind]
    exact .bind (numeral_yields hs rfl hreads (primary_yields hs hbuild))
  | uint n =>
    have hkind : s.current.kind = .uint := kind_eq hs
    simp only [hkind]
    exact .bind (numeral_yields hs rfl hreads (primary_yields hs hbuild))
  | symbol name =>
    have hkind : s.current.kind = .colon := kind_eq hs
    simp only [hkind]
    refine .bind (advance_yields hs fun _ t _ ht => .bind (name_yields ht fun u hu => ?_))
    refine .bind (infoFrom_yields fun info x hx => .pure ⟨hx.trans hu, ?_⟩)
    rw [Expr.erase, Expr.erase, show σ.text (.symbol name) = name from hreads]

theorem operand_name (σ : Spelling) (g : Nested) {info : NodeInfo} {name : String} :
    Recovers (operand g) ((Expr.varRef info name false).bare σ) (fun _ => True)
      fun b => b.erase = (Expr.varRef info name false).erase := by
  intro s k v more _ hs
  rw [Expr.bare] at hs
  have hkind : s.current.kind = .identifier := kind_eq hs
  have hname : s.current.value = name := value_eq (current_lexeme hs).1 rfl
  refine .bind (.get ?_)
  simp only [hkind, hname]
  exact primary_yields hs fun _ => by rw [Expr.erase, Expr.erase]

end

/-! ### Lists of expressions -/

section

variable {σ : Spelling} {g : Nested} {m : Nat} (h : g.Recovering σ m)
include h

theorem exprList_recovers {es : List Expr} (hne : es ≠ []) (hes : exprsWritten es)
    (hm : (listed (es.map (Expr.text σ))).length < m) :
    Recovers (exprList g) (listed (es.map (Expr.text σ)))
      (fun k => k.operator? = none ∧ k ≠ .comma)
      fun bs => bs.map Expr.erase = es.map Expr.erase := by
  refine bounded_recovers fun n hn => ?_
  have hcount := length_le_listed es fun e => show e.text σ ≠ [] from List.cons_ne_nil _ _
  refine commaList_recovers _ hne (by omega) rfl fun e he => ?_
  exact h.text ((exprsWritten_iff es).mp hes e he)
    (Nat.lt_of_le_of_lt (length_text_le_listed _ he) hm) .default

/-- Expressions in front of the token that closes them, if there are any. -/
theorem exprListBefore_recovers {es : List Expr} {close : TokenKind} (hes : exprsWritten es)
    (hclose : close.operator? = none ∧ close ≠ .comma) (hopen : close ≠ .openParen)
    (hm : (listed (es.map (Expr.text σ))).length < m) :
    Recovers (exprListBefore g close) (listed (es.map (Expr.text σ))) (· = close)
      fun bs => bs.map Expr.erase = es.map Expr.erase := by
  intro s k v more hk hs
  subst hk
  cases es with
  | nil =>
    refine .bind (kind_yields (k := k) hs ?_)
    rw [if_pos rfl]
    exact .pure ⟨hs, rfl⟩
  | cons e rest =>
    have hhead : s.ahead = sign .openParen :: s.ahead.tail := by
      rw [hs]
      cases rest <;> rfl
    refine .bind (kind_yields hhead ?_)
    rw [if_neg hopen.symm]
    exact exprList_recovers h (List.cons_ne_nil _ _) hes hm hclose hs

theorem dictEntry_recovers {e : Expr × Expr} (he : e.1.Written ∧ e.2.Written)
    (hm : (e.1.text σ ++ sign .fatArrow :: e.2.text σ).length < m) :
    Recovers (dictEntry g) (e.1.text σ ++ sign .fatArrow :: e.2.text σ) (·.operator? = none)
      fun b => (b.1.erase, b.2.erase) = (e.1.erase, e.2.erase) := by
  intro s k v more hk hs
  rw [List.length_append, List.length_cons] at hm
  rw [List.append_assoc, List.cons_append] at hs
  refine .bind ((h.text he.1 (by omega) .default rfl hs).imp fun key t _ hkey => ?_)
  refine .bind (expect_yields hkey.1 fun _ u _ hu => ?_)
  refine .bind ((h.text he.2 (by omega) .default hk hu).imp fun value w _ hvalue => .pure ?_)
  exact ⟨hvalue.1, Prod.ext hkey.2 hvalue.2⟩

/-! ### Operands -/

theorem unaryExpr_recovers {info : NodeInfo} {op : UnaryOp} {operand : Expr}
    (hoperand : operand.Written) (hm : ((Expr.unary info op operand).bare σ).length < m + 1) :
    Recovers (unaryExpr g op) ((Expr.unary info op operand).bare σ) Closes
      fun b => b.erase = (Expr.unary info op operand).erase := by
  intro s k v more hk hs
  simp only [Expr.bare, Expr.parens_bare, List.length_cons] at hm
  simp only [Expr.bare, Expr.parens_bare, List.cons_append] at hs
  refine .bind (advance_yields hs fun _ t _ ht => ?_)
  refine .bind ((h.text hoperand (by omega) .unary hk.operator? ht).imp fun b u _ hb => ?_)
  refine .bind (infoFrom_yields fun info w hw => .pure ⟨hw.trans hb.1, ?_⟩)
  simp only [Expr.erase, hb.2]

/-- Expressions in parentheses, which are told apart from a single one by their number. -/
theorem grouping_tuple {info : NodeInfo} {elems : List Expr} (helems : exprsWritten elems)
    (hne : elems.length ≠ 1) (hm : ((Expr.tuple info elems).bare σ).length < m + 1) :
    Recovers (grouping g) ((Expr.tuple info elems).bare σ) (fun _ => True)
      fun b => b.erase = (Expr.tuple info elems).erase := by
  intro s k v more _ hs
  simp only [Expr.bare, exprTexts_eq, length_parens] at hm
  simp only [Expr.bare, exprTexts_eq, parens, List.cons_append, List.append_assoc,
    List.nil_append] at hs
  refine .bind (advance_yields hs fun _ t _ ht => ?_)
  cases elems with
  | nil =>
    refine .bind (eat_yields ht fun u hu => ?_)
    rw [if_pos rfl]
    refine .bind (infoFrom_yields fun info w hw => .pure ⟨hw.trans hu, ?_⟩)
    simp only [Expr.erase, eraseExprs_eq]
  | cons e rest =>
    have hhead : t.ahead = sign .openParen :: t.ahead.tail := by
      rw [ht]
      cases rest <;> rfl
    refine .bind (eat_skips hhead (by decide) ?_)
    rw [if_neg Bool.false_ne_true]
    refine .bind ((exprList_recovers h (List.cons_ne_nil _ _) helems (by omega)
      ⟨rfl, by decide⟩ ht).imp fun bs u _ hbs => ?_)
    refine .bind (expect_yields hbs.1 fun _ w _ hw => ?_)
    have hlength := congrArg List.length hbs.2
    rw [List.length_map, List.length_map] at hlength
    split
    · exact absurd hlength.symm hne
    · refine .bind (infoFrom_yields fun info x hx => .pure ⟨hx.trans hw, ?_⟩)
      simp only [Expr.erase, eraseExprs_eq, hbs.2]

/-- One expression between parentheses is that expression. -/
theorem grouping_single {e : Expr} (he : e.Written) (hm : (e.text σ).length < m + 1) :
    Recovers (grouping g) (e.text σ) (fun _ => True) fun b => b.erase = e.erase := by
  intro s k v more _ hs
  rw [Expr.length_text] at hm
  simp only [Expr.text, parens, List.cons_append, List.append_assoc, List.nil_append] at hs
  refine .bind (advance_yields hs fun _ t _ ht => ?_)
  obtain ⟨k₁, v₁, rest, hbare, hopen⟩ := e.bare_begins σ
  have hhead : t.ahead = (k₁, v₁) :: t.ahead.tail := by rw [ht, hbare]; rfl
  refine .bind (eat_skips hhead hopen ?_)
  rw [if_neg Bool.false_ne_true]
  have hlist : Recovers (exprList g) (listed ([e].map (Expr.bare σ))) (· = .closeParen)
      fun bs => bs.map Expr.erase = [e].map Expr.erase := by
    refine bounded_recovers fun n hn => ?_
    rw [List.map_singleton, listed] at hn
    have hpos : 0 < (e.bare σ).length := by simp [hbare]
    intro s k v more hk hs
    subst hk
    refine commaList_recovers Closes (List.cons_ne_nil _ _) (by rw [List.length_singleton]; omega)
      (.inr rfl) (fun e' he' => ?_) ⟨.inl rfl, by decide⟩ hs
    rw [List.mem_singleton.mp he']
    exact h.bare he (by omega)
  refine .bind ((hlist rfl ht).imp fun bs u _ hbs => ?_)
  refine .bind (expect_yields hbs.1 fun _ w _ hw => ?_)
  obtain ⟨b, rfl, hb⟩ := List.map_eq_singleton_iff.mp hbs.2
  exact .pure ⟨hw, hb⟩

theorem arrayLiteral_recovers {info : NodeInfo} {elems : List Expr} (helems : exprsWritten elems)
    (hm : ((Expr.array info elems).bare σ).length < m + 1) :
    Recovers (arrayLiteral g) ((Expr.array info elems).bare σ) (fun _ => True)
      fun b => b.erase = (Expr.array info elems).erase := by
  intro s k v more _ hs
  simp only [Expr.bare, exprTexts_eq, List.length_cons, List.length_append] at hm
  simp only [Expr.bare, exprTexts_eq, List.cons_append, List.append_assoc, List.nil_append] at hs
  refine .bind (advance_yields hs fun _ t _ ht => ?_)
  refine .bind ((exprListBefore_recovers h helems ⟨rfl, by decide⟩ (by decide) (by omega) rfl
    ht).imp fun bs u _ hbs => ?_)
  refine .bind (expect_yields hbs.1 fun _ w _ hw => ?_)
  refine .bind (infoFrom_yields fun info x hx => .pure ⟨hx.trans hw, ?_⟩)
  simp only [Expr.erase, eraseExprs_eq, hbs.2]

theorem dictLiteral_recovers {info : NodeInfo} {entries : List (Expr × Expr)}
    (hentries : entriesWritten entries)
    (hm : ((Expr.dict info entries).bare σ).length < m + 1) :
    Recovers (dictLiteral g) ((Expr.dict info entries).bare σ) (fun _ => True)
      fun b => b.erase = (Expr.dict info entries).erase := by
  intro s k v more _ hs
  simp only [Expr.bare, entryTexts_eq, List.length_cons, List.length_append] at hm
  simp only [Expr.bare, entryTexts_eq, List.cons_append, List.append_assoc, List.nil_append] at hs
  have hlist : Recovers (bounded (listUntil (· == .closeCurly) (dictEntry g)))
      (listed (entries.map fun e => e.1.text σ ++ sign .fatArrow :: e.2.text σ))
      (· = .closeCurly) fun bs => bs.map (fun e => (e.1.erase, e.2.erase)) =
        entries.map fun e => (e.1.erase, e.2.erase) := by
    refine bounded_recovers fun n hn => ?_
    have hcount := length_le_listed entries fun e =>
      show e.1.text σ ++ sign .fatArrow :: e.2.text σ ≠ [] from List.cons_ne_nil _ _
    intro s k v more hk hs
    subst hk
    refine listUntil_recovers (·.operator? = none) (by omega) rfl
      (fun e _ => ⟨.openParen, "", _, rfl, by decide⟩) (fun e he => ?_)
      ⟨rfl, by decide, by decide⟩ hs
    have hle := length_text_le_listed
      (fun e : Expr × Expr => e.1.text σ ++ sign .fatArrow :: e.2.text σ) he
    exact dictEntry_recovers h ((entriesWritten_iff entries).mp hentries e he)
      (Nat.lt_of_le_of_lt hle (by omega))
  refine .bind (advance_yields hs fun _ t _ ht => ?_)
  refine .bind ((hlist rfl ht).imp fun bs u _ hbs => ?_)
  refine .bind (expect_yields hbs.1 fun _ w _ hw => ?_)
  refine .bind (infoFrom_yields fun info x hx => .pure ⟨hx.trans hw, ?_⟩)
  simp only [Expr.erase, eraseEntries_eq, hbs.2]

/-- The body of a rendered lambda is a block. -/
theorem lambdaBody_recovers {b : Block} (hb : b.Written) (hm : (b.text σ).length < m) :
    Recovers (lambdaBody g) (b.text σ) (fun _ => True) fun b' => b'.erase = b.erase := by
  intro s k v more hk hs
  have hhead : s.ahead = sign .openCurly :: s.ahead.tail := by
    rw [hs]
    cases b
    rw [Block.text]
    rfl
  refine .bind (eat_skips hhead (by decide) ?_)
  rw [if_neg Bool.false_ne_true]
  exact h.block hb hm hk hs

/-- A lambda gets a name of its own, which differs only in the id. -/
theorem lambda_recovers {info : NodeInfo} {d : FuncDef} (hlambda : d.IsLambda) (hd : d.Written)
    (hm : ((Expr.lambda info d).bare σ).length < m + 1) :
    Recovers (lambda g) ((Expr.lambda info d).bare σ) (fun _ => True)
      fun b => b.erase = (Expr.lambda info d).erase := by
  intro s k v more _ hs
  obtain ⟨dinfo, kind, name, params, returnType, body, ensureBody⟩ := d
  obtain ⟨hkind, hname, hreturn, hensure⟩ := hlambda
  dsimp only at hkind hname hreturn hensure
  subst hkind hname hreturn hensure
  rw [FuncDef.Written] at hd
  simp only [Expr.bare, FuncDef.lambdaText, paramsText, List.length_cons, List.length_append,
    length_parens] at hm
  simp only [Expr.bare, FuncDef.lambdaText, paramsText, parens, List.cons_append,
    List.append_assoc, List.nil_append] at hs
  refine .bind (advance_yields hs fun _ t _ ht => ?_)
  refine .bind (eat_yields ht fun u hu => ?_)
  refine .bind ((params_recovers hd.1 rfl rfl rfl rfl hu).imp fun ps w _ hps => ?_)
  dsimp only
  rw [if_pos rfl]
  refine .bind (expect_yields hps.1 fun _ x _ hx => ?_)
  refine .bind ((lambdaBody_recovers h hd.2.2.1 (by omega) trivial hx).imp fun b y _ hb => ?_)
  refine .bind (infoFrom_yields fun dinfo z hz => ?_)
  refine .bind (infoFrom_yields fun info a ha => .pure ⟨ha.trans (hz.trans hb.1), ?_⟩)
  simp only [Expr.erase, FuncDef.erase, eraseName_lambda, hps.2, hb.2]

theorem ifExpr_recovers {info : NodeInfo} {kind : IfKind} {condition thenValue elseValue : Expr}
    (hcondition : condition.Written) (hthen : thenValue.Written) (helse : elseValue.Written)
    (hm : ((Expr.ifElse info kind condition thenValue elseValue).bare σ).length < m + 1) :
    Recovers (ifExpr g kind) ((Expr.ifElse info kind condition thenValue elseValue).bare σ) Closes
      fun b => b.erase = (Expr.ifElse info kind condition thenValue elseValue).erase := by
  intro s k v more hk hs
  simp only [Expr.bare, Expr.parens_bare, List.length_cons, List.length_append] at hm
  simp only [Expr.bare, Expr.parens_bare, List.cons_append, List.append_assoc] at hs
  refine .bind (advance_yields hs fun _ t _ ht => ?_)
  refine .bind ((h.text hcondition (by omega) .default rfl ht).imp fun a u _ ha => ?_)
  refine .bind (expect_yields ha.1 fun _ w _ hw => ?_)
  refine .bind ((h.text hthen (by omega) .default rfl hw).imp fun b x _ hb => ?_)
  refine .bind (expect_yields hb.1 fun _ y _ hy => ?_)
  refine .bind ((h.text helse (by omega) .default hk.operator? hy).imp fun c z _ hc => ?_)
  refine .bind (infoFrom_yields fun info i hi => .pure ⟨hi.trans hc.1, ?_⟩)
  simp only [Expr.erase, ha.2, hb.2, hc.2]

/-- An expression in parentheses is an operand, whatever follows. -/
theorem operand_text {e : Expr} (he : e.Written) (hm : (e.text σ).length < m + 1) :
    Recovers (operand g) (e.text σ) (fun _ => True) fun b => b.erase = e.erase := by
  intro s k v more hk hs
  refine .bind (.get ?_)
  have hkind : s.current.kind = .openParen := kind_eq (v := "") hs
  simp only [hkind]
  exact grouping_single h he hm hk hs

/-! ### Operators -/

omit h in
/-- Where no operator stands, an expression is complete. -/
theorem operators_stops {power : Power} {left : Expr} {s : TokenStream} {k : TokenKind}
    {v : String} {more : List Lexeme} {n : Nat} (hn : 0 < n) (hk : k.operator? = none)
    (hs : s.ahead = (k, v) :: more) :
    Yields (operators g power left n) s fun b t => t.ahead = (k, v) :: more ∧ b = left := by
  obtain ⟨n, rfl⟩ : ∃ p, n = p + 1 := ⟨n - 1, by omega⟩
  rw [operators]
  refine .bind (kind_yields hs ?_)
  simp only [hk]
  exact .pure ⟨hs, rfl⟩

/-- What an operator adds to an operand that stands in parentheses. -/
theorem operated_recovers {left e : Expr} {op : Operator} {sgn : TokenKind} {tail : List Lexeme}
    (hleft : left.Written) (hm : (left.text σ).length < m + 1) (hsgn : sgn.operator? = some op)
    (happly : ∀ b, b.erase = left.erase →
      Recovers (applyOperator g op b) (sign sgn :: tail) Closes fun c => c.erase = e.erase) :
    Recovers (exprWith g .default) (left.text σ ++ sign sgn :: tail) Closes
      fun b => b.erase = e.erase := by
  intro s k v more hk hs
  rw [List.append_assoc, List.cons_append] at hs
  refine .bind ((operand_text h hleft hm trivial hs).imp fun b t _ hb => .bind (.get ?_))
  rw [TokenStream.bound_eq, operators]
  refine .bind (kind_yields hb.1 ?_)
  simp only [hsgn]
  rw [if_neg op.not_power_le_default]
  have hcount := congrArg List.length hb.1
  simp only [TokenStream.ahead, List.length_map, List.length_cons] at hcount
  refine .bind ((happly b hb.2 hk hb.1).imp fun c u _ hc => ?_)
  refine (operators_stops (by omega) hk.operator? hc.1).imp fun d w _ hd => ?_
  exact ⟨hd.1, hd.2 ▸ hc.2⟩

theorem applyBinary_recovers {info : NodeInfo} {op : BinaryOp} {lhs rhs b : Expr}
    (hrhs : rhs.Written) (hm : (rhs.text σ).length < m) (hb : b.erase = lhs.erase) :
    Recovers (applyOperator g (.binary op) b) (sign op.token :: rhs.text σ) Closes
      fun c => c.erase = (Expr.binary info op lhs rhs).erase := by
  intro s k v more hk hs
  refine .bind (advance_yields hs fun _ t _ ht => ?_)
  refine .bind ((h.text hrhs hm _ hk.operator? ht).imp fun c u _ hc => ?_)
  refine .bind (infoFrom_yields fun info w hw => .pure ⟨hw.trans hc.1, ?_⟩)
  simp only [Expr.erase, hb, hc.2]

theorem applyRange_recovers {info : NodeInfo} {inclusive : Bool} {first last b : Expr}
    (hlast : last.Written) (hm : (last.text σ).length < m) (hb : b.erase = first.erase) :
    Recovers (applyOperator g (.range inclusive) b)
      (sign (rangeToken inclusive) :: last.text σ) Closes
      fun c => c.erase = (Expr.range info first last inclusive).erase := by
  intro s k v more hk hs
  refine .bind (advance_yields hs fun _ t _ ht => ?_)
  refine .bind ((h.text hlast hm _ hk.operator? ht).imp fun c u _ hc => ?_)
  refine .bind (infoFrom_yields fun info w hw => .pure ⟨hw.trans hc.1, ?_⟩)
  simp only [Expr.erase, hb, hc.2]

omit h in
theorem applyTyped_recovers {info : NodeInfo} {value b : Expr} {type : TypeExpr}
    (htype : type.Written) (hb : b.erase = value.erase) :
    Recovers (applyOperator g .typed b) (sign .colon :: type.text) Closes
      fun c => c.erase = (Expr.typed info value type).erase := by
  intro s k v more hk hs
  refine .bind (advance_yields hs fun _ t _ ht => ?_)
  refine .bind ((typeExpr_recovers htype .default hk.ne_question ht).imp fun c u _ hc => ?_)
  refine .bind (infoFrom_yields fun info w hw => .pure ⟨hw.trans hc.1, ?_⟩)
  simp only [Expr.erase, hb, hc.2]

omit h in
theorem applyCast_recovers {info : NodeInfo} {value b : Expr} {type : TypeExpr}
    (htype : type.Written) (hb : b.erase = value.erase) :
    Recovers (applyOperator g .cast b) (sign .as :: type.text) Closes
      fun c => c.erase = (Expr.cast info value type).erase := by
  intro s k v more hk hs
  refine .bind (advance_yields hs fun _ t _ ht => ?_)
  refine .bind ((typeExpr_recovers htype .default hk.ne_question ht).imp fun c u _ hc => ?_)
  refine .bind (infoFrom_yields fun info w hw => .pure ⟨hw.trans hc.1, ?_⟩)
  simp only [Expr.erase, hb, hc.2]

theorem applyCall_recovers {info : NodeInfo} {callee b : Expr} {args : List Expr}
    (hargs : exprsWritten args) (hm : (listed (args.map (Expr.text σ))).length < m)
    (hb : b.erase = callee.erase) :
    Recovers (applyOperator g .call b) (parens (listed (args.map (Expr.text σ)))) Closes
      fun c => c.erase = (Expr.call info callee args).erase := by
  intro s k v more _ hs
  simp only [parens, List.cons_append, List.append_assoc, List.nil_append] at hs
  refine .bind (advance_yields hs fun _ t _ ht => ?_)
  refine .bind ((exprListBefore_recovers h hargs ⟨rfl, by decide⟩ (by decide) hm rfl ht).imp
    fun bs u _ hbs => ?_)
  refine .bind (expect_yields hbs.1 fun _ w _ hw => ?_)
  refine .bind (infoFrom_yields fun info x hx => .pure ⟨hx.trans hw, ?_⟩)
  simp only [Expr.erase, eraseExprs_eq, hb, hbs.2]

theorem applyIndex_recovers {info : NodeInfo} {receiver index b : Expr} (hindex : index.Written)
    (hm : (index.text σ).length < m) (hb : b.erase = receiver.erase) :
    Recovers (applyOperator g .index b)
      (sign .openBracket :: (index.text σ ++ [sign .closeBracket])) Closes
      fun c => c.erase = (Expr.index info receiver index).erase := by
  intro s k v more _ hs
  simp only [List.cons_append, List.append_assoc, List.nil_append] at hs
  refine .bind (advance_yields hs fun _ t _ ht => ?_)
  refine .bind ((h.text hindex hm .default rfl ht).imp fun c u _ hc => ?_)
  refine .bind (expect_yields hc.1 fun _ w _ hw => ?_)
  refine .bind (infoFrom_yields fun info x hx => .pure ⟨hx.trans hw, ?_⟩)
  simp only [Expr.erase, hb, hc.2]

omit h in
theorem applyMember_recovers {info : NodeInfo} {receiver b : Expr} {name : String}
    (hb : b.erase = receiver.erase) :
    Recovers (applyOperator g .member b) [sign .dot, (.identifier, name)] Closes
      fun c => c.erase = (Expr.member info receiver name).erase := by
  intro s k v more _ hs
  refine .bind (advance_yields hs fun _ t _ ht => .bind (name_yields ht fun u hu => ?_))
  refine .bind (infoFrom_yields fun info x hx => .pure ⟨hx.trans hu, ?_⟩)
  simp only [Expr.erase, hb]

omit h in
/-- An operand with no operator behind it is a whole expression. -/
theorem complete_recovers {e : Expr} {text : List Lexeme} {power : Power}
    {stop : TokenKind → Prop} (hstop : ∀ {k}, stop k → k.operator? = none)
    (ho : Recovers (operand g) text stop fun b => b.erase = e.erase) :
    Recovers (exprWith g power) text stop fun b => b.erase = e.erase := by
  intro s k v more hk hs
  refine .bind ((ho hk hs).imp fun b t _ hb => .bind (.get ?_))
  refine (operators_stops (Nat.succ_pos _) (hstop hk) hb.1).imp fun c u _ hc => ?_
  exact ⟨hc.1, hc.2 ▸ hb.2⟩

omit h in
theorem Recovers.anywhere {act : Parse Expr} {text : List Lexeme} {stop : TokenKind → Prop}
    {good : Expr → Prop} (h : Recovers act text (fun _ => True) good) :
    Recovers act text stop good :=
  fun _ _ _ _ _ hs => h trivial hs

/-- An expression without its parentheses: an operand, or an operand in parentheses of its own
and one operator. -/
theorem exprWith_bare {e : Expr} (he : e.Written) (hm : (e.bare σ).length < m + 1) :
    Recovers (exprWith g .default) (e.bare σ) Closes fun b => b.erase = e.erase := by
  cases e with
  | literal info value =>
    rw [Expr.Written] at he
    exact complete_recovers Closes.operator? (operand_literal σ g he).anywhere
  | varRef info name assigned =>
    rw [Expr.Written] at he
    subst he
    exact complete_recovers Closes.operator? (operand_name σ g).anywhere
  | array info elems =>
    rw [Expr.Written] at he
    refine complete_recovers Closes.operator? fun s k v more hk hs => .bind (.get ?_)
    have hkind : s.current.kind = .openBracket := kind_eq (hs.trans (by rw [Expr.bare]; rfl))
    simp only [hkind]
    exact arrayLiteral_recovers h he hm trivial hs
  | tuple info elems =>
    rw [Expr.Written] at he
    refine complete_recovers Closes.operator? fun s k v more hk hs => .bind (.get ?_)
    have hkind : s.current.kind = .openParen := kind_eq (hs.trans (by rw [Expr.bare]; rfl))
    simp only [hkind]
    exact grouping_tuple h he.2 he.1 hm trivial hs
  | dict info entries =>
    rw [Expr.Written] at he
    refine complete_recovers Closes.operator? fun s k v more hk hs => .bind (.get ?_)
    have hkind : s.current.kind = .openCurly := kind_eq (hs.trans (by rw [Expr.bare]; rfl))
    simp only [hkind]
    exact dictLiteral_recovers h he hm trivial hs
  | unary info op operand =>
    rw [Expr.Written] at he
    refine complete_recovers Closes.operator? fun s k v more hk hs => .bind (.get ?_)
    have hkind : s.current.kind = op.token := kind_eq (hs.trans (by rw [Expr.bare]; rfl))
    cases op <;> simp only [hkind, UnaryOp.token] <;> exact unaryExpr_recovers h he hm hk hs
  | ifElse info kind condition thenValue elseValue =>
    rw [Expr.Written] at he
    refine complete_recovers Closes.operator? fun s k v more hk hs => .bind (.get ?_)
    have hkind : s.current.kind = kind.token := kind_eq (hs.trans (by rw [Expr.bare]; rfl))
    cases kind <;> simp only [hkind, IfKind.token] <;>
      exact ifExpr_recovers h he.1 he.2.1 he.2.2 hm hk hs
  | lambda info d =>
    rw [Expr.Written] at he
    refine complete_recovers Closes.operator? fun s k v more hk hs => .bind (.get ?_)
    have hkind : s.current.kind = .arrow := kind_eq (hs.trans (by rw [Expr.bare]; rfl))
    simp only [hkind]
    exact lambda_recovers h he.1 he.2 hm trivial hs
  | binary info op lhs rhs =>
    rw [Expr.Written] at he
    simp only [Expr.bare, Expr.parens_bare, List.length_append, List.length_cons] at hm ⊢
    exact operated_recovers h he.1 (by omega) op.operator?_token fun b hb =>
      applyBinary_recovers h he.2 (by omega) hb
  | range info first last inclusive =>
    rw [Expr.Written] at he
    simp only [Expr.bare, Expr.parens_bare, List.length_append, List.length_cons] at hm ⊢
    have hsgn : (rangeToken inclusive).operator? = some (.range inclusive) := by
      cases inclusive <;> rfl
    exact operated_recovers h he.1 (by omega) hsgn fun b hb =>
      applyRange_recovers h he.2 (by omega) hb
  | typed info value type =>
    rw [Expr.Written] at he
    simp only [Expr.bare, Expr.parens_bare, List.length_append, List.length_cons] at hm ⊢
    exact operated_recovers h he.1 (by omega) rfl fun b hb => applyTyped_recovers he.2 hb
  | cast info value type =>
    rw [Expr.Written] at he
    simp only [Expr.bare, Expr.parens_bare, List.length_append, List.length_cons] at hm ⊢
    exact operated_recovers h he.1 (by omega) rfl fun b hb => applyCast_recovers he.2 hb
  | call info callee args =>
    rw [Expr.Written] at he
    simp only [Expr.bare, Expr.parens_bare, exprTexts_eq, List.length_append, length_parens]
      at hm ⊢
    exact operated_recovers h he.1 (by omega) TokenKind.operator?_openParen fun b hb =>
      applyCall_recovers h he.2 (by omega) hb
  | index info receiver index =>
    rw [Expr.Written] at he
    simp only [Expr.bare, Expr.parens_bare, List.append_assoc, List.cons_append,
      List.length_append, List.length_cons, List.length_nil] at hm ⊢
    exact operated_recovers h he.1 (by omega) rfl fun b hb =>
      applyIndex_recovers h he.2 (by omega) hb
  | member info receiver name =>
    rw [Expr.Written] at he
    simp only [Expr.bare, Expr.parens_bare, List.length_append, List.length_cons] at hm ⊢
    exact operated_recovers h he (by omega) rfl fun b hb => applyMember_recovers hb

/-- An expression in parentheses is complete in any context. -/
theorem exprWith_text {e : Expr} (he : e.Written) (hm : (e.text σ).length < m + 1)
    (power : Power) :
    Recovers (exprWith g power) (e.text σ) (·.operator? = none) fun b => b.erase = e.erase :=
  complete_recovers id (operand_text h he hm).anywhere

end

end Parse

end Frontend
