import Frontend.Proofs.Rendering.Text

/-!
# Tokens for a rendering

The rendering of a tree is what the grammar sees of a list of tokens.
-/

namespace Frontend

/-- A token that is seen as the given one. -/
def Lexeme.token (l : Lexeme) : Token := ⟨l.1, l.2, .null⟩

/-- Texts that tokens show: where the kind of a token tells all, there is no text beside it. -/
def Shown (text : List Lexeme) : Prop := ∀ l ∈ text, l.1.hasText = true ∨ l.2 = ""

namespace Shown

variable {l : Lexeme} {text text' : List Lexeme}

@[simp] theorem nil : Shown [] := nofun

@[simp] theorem cons_iff : Shown (l :: text) ↔ (l.1.hasText = true ∨ l.2 = "") ∧ Shown text :=
  List.forall_mem_cons

@[simp] theorem append_iff : Shown (text ++ text') ↔ Shown text ∧ Shown text' :=
  List.forall_mem_append

@[simp] theorem sign (kind : TokenKind) : (Frontend.sign kind).1.hasText = true ∨
    (Frontend.sign kind).2 = "" := .inr rfl

@[simp] theorem parens_iff : Shown (parens text) ↔ Shown text := by
  simp [parens]

theorem listed {texts : List (List Lexeme)} (h : ∀ t ∈ texts, Shown t) :
    Shown (listed texts) := by
  induction texts with
  | nil => exact nil
  | cons t rest ih =>
    rw [List.forall_mem_cons] at h
    cases rest with
    | nil => exact h.1
    | cons next rest =>
      rw [Frontend.listed, append_iff, cons_iff]
      exact ⟨h.1, Shown.sign _, ih h.2⟩

/-- A shown text is what is seen of the tokens made from it. -/
theorem lexemes (h : Shown text) : (text.map Lexeme.token).map Token.lexeme = text := by
  rw [List.map_map]
  refine (List.map_congr_left fun l hl => ?_).trans (List.map_id _)
  rcases h l hl with htext | hvalue
  · exact Prod.ext rfl (if_pos htext)
  · refine Prod.ext rfl ?_
    show (if l.1.hasText = true then l.2 else "") = l.2
    split
    · rfl
    · exact hvalue.symm

end Shown

variable {σ : Spelling}

@[simp] theorem hasText_identifier : TokenKind.identifier.hasText = true := rfl

theorem Spelling.lexemes_shown (l : Literal) : Shown (σ.lexemes l) := by
  rcases l with _ | _ | (_ | _) | _ | _ | _ | _ <;>
    simp only [lexemes, Shown.cons_iff, Shown.sign, Shown.nil, hasText_identifier, true_or,
      and_true]
  all_goals exact .inl rfl

mutual

theorem TypeExpr.bare_shown : ∀ t : TypeExpr, Shown t.bare
  | .primary _ _ [] => by simp [TypeExpr.bare]
  | .primary _ _ (arg :: args) => by
    rw [TypeExpr.bare, Shown.cons_iff, Shown.parens_iff]
    exact ⟨.inl rfl, Shown.listed (typeTexts_shown (arg :: args))⟩
  | .array _ elem => by simp [TypeExpr.bare, elem.bare_shown]
  | .dict _ key value => by simp [TypeExpr.bare, key.bare_shown, value.bare_shown]
  | .tuple _ elems => by simp [TypeExpr.bare, Shown.listed (typeTexts_shown elems)]
  | .func _ _ params none => by simp [TypeExpr.bare, Shown.listed (typeTexts_shown params)]
  | .func _ _ params (some ret) => by
    simp [TypeExpr.bare, Shown.listed (typeTexts_shown params), ret.bare_shown]
  | .qualified _ .ref inner => by simp [TypeExpr.bare, inner.bare_shown]
  | .qualified _ .maybe inner => by simp [TypeExpr.bare, inner.bare_shown]

theorem typeTexts_shown : ∀ ts : List TypeExpr, ∀ text ∈ typeTexts ts, Shown text
  | [] => by simp [typeTexts]
  | t :: rest => by
    simp only [typeTexts, List.forall_mem_cons, Shown.parens_iff]
    exact ⟨t.bare_shown, typeTexts_shown rest⟩

end

theorem TypeExpr.text_shown (t : TypeExpr) : Shown t.text := Shown.parens_iff.mpr t.bare_shown

theorem annotationText_shown (o : Option TypeExpr) : Shown (annotationText o) := by
  cases o <;> simp [annotationText, TypeExpr.text_shown]

theorem Param.text_shown (p : Param) : Shown p.text := by
  rw [Param.text]
  split <;> simp [annotationText_shown]

theorem VarDecl.text_shown (d : VarDecl) : Shown d.text := by
  simp [VarDecl.text, annotationText_shown]

theorem ConstDecl.text_shown (d : ConstDecl) : Shown d.text := by
  simp [ConstDecl.text, annotationText_shown]

theorem params_shown (params : List Param) : Shown (Frontend.listed (params.map Param.text)) :=
  Shown.listed (List.forall_mem_map.mpr fun p _ => p.text_shown)

theorem declsText_shown (decls : List VarDecl) : Shown (declsText decls) := by
  rw [declsText, Shown.cons_iff]
  exact ⟨Shown.sign _, Shown.listed (List.forall_mem_map.mpr fun d _ => d.text_shown)⟩

theorem Stmt.ending_shown (st : Stmt) : Shown st.ending := by
  cases st <;> simp [ending]

mutual

theorem Expr.bare_shown : ∀ e : Expr, Shown (e.bare σ)
  | .literal _ value => by
    rw [Expr.bare]
    exact Spelling.lexemes_shown value
  | .varRef .. => by simp [Expr.bare]
  | .array _ elems => by simp [Expr.bare, Shown.listed (exprTexts_shown elems)]
  | .tuple _ elems => by simp [Expr.bare, Shown.listed (exprTexts_shown elems)]
  | .dict _ entries => by simp [Expr.bare, Shown.listed (entryTexts_shown entries)]
  | .member _ receiver _ => by simp [Expr.bare, receiver.bare_shown]
  | .index _ receiver index => by simp [Expr.bare, receiver.bare_shown, index.bare_shown]
  | .call _ callee args => by
    simp [Expr.bare, callee.bare_shown, Shown.listed (exprTexts_shown args)]
  | .unary _ _ operand => by simp [Expr.bare, operand.bare_shown]
  | .binary _ _ lhs rhs => by simp [Expr.bare, lhs.bare_shown, rhs.bare_shown]
  | .cast _ value type => by simp [Expr.bare, value.bare_shown, type.text_shown]
  | .typed _ value type => by simp [Expr.bare, value.bare_shown, type.text_shown]
  | .ifElse _ _ condition thenValue elseValue => by
    simp [Expr.bare, condition.bare_shown, thenValue.bare_shown, elseValue.bare_shown]
  | .range _ first last _ => by simp [Expr.bare, first.bare_shown, last.bare_shown]
  | .lambda _ d => by simp [Expr.bare, d.lambdaText_shown]

theorem exprTexts_shown : ∀ es : List Expr, ∀ text ∈ exprTexts σ es, Shown text
  | [] => by simp [exprTexts]
  | e :: rest => by
    simp only [exprTexts, List.forall_mem_cons, Shown.parens_iff]
    exact ⟨e.bare_shown, exprTexts_shown rest⟩

theorem entryTexts_shown :
    ∀ entries : List (Expr × Expr), ∀ text ∈ entryTexts σ entries, Shown text
  | [] => by simp [entryTexts]
  | (key, value) :: rest => by
    simp only [entryTexts, List.forall_mem_cons]
    exact ⟨by simp [key.bare_shown, value.bare_shown], entryTexts_shown rest⟩

theorem FuncDef.lambdaText_shown : ∀ d : FuncDef, Shown (d.lambdaText σ)
  | ⟨_, _, _, params, _, body, _⟩ => by
    simp [FuncDef.lambdaText, paramsText, params_shown params, body.text_shown]

theorem Block.text_shown : ∀ b : Block, Shown (b.text σ)
  | ⟨_, stmts⟩ => by simp [Block.text, stmtsText_shown stmts]

theorem blockText_shown (keyword : TokenKind) : ∀ o : Option Block, Shown (blockText σ keyword o)
  | none => by simp [blockText]
  | some b => by simp [blockText, b.text_shown]

theorem Init.text_shown : ∀ i : Init, Shown (i.text σ)
  | ⟨_, decls, []⟩ => by simp [Init.text, declsText_shown decls]
  | ⟨_, decls, value :: values⟩ => by
    rw [Init.text, Shown.append_iff, Shown.cons_iff]
    exact ⟨declsText_shown decls, Shown.sign _, Shown.listed (exprTexts_shown (value :: values))⟩

theorem Stmt.bare_shown : ∀ st : Stmt, Shown (st.bare σ)
  | .init i => by simp [Stmt.bare, i.text_shown]
  | .assign _ targets _ values => by
    simp [Stmt.bare, Shown.listed (exprTexts_shown targets), Shown.listed (exprTexts_shown values)]
  | .ifElse _ _ condition thenBlock elseifs elseBlock => by
    simp [Stmt.bare, condition.bare_shown, thenBlock.text_shown, armsText_shown _ elseifs,
      blockText_shown _ elseBlock]
  | .ret _ values => by simp [Stmt.bare, Shown.listed (exprTexts_shown values)]
  | .case _ whens elseBlock => by
    simp [Stmt.bare, armsText_shown _ whens, blockText_shown _ elseBlock]
  | .switch _ target whens elseBlock => by
    simp [Stmt.bare, target.bare_shown, valueArmsText_shown whens, blockText_shown _ elseBlock]
  | .forIn _ vars range body => by
    simp [Stmt.bare, params_shown vars, range.bare_shown, body.text_shown]
  | .whileDo _ condition body => by simp [Stmt.bare, condition.bare_shown, body.text_shown]
  | .guarded _ body _ condition => by simp [Stmt.bare, body.bare_shown, condition.bare_shown]
  | .letIn _ inits child => by
    simp [Stmt.bare, initsText_shown inits, child.bare_shown, child.ending_shown]
  | .expr value => by simp [Stmt.bare, value.bare_shown]

theorem stmtsText_shown : ∀ ss : List Stmt, Shown (stmtsText σ ss)
  | [] => by simp [stmtsText]
  | st :: rest => by
    simp [stmtsText, st.bare_shown, st.ending_shown, stmtsText_shown rest]

theorem initsText_shown : ∀ inits : List Init, Shown (initsText σ inits)
  | [] => by simp [initsText]
  | [i] => by simp [initsText, i.text_shown]
  | i :: next :: rest => by simp [initsText, i.text_shown, initsText_shown (next :: rest)]

theorem armsText_shown (keyword : TokenKind) :
    ∀ arms : List (Expr × Block), Shown (armsText σ keyword arms)
  | [] => by simp [armsText]
  | (condition, block) :: rest => by
    simp [armsText, condition.bare_shown, block.text_shown, armsText_shown keyword rest]

theorem valueArmsText_shown : ∀ arms : List (List Expr × Block), Shown (valueArmsText σ arms)
  | [] => by simp [valueArmsText]
  | (values, block) :: rest => by
    simp [valueArmsText, Shown.listed (exprTexts_shown values), block.text_shown,
      valueArmsText_shown rest]

end

theorem Expr.text_shown (e : Expr) : Shown (e.text σ) := Shown.parens_iff.mpr e.bare_shown

theorem Definition.text_shown (d : Definition) : Shown (d.text σ) := by
  cases d with
  | function d =>
    simp [Definition.text, FuncDef.text, paramsText, params_shown d.params, annotationText_shown,
      d.body.text_shown, blockText_shown]
  | constant d =>
    simp [Definition.text, ConstDef.text,
      Shown.listed (List.forall_mem_map.mpr fun c _ => ConstDecl.text_shown c),
      Shown.listed (List.forall_mem_map.mpr fun e _ => Expr.text_shown e)]

/-- The rendering of a program as tokens. -/
def Program.rendered (σ : Spelling) (p : Program) : List Token := (p.text σ).map Lexeme.token

theorem Program.rendered_lexemes (p : Program) :
    (p.rendered σ).map Token.lexeme = p.text σ := by
  refine Shown.lexemes ?_
  rw [Program.text, Shown.append_iff]
  refine ⟨fun l hl => ?_, by simp⟩
  obtain ⟨d, _, hd⟩ := List.mem_flatMap.mp hl
  exact d.text_shown l hd

end Frontend
