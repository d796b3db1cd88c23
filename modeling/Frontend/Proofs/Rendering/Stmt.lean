import Frontend.Parser.Stmt
import Frontend.Proofs.Rendering.Expr

/-!
# Reading rendered statements

A statement is read back where neither `elseif` nor `else` follows. A text nested in another is
shorter than it, so the readers of depth `n` read back every text shorter than `n`.
-/

namespace Frontend

section

variable (σ : Spelling)

theorem blockText_eq (keyword : TokenKind) (o : Option Block) :
    blockText σ keyword o = (o.map fun b => sign keyword :: b.text σ).getD [] := by
  cases o <;> rw [blockText] <;> rfl

@[simp] theorem stmtsText_eq (ss : List Stmt) : stmtsText σ ss = ss.flatMap (Stmt.text σ) := by
  induction ss with
  | nil => rw [stmtsText, List.flatMap_nil]
  | cons st rest ih => rw [stmtsText, ih, List.flatMap_cons, Stmt.text]

@[simp] theorem armsText_eq (keyword : TokenKind) (arms : List (Expr × Block)) :
    armsText σ keyword arms =
      arms.flatMap fun a => sign keyword :: (a.1.text σ ++ a.2.text σ) := by
  induction arms with
  | nil => rw [armsText, List.flatMap_nil]
  | cons a rest ih => rw [armsText, ih, List.flatMap_cons, Expr.text]

@[simp] theorem valueArmsText_eq (arms : List (List Expr × Block)) :
    valueArmsText σ arms =
      arms.flatMap fun a => sign .when :: (listed (a.1.map (Expr.text σ)) ++ a.2.text σ) := by
  induction arms with
  | nil => rw [valueArmsText, List.flatMap_nil]
  | cons a rest ih => rw [valueArmsText, ih, List.flatMap_cons, exprTexts_eq]

/-- An initialize statement, with what assigns its values if there are any. -/
theorem Init.text_eq (i : Init) :
    i.text σ = declsText i.decls ++
      if i.values = [] then [] else sign .assignment :: listed (i.values.map (Expr.text σ)) := by
  obtain ⟨info, decls, values⟩ := i
  cases values with
  | nil => rw [Init.text, if_pos rfl, List.append_nil]
  | cons value values => rw [Init.text, if_neg (List.cons_ne_nil _ _), exprTexts_eq]

theorem length_le_flatMap {α : Type} (render : α → List Lexeme) {a : α} {as : List α}
    (h : a ∈ as) : (render a).length ≤ (as.flatMap render).length := by
  induction as with
  | nil => cases h
  | cons b rest ih =>
    rw [List.flatMap_cons, List.length_append]
    rcases List.mem_cons.mp h with rfl | h
    · exact Nat.le_add_right _ _
    · exact Nat.le_trans (ih h) (Nat.le_add_left _ _)

/-- A text for each item makes a text that is not shorter than the list. -/
theorem length_le_length_flatMap {α : Type} (render : α → List Lexeme) (as : List α)
    (h : ∀ a, render a ≠ []) : as.length ≤ (as.flatMap render).length := by
  induction as with
  | nil => exact Nat.zero_le _
  | cons a rest ih =>
    have hpos := List.length_pos_iff.mpr (h a)
    rw [List.flatMap_cons, List.length_append, List.length_cons]
    omega

/-- The tokens that a statement cannot begin with, though they may stand behind one. -/
def BeginsNone (k : TokenKind) : Prop :=
  k = .closeCurly ∨ k = .eof ∨ k = .elseif ∨ k = .else

instance (k : TokenKind) : Decidable (BeginsNone k) :=
  inferInstanceAs (Decidable (k = .closeCurly ∨ k = .eof ∨ k = .elseif ∨ k = .else))

theorem Init.text_begins (i : Init) :
    Parse.Begins (fun k => k = .var ∨ k = .val) (i.text σ) := by
  rw [i.text_eq σ, declsText]
  cases i.decls.any (·.isVar) with
  | true => exact ⟨.var, "", _, rfl, .inl rfl⟩
  | false => exact ⟨.val, "", _, rfl, .inr rfl⟩

theorem Stmt.bare_begins (st : Stmt) : Parse.Begins (¬ BeginsNone ·) (st.bare σ) := by
  cases st with
  | init i =>
    obtain ⟨k, v, rest, h, hk⟩ := i.text_begins σ
    rw [bare]
    exact ⟨k, v, rest, h, by rcases hk with rfl | rfl <;> decide⟩
  | assign _ targets op =>
    rw [bare, exprTexts_eq]
    rcases targets with _ | ⟨target, _ | ⟨next, targets⟩⟩
    · refine ⟨assignmentToken op, "", _, rfl, ?_⟩
      unfold assignmentToken
      split <;> decide
    · exact ⟨.openParen, "", _, rfl, by decide⟩
    · exact ⟨.openParen, "", _, rfl, by decide⟩
  | ifElse _ kind => exact ⟨kind.token, "", _, by rw [bare]; rfl, by cases kind <;> decide⟩
  | ret => exact ⟨.return, "", _, by rw [bare]; rfl, by decide⟩
  | case | switch => exact ⟨.case, "", _, by rw [bare]; rfl, by decide⟩
  | forIn => exact ⟨.for, "", _, by rw [bare]; rfl, by decide⟩
  | whileDo => exact ⟨.while, "", _, by rw [bare]; rfl, by decide⟩
  | guarded _ body =>
    obtain ⟨k, v, rest, h, hk⟩ := body.bare_begins
    exact ⟨k, v, _, by rw [bare, h]; rfl, hk⟩
  | letIn => exact ⟨.let, "", _, by rw [bare]; rfl, by decide⟩
  | expr => exact ⟨.openParen, "", _, by rw [bare]; rfl, by decide⟩

theorem Stmt.text_begins (st : Stmt) : Parse.Begins (¬ BeginsNone ·) (st.text σ) := by
  obtain ⟨k, v, rest, h, hk⟩ := st.bare_begins σ
  exact ⟨k, v, _, by rw [Stmt.text, h]; rfl, hk⟩

/-- A block, with whatever follows it, begins with a brace. -/
theorem Block.text_then (b : Block) (more : List Lexeme) {ok : TokenKind → Prop}
    (hopen : ok .openCurly) : Parse.Begins ok (b.text σ ++ more) := by
  cases b
  exact ⟨.openCurly, "", _, by rw [Block.text]; rfl, hopen⟩

/-- An optional block begins with its keyword, and without one the rest begins. -/
theorem blockText_then (keyword : TokenKind) (o : Option Block) {next : List Lexeme}
    {ok : TokenKind → Prop} (hkeyword : ok keyword) (hnext : Parse.Begins ok next) :
    Parse.Begins ok (blockText σ keyword o ++ next) := by
  cases o with
  | none =>
    rw [blockText]
    exact hnext
  | some b => exact ⟨keyword, "", _, by rw [blockText]; rfl, hkeyword⟩

end

/-- The tokens behind a simple statement. -/
def EndsSimple (k : TokenKind) : Prop := k = .semicolon ∨ k = .if ∨ k = .unless

/-- The tokens behind an initialize statement. -/
def EndsInit (k : TokenKind) : Prop := EndsSimple k ∨ k = .in

theorem EndsInit.endsList {k : TokenKind} (h : EndsInit k) :
    k.operator? = none ∧ k ≠ .comma := by
  rcases h with (rfl | rfl | rfl) | rfl <;> exact ⟨rfl, by decide⟩

theorem EndsInit.ne_assignment {k : TokenKind} (h : EndsInit k) : k ≠ .assignment := by
  rcases h with (rfl | rfl | rfl) | rfl <;> decide

theorem EndsInit.endsDecl {k : TokenKind} (h : EndsInit k) :
    (k ≠ .question ∧ k ≠ .colon) ∧ k ≠ .comma := by
  rcases h with (rfl | rfl | rfl) | rfl <;> decide

theorem EndsSimple.compoundOp? {k : TokenKind} (h : EndsSimple k) : k.compoundOp? = none := by
  rcases h with rfl | rfl | rfl <;> rfl

theorem IfKind.endsSimple_token (kind : IfKind) : EndsSimple kind.token := by
  cases kind
  · exact .inr (.inl rfl)
  · exact .inr (.inr rfl)

theorem assignmentToken_endsList (op : Option BinaryOp) :
    (assignmentToken op).operator? = none ∧ assignmentToken op ≠ .comma := by
  unfold assignmentToken
  split <;> exact ⟨rfl, by decide⟩

theorem compoundOp?_assignmentToken {op : Option BinaryOp} (h : ∀ o ∈ op, o.isArithmetic = true) :
    (assignmentToken op).compoundOp? = op := by
  rcases op with _ | o
  · rfl
  · have ho := h o rfl
    cases o <;> first | rfl | cases ho

theorem assignmentToken_assigns (op : Option BinaryOp) :
    assignmentToken op = .assignment ∨ op.isSome = true := by
  cases op with
  | none => exact .inl rfl
  | some o => exact .inr rfl

namespace Parse

/-! ### Declared names -/

theorem varDecl_recovers {d : VarDecl} (hd : d.Written) :
    Recovers (varDecl d.isVar) d.text (fun k => k ≠ .question ∧ k ≠ .colon)
      fun b => b.erase = d.erase := by
  intro s k v more hk hs
  refine .bind (position_yields (.bind (name_yields hs fun t ht => ?_)))
  refine .bind ((optionalType_recovers hd hk ht).imp fun type u _ hu => ?_)
  refine .bind (infoFrom_yields fun info w hw => .pure ⟨hw.trans hu.1, ?_⟩)
  simp only [VarDecl.erase, hu.2]

/-- Declared names behind their keyword, which says whether they can be assigned. -/
theorem varDecls_recovers {decls : List VarDecl} {isVar : Bool} (hne : decls ≠ [])
    (hvar : ∀ d ∈ decls, d.isVar = isVar) (hdecls : ∀ d ∈ decls, d.Written) :
    Recovers (bounded (commaList (varDecl isVar))) (listed (decls.map VarDecl.text))
      (fun k => (k ≠ .question ∧ k ≠ .colon) ∧ k ≠ .comma)
      fun ds => ds.map VarDecl.erase = decls.map VarDecl.erase := by
  refine bounded_recovers fun n hn => ?_
  have hcount := length_le_listed decls fun d => show d.text ≠ [] from List.cons_ne_nil _ _
  refine commaList_recovers _ hne (by omega) (by decide) fun d hd => ?_
  rw [← hvar d hd]
  exact varDecl_recovers (hdecls d hd)

/-- The keyword of declared names. -/
theorem any_isVar {decls : List VarDecl} {isVar : Bool} (hne : decls ≠ [])
    (hvar : ∀ d ∈ decls, d.isVar = isVar) : decls.any (·.isVar) = isVar := by
  cases isVar with
  | true =>
    obtain ⟨d, hd⟩ := List.exists_mem_of_ne_nil decls hne
    exact List.any_eq_true.mpr ⟨d, hd, hvar d hd⟩
  | false => exact List.any_eq_false.mpr fun d hd => by rw [hvar d hd]; exact Bool.false_ne_true

section

variable {σ : Spelling} {g : Nested} {m : Nat} (h : g.Recovering σ m)
include h

theorem initStmt_recovers {i : Init} (hi : i.Written) (hm : (i.text σ).length ≤ m) :
    Recovers (initStmt g) (i.text σ) EndsInit fun b => b.erase = i.erase := by
  intro s k v more hk hs
  obtain ⟨info, decls, values⟩ := i
  rw [Init.Written] at hi
  obtain ⟨hne, ⟨isVar, hvar⟩, hdecls, htyped, hvalues⟩ := hi
  rw [Init.text_eq, declsText, any_isVar hne hvar] at hs hm
  dsimp only at hs hm
  simp only [List.cons_append, List.append_assoc] at hs
  refine .bind (advance_yields hs fun keyword t hkeyword ht => ?_)
  have hkind : decide (keyword.kind = .var) = isVar := by
    rw [show keyword.kind = _ from congrArg Prod.fst hkeyword]
    cases isVar <;> rfl
  rw [hkind]
  have htail : ∀ {ds : List VarDecl} {vs : List Expr} {u : TokenStream},
      ds.map VarDecl.erase = decls.map VarDecl.erase → vs.map Expr.erase = values.map Expr.erase →
      u.ahead = (k, v) :: more →
      Yields (do return (⟨← infoFrom keyword.span.start, ds, vs⟩ : Init) : Parse Init) u
        fun b w => w.ahead = (k, v) :: more ∧ b.erase = (⟨info, decls, values⟩ : Init).erase := by
    intro ds vs u hds hvs hu
    refine .bind (infoFrom_yields fun info w hw => .pure ⟨hw.trans hu, ?_⟩)
    simp only [Init.erase, eraseExprs_eq, hds, hvs]
  cases values with
  | nil =>
    rw [if_pos rfl, List.nil_append] at ht
    refine .bind ((varDecls_recovers hne hvar hdecls hk.endsDecl ht).imp fun ds u _ hds => ?_)
    refine .bind (eat_skips hds.1 hk.ne_assignment ?_)
    dsimp only
    rw [if_neg Bool.false_ne_true, if_neg ?_]
    · exact .bind (.pure (htail hds.2 rfl hds.1))
    · intro hany
      obtain ⟨d', hd', hnone⟩ := List.any_eq_true.mp hany
      have herased : d'.erase ∈ decls.map VarDecl.erase := hds.2 ▸ List.mem_map_of_mem hd'
      obtain ⟨d, hd, heq⟩ := List.mem_map.mp herased
      have htype := congrArg (fun d => d.type.isSome) heq
      simp only [VarDecl.erase, Option.isSome_map, htyped rfl d hd] at htype
      rw [Option.isNone_iff_eq_none.mp hnone] at htype
      cases htype
  | cons value values =>
    rw [if_neg (List.cons_ne_nil _ _)] at ht hm
    simp only [List.length_append, List.length_cons] at hm
    refine .bind ((varDecls_recovers hne hvar hdecls (k := .assignment) (by decide) ht).imp
      fun ds u _ hds => ?_)
    refine .bind (eat_yields hds.1 fun w hw => ?_)
    dsimp only
    rw [if_pos rfl]
    refine .bind ((exprList_recovers h (List.cons_ne_nil _ _) hvalues (by omega)
      hk.endsList hw).imp fun vs x _ hvs => ?_)
    exact htail hds.2 hvs.2 hvs.1

/-! ### Simple statements -/

theorem returnStmt_recovers {info : NodeInfo} {values : List Expr} (hvalues : exprsWritten values)
    (hm : ((Stmt.ret info values).bare σ).length ≤ m) :
    Recovers (returnStmt g) ((Stmt.ret info values).bare σ) EndsSimple
      fun b => b.erase = (Stmt.ret info values).erase := by
  intro s k v more hk hs
  simp only [Stmt.bare, exprTexts_eq, List.length_cons] at hm
  simp only [Stmt.bare, exprTexts_eq, List.cons_append] at hs
  refine .bind (advance_yields hs fun keyword t _ ht => ?_)
  have htail : ∀ {vs : List Expr} {u : TokenStream}, vs.map Expr.erase = values.map Expr.erase →
      u.ahead = (k, v) :: more →
      Yields (do return Stmt.ret (← infoFrom keyword.span.start) vs : Parse Stmt) u
        fun b w => w.ahead = (k, v) :: more ∧ b.erase = (Stmt.ret info values).erase := by
    intro vs u hvs hu
    refine .bind (infoFrom_yields fun info w hw => .pure ⟨hw.trans hu, ?_⟩)
    simp only [Stmt.erase, eraseExprs_eq, hvs]
  cases values with
  | nil =>
    refine .bind (kind_yields ht ?_)
    rcases hk with rfl | rfl | rfl <;> exact .bind (.pure (htail rfl ht))
  | cons value values =>
    have hhead : t.ahead = sign .openParen :: t.ahead.tail := by
      rw [ht]
      cases values <;> rfl
    refine .bind (kind_yields hhead ?_)
    exact .bind ((exprList_recovers h (List.cons_ne_nil _ _) hvalues (by omega)
      (EndsInit.endsList (.inl hk)) ht).imp fun vs u _ hvs => htail hvs.2 hvs.1)

omit h in
/-- What is read where targets stand gives the targets when it is marked. -/
theorem map_asTarget {targets bs : List Expr} (htargets : ∀ e ∈ targets, e.asTarget = e)
    (hbs : bs.map Expr.erase = (targets.map Expr.unmarked).map Expr.erase) :
    (bs.map Expr.asTarget).map Expr.erase = targets.map Expr.erase := by
  calc (bs.map Expr.asTarget).map Expr.erase
      = (bs.map Expr.erase).map Expr.asTarget := by
        simp only [List.map_map, Function.comp_def, Expr.erase_asTarget]
    _ = targets.map fun e => e.unmarked.asTarget.erase := by
        rw [hbs]
        simp only [List.map_map, Function.comp_def, Expr.erase_asTarget]
    _ = targets.map Expr.erase :=
        List.map_congr_left fun e he => by rw [Expr.asTarget_unmarked (htargets e he)]

omit h in
theorem text_unmarked (e : Expr) : e.unmarked.text σ = e.text σ := by
  cases e <;> rfl

theorem assign_recovers {info : NodeInfo} {targets values : List Expr} {op : Option BinaryOp}
    (hst : (Stmt.assign info targets op values).Written)
    (hm : ((Stmt.assign info targets op values).bare σ).length ≤ m) :
    Recovers (exprOrAssign g) ((Stmt.assign info targets op values).bare σ) EndsSimple
      fun b => b.erase = (Stmt.assign info targets op values).erase := by
  intro s k v more hk hs
  rw [Stmt.Written] at hst
  obtain ⟨hne, hvne, hop, htargets, hvalues⟩ := hst
  rw [targetsWritten_iff] at htargets
  have htext : targets.map (Expr.text σ) = (targets.map Expr.unmarked).map (Expr.text σ) := by
    simp only [List.map_map, Function.comp_def, text_unmarked]
  have hunmarked : exprsWritten (targets.map Expr.unmarked) := by
    rw [exprsWritten_iff, List.forall_mem_map]
    exact fun e he => Expr.unmarked_written (htargets e he).2
  simp only [Stmt.bare, exprTexts_eq, htext, List.length_append, List.length_cons] at hm
  simp only [Stmt.bare, exprTexts_eq, htext, List.append_assoc, List.cons_append] at hs
  refine .bind (position_yields ?_)
  refine .bind ((exprList_recovers h (mt List.map_eq_nil_iff.mp hne) hunmarked (by omega)
    (assignmentToken_endsList op) hs).imp fun bs t _ hbs => ?_)
  refine .bind (kind_yields hbs.1 ?_)
  dsimp only
  rw [compoundOp?_assignmentToken fun o ho => (hop o ho).1, if_pos (assignmentToken_assigns op)]
  refine .bind (advance_yields hbs.1 fun _ u _ hu => ?_)
  refine .bind ((exprList_recovers h hvne hvalues (by omega) (EndsInit.endsList (.inl hk)) hu).imp
    fun vs w _ hvs => ?_)
  have hlength : ∀ {as bs : List Expr}, as.map Expr.erase = bs.map Expr.erase →
      as.length = bs.length := fun heq => by
    have := congrArg List.length heq
    rwa [List.length_map, List.length_map] at this
  rw [if_neg ?_]
  · refine .bind (infoFrom_yields fun info x hx => .pure ⟨hx.trans hvs.1, ?_⟩)
    simp only [Stmt.erase, eraseExprs_eq, hvs.2,
      map_asTarget (fun e he => (htargets e he).1) hbs.2]
  · rintro ⟨hsome, hmany⟩
    obtain ⟨o, ho⟩ := Option.isSome_iff_exists.mp hsome
    obtain ⟨-, hone, hone'⟩ := hop o ho
    rw [hlength hbs.2, List.length_map, hlength hvs.2] at hmany
    omega

theorem exprStmt_recovers {e : Expr} (he : e.Written) (hm : (e.text σ).length < m) :
    Recovers (exprOrAssign g) (e.text σ) EndsSimple fun b => b.erase = (Stmt.expr e).erase := by
  intro s k v more hk hs
  refine .bind (position_yields ?_)
  have hlist := exprList_recovers h (List.cons_ne_nil e [])
    ((exprsWritten_iff _).mpr (List.forall_mem_singleton.mpr he)) hm
  refine .bind ((hlist (EndsInit.endsList (.inl hk)) hs).imp fun bs t _ hbs => ?_)
  refine .bind (kind_yields hbs.1 ?_)
  dsimp only
  rw [hk.compoundOp?, if_neg ?_]
  · obtain ⟨b, rfl, hb⟩ := List.map_eq_singleton_iff.mp hbs.2
    refine .pure ⟨hbs.1, ?_⟩
    rw [Stmt.erase, Stmt.erase, hb]
  · rintro (rfl | hsome)
    · rcases hk with hk | hk | hk <;> cases hk
    · cases hsome

/-- The production that reads what a condition may stand behind. -/
def simpleReader (g : Nested) : Stmt → Parse Stmt
  | .init _ => do return .init (← initStmt g)
  | .ret .. => returnStmt g
  | _ => exprOrAssign g

theorem simpleReader_recovers {st : Stmt} (hsimple : st.isSimple = true) (hst : st.Written)
    (hm : (st.bare σ).length < m) :
    Recovers (simpleReader g st) (st.bare σ) EndsSimple fun b => b.erase = st.erase := by
  cases st with
  | init i =>
    intro s k v more hk hs
    rw [Stmt.Written] at hst
    rw [Stmt.bare] at hs hm
    refine .bind ((initStmt_recovers h hst (Nat.le_of_lt hm) (.inl hk) hs).imp
      fun b t _ hb => .pure ⟨hb.1, ?_⟩)
    simp only [Stmt.erase, hb.2]
  | assign => exact assign_recovers h hst (Nat.le_of_lt hm)
  | ret =>
    rw [Stmt.Written] at hst
    exact returnStmt_recovers h hst (Nat.le_of_lt hm)
  | expr e =>
    rw [Stmt.Written] at hst
    rw [Stmt.bare] at hm ⊢
    exact exprStmt_recovers h hst hm
  | _ => cases hsimple

omit h in
/-- The first token of a simple statement tells which production reads it. -/
theorem stmtWith_simple {st : Stmt} (hsimple : st.isSimple = true) (hst : st.Written)
    {s : TokenStream} {more : List Lexeme} {post : Stmt → TokenStream → Prop}
    (hs : s.ahead = st.bare σ ++ more)
    (hp : Yields (simpleStmt g (simpleReader g st)) s post) : Yields (stmtWith g) s post := by
  cases st with
  | init i =>
    obtain ⟨k, v, rest, htext, hk⟩ := i.text_begins σ
    rw [Stmt.bare, htext] at hs
    refine .bind (kind_yields hs ?_)
    rcases hk with rfl | rfl <;> exact hp
  | assign info targets op values =>
    rw [Stmt.Written] at hst
    have hhead : s.ahead = sign .openParen :: s.ahead.tail := by
      rw [hs, Stmt.bare, exprTexts_eq]
      rcases targets with _ | ⟨target, _ | ⟨next, targets⟩⟩
      · exact absurd rfl hst.1
      · rfl
      · rfl
    exact .bind (kind_yields hhead hp)
  | ret info values =>
    have hhead : s.ahead = sign .return :: s.ahead.tail := by rw [hs, Stmt.bare]; rfl
    exact .bind (kind_yields hhead hp)
  | expr e =>
    have hhead : s.ahead = sign .openParen :: s.ahead.tail := by rw [hs, Stmt.bare]; rfl
    exact .bind (kind_yields hhead hp)
  | _ => cases hsimple

theorem simpleStmt_recovers {st : Stmt} (hsimple : st.isSimple = true) (hst : st.Written)
    (hm : (st.text σ).length < m + 1) :
    Recovers (stmtWith g) (st.text σ) (fun _ => True) fun b => b.erase = st.erase := by
  intro s k v more _ hs
  have hending : st.ending = [sign .semicolon] := by
    cases st <;> first | rfl | cases hsimple
  rw [Stmt.text, hending, List.length_append, List.length_singleton] at hm
  rw [Stmt.text, hending, List.append_assoc, List.singleton_append] at hs
  refine stmtWith_simple hsimple hst hs (.bind (position_yields ?_))
  refine .bind ((simpleReader_recovers h hsimple hst (by omega) (.inl rfl) hs).imp
    fun b t _ hb => ?_)
  refine .bind (.bind (kind_yields hb.1 (.pure ?_)))
  exact .bind (expect_yields hb.1 fun _ u _ hu => .pure ⟨hu, hb.2⟩)

theorem guarded_recovers {info : NodeInfo} {body : Stmt} {kind : IfKind} {condition : Expr}
    (hst : (Stmt.guarded info body kind condition).Written)
    (hm : ((Stmt.guarded info body kind condition).text σ).length < m + 1) :
    Recovers (stmtWith g) ((Stmt.guarded info body kind condition).text σ) (fun _ => True)
      fun b => b.erase = (Stmt.guarded info body kind condition).erase := by
  intro s k v more _ hs
  rw [Stmt.Written] at hst
  obtain ⟨hsimple, hbody, hcondition⟩ := hst
  simp only [Stmt.text, Stmt.bare, Stmt.ending, Expr.parens_bare, List.length_append,
    List.length_cons] at hm
  simp only [Stmt.text, Stmt.bare, Stmt.ending, Expr.parens_bare, List.append_assoc,
    List.cons_append, List.nil_append] at hs
  refine stmtWith_simple hsimple hbody hs (.bind (position_yields ?_))
  refine .bind ((simpleReader_recovers h hsimple hbody (by omega) kind.endsSimple_token hs).imp
    fun b t _ hb => ?_)
  refine .bind (.bind (kind_yields hb.1 ?_))
  have hguard : Yields (do
      let _ ← advance
      let condition ← g.expr .default
      return Stmt.guarded (← infoFrom s.position) b kind condition : Parse Stmt) t
      fun c u => Yields (do
        let _ ← expect .semicolon
        return c : Parse Stmt) u fun c w => w.ahead = (k, v) :: more ∧
          c.erase = (Stmt.guarded info body kind condition).erase := by
    refine .bind (advance_yields hb.1 fun _ u _ hu => ?_)
    refine .bind ((h.text hcondition (by omega) .default rfl hu).imp fun c w _ hc => ?_)
    refine .bind (infoFrom_yields fun info x hx => .pure ?_)
    refine .bind (expect_yields (hx.trans hc.1) fun _ y _ hy => .pure ⟨hy, ?_⟩)
    simp only [Stmt.erase, hb.2, hc.2]
  cases kind <;> exact hguard

/-! ### Statements with blocks -/

theorem arm_recovers {condition : Expr} {body : Block} (hcondition : condition.Written)
    (hbody : body.Written) (hm : (condition.text σ ++ body.text σ).length < m) :
    Recovers (arm g) (condition.text σ ++ body.text σ) (fun _ => True)
      fun a => (a.1.erase, a.2.erase) = (condition.erase, body.erase) := by
  intro s k v more _ hs
  rw [List.length_append] at hm
  rw [List.append_assoc] at hs
  have hread := h.text hcondition (by omega) .default
  refine .bind ((hread.before (body.text_then σ _ rfl) hs).imp fun c t _ hc => ?_)
  refine .bind ((h.block hbody (by omega) trivial hc.1).imp fun b u _ hb => .pure ⟨hb.1, ?_⟩)
  exact Prod.ext hc.2 hb.2

theorem valueArm_recovers {values : List Expr} {body : Block} (hne : values ≠ [])
    (hvalues : exprsWritten values) (hbody : body.Written)
    (hm : (listed (values.map (Expr.text σ)) ++ body.text σ).length < m) :
    Recovers (valueArm g) (listed (values.map (Expr.text σ)) ++ body.text σ) (fun _ => True)
      fun a => (a.1.map Expr.erase, a.2.erase) = (values.map Expr.erase, body.erase) := by
  intro s k v more _ hs
  rw [List.length_append] at hm
  rw [List.append_assoc] at hs
  have hread := exprList_recovers h hne hvalues (by omega)
  refine .bind ((hread.before (body.text_then σ _ ⟨rfl, by decide⟩) hs).imp fun vs t _ hvs => ?_)
  refine .bind ((h.block hbody (by omega) trivial hvs.1).imp fun b u _ hb => .pure ⟨hb.1, ?_⟩)
  exact Prod.ext hvs.2 hb.2

theorem arms_recovers (keyword : TokenKind) {arms : List (Expr × Block)} (harms : armsWritten arms)
    (hm : (armsText σ keyword arms).length ≤ m) :
    Recovers (bounded (introduced keyword (arm g))) (armsText σ keyword arms) (· ≠ keyword)
      fun bs => bs.map (fun a => (a.1.erase, a.2.erase)) =
        arms.map fun a => (a.1.erase, a.2.erase) := by
  rw [armsText_eq] at hm ⊢
  refine bounded_recovers fun n hn => ?_
  have hcount := length_le_length_flatMap
    (fun a : Expr × Block => sign keyword :: (a.1.text σ ++ a.2.text σ)) arms
    fun _ => List.cons_ne_nil _ _
  intro s k v more hk hs
  refine introduced_recovers (fun _ => True) (by omega) trivial (fun a ha => ?_) ⟨trivial, hk⟩ hs
  have hle := length_le_flatMap
    (fun a : Expr × Block => sign keyword :: (a.1.text σ ++ a.2.text σ)) ha
  rw [List.length_cons] at hle
  obtain ⟨hcondition, hbody⟩ := (armsWritten_iff arms).mp harms a ha
  exact arm_recovers h hcondition hbody (by omega)

theorem valueArms_recovers {arms : List (List Expr × Block)} (harms : valueArmsWritten arms)
    (hm : (valueArmsText σ arms).length ≤ m) :
    Recovers (bounded (introduced .when (valueArm g))) (valueArmsText σ arms) (· ≠ .when)
      fun bs => bs.map (fun a => (a.1.map Expr.erase, a.2.erase)) =
        arms.map fun a => (a.1.map Expr.erase, a.2.erase) := by
  rw [valueArmsText_eq] at hm ⊢
  refine bounded_recovers fun n hn => ?_
  have hcount := length_le_length_flatMap
    (fun a : List Expr × Block => sign .when :: (listed (a.1.map (Expr.text σ)) ++ a.2.text σ))
    arms fun _ => List.cons_ne_nil _ _
  intro s k v more hk hs
  refine introduced_recovers (fun _ => True) (by omega) trivial (fun a ha => ?_) ⟨trivial, hk⟩ hs
  have hle := length_le_flatMap
    (fun a : List Expr × Block => sign .when :: (listed (a.1.map (Expr.text σ)) ++ a.2.text σ)) ha
  rw [List.length_cons] at hle
  obtain ⟨⟨hne, hvalues⟩, hblock⟩ := (valueArmsWritten_iff arms).mp harms a ha
  exact valueArm_recovers h hne hvalues hblock (by omega)

/-- A block behind a keyword, if there is one. -/
theorem optionalBlock_recovers (keyword : TokenKind) {o : Option Block} (ho : blockWritten o)
    (hm : (blockText σ keyword o).length ≤ m) :
    Recovers (optional keyword g.block) (blockText σ keyword o) (· ≠ keyword)
      fun b => b.map Block.erase = o.map Block.erase := by
  rw [blockText_eq] at hm ⊢
  intro s k v more hk hs
  refine optional_recovers (fun _ => True) (fun b hb => ?_) ⟨trivial, hk⟩ hs
  cases hb
  exact h.block ho hm

theorem ifStmt_recovers {info : NodeInfo} {kind : IfKind} {condition : Expr} {thenBlock : Block}
    {elseifs : List (Expr × Block)} {elseBlock : Option Block}
    (hst : (Stmt.ifElse info kind condition thenBlock elseifs elseBlock).Written)
    (hm : ((Stmt.ifElse info kind condition thenBlock elseifs elseBlock).bare σ).length < m + 1) :
    Recovers (ifStmt g kind)
      ((Stmt.ifElse info kind condition thenBlock elseifs elseBlock).bare σ)
      (fun k => k ≠ .elseif ∧ k ≠ .else)
      fun b => b.erase = (Stmt.ifElse info kind condition thenBlock elseifs elseBlock).erase := by
  intro s k v more hk hs
  rw [Stmt.Written] at hst
  obtain ⟨hcondition, hthen, helseifs, helse⟩ := hst
  simp only [Stmt.bare, Expr.parens_bare, List.length_append, List.length_cons] at hm
  simp only [Stmt.bare, Expr.parens_bare, List.append_assoc, List.cons_append] at hs
  refine .bind (advance_yields hs fun keyword t _ ht => ?_)
  rw [← List.append_assoc] at ht
  have harm := arm_recovers h hcondition hthen (by rw [List.length_append]; omega)
  have hread := arms_recovers h .elseif helseifs (by omega)
  have helse' : Begins (· ≠ .elseif) (blockText σ .else elseBlock ++ (k, v) :: more) :=
    blockText_then σ .else elseBlock (by decide) ⟨k, v, more, rfl, hk.1⟩
  have hafter : Begins (fun _ => True)
      (armsText σ .elseif elseifs ++ (blockText σ .else elseBlock ++ (k, v) :: more)) := by
    rw [armsText_eq]
    cases elseifs with
    | nil => exact helse'.imp fun _ h => h.imp fun _ h => h.imp fun _ h => ⟨h.1, trivial⟩
    | cons a rest => exact ⟨_, _, _, rfl, trivial⟩
  refine .bind ((harm.before hafter ht).imp fun a u _ ha => ?_)
  refine .bind ((hread.before helse' ha.1).imp fun as w _ has => ?_)
  refine .bind ((optionalBlock_recovers h .else helse (by omega) hk.2 has.1).imp fun b x _ hb => ?_)
  refine .bind (infoFrom_yields fun info z hz => .pure ⟨hz.trans hb.1, ?_⟩)
  obtain ⟨hcond, hbody⟩ := Prod.mk.inj ha.2
  simp only [Stmt.erase, eraseArms_eq, eraseBlock_eq, hcond, hbody, has.2, hb.2]

theorem caseStmt_recovers {info : NodeInfo} {whens : List (Expr × Block)}
    {elseBlock : Option Block} (hst : (Stmt.case info whens elseBlock).Written)
    (hm : ((Stmt.case info whens elseBlock).bare σ).length < m + 1) :
    Recovers (caseStmt g) ((Stmt.case info whens elseBlock).bare σ) (fun _ => True)
      fun b => b.erase = (Stmt.case info whens elseBlock).erase := by
  intro s k v more _ hs
  rw [Stmt.Written] at hst
  simp only [Stmt.bare, List.length_append, List.length_cons] at hm
  simp only [Stmt.bare, List.append_assoc, List.cons_append, List.nil_append] at hs
  refine .bind (advance_yields hs fun keyword t _ ht => ?_)
  refine .bind (eat_yields ht fun u hu => ?_)
  rw [if_pos rfl]
  have hread := arms_recovers h .when hst.1 (by omega)
  have hclose : Begins (· ≠ .when)
      (blockText σ .else elseBlock ++ sign .closeCurly :: (k, v) :: more) :=
    blockText_then σ .else elseBlock (by decide) ⟨_, _, _, rfl, by decide⟩
  refine .bind ((hread.before hclose hu).imp fun as w _ has => ?_)
  refine .bind ((optionalBlock_recovers h .else hst.2 (by omega) (by decide) has.1).imp
    fun b x _ hb => ?_)
  refine .bind (expect_yields hb.1 fun _ y _ hy => ?_)
  refine .bind (infoFrom_yields fun info z hz => .pure ⟨hz.trans hy, ?_⟩)
  simp only [Stmt.erase, eraseArms_eq, eraseBlock_eq, has.2, hb.2]

theorem switchStmt_recovers {info : NodeInfo} {target : Expr} {whens : List (List Expr × Block)}
    {elseBlock : Option Block} (hst : (Stmt.switch info target whens elseBlock).Written)
    (hm : ((Stmt.switch info target whens elseBlock).bare σ).length < m + 1) :
    Recovers (caseStmt g) ((Stmt.switch info target whens elseBlock).bare σ) (fun _ => True)
      fun b => b.erase = (Stmt.switch info target whens elseBlock).erase := by
  intro s k v more _ hs
  rw [Stmt.Written] at hst
  obtain ⟨htarget, hwhens, helse⟩ := hst
  simp only [Stmt.bare, Expr.parens_bare, List.length_append, List.length_cons] at hm
  simp only [Stmt.bare, Expr.parens_bare, List.append_assoc, List.cons_append,
    List.nil_append] at hs
  refine .bind (advance_yields hs fun keyword t _ ht => ?_)
  have hhead : t.ahead = sign .openParen :: t.ahead.tail := by rw [ht]; rfl
  refine .bind (eat_skips hhead (by decide) ?_)
  rw [if_neg Bool.false_ne_true]
  refine .bind ((h.text htarget (by omega) .default rfl ht).imp fun c u _ hc => ?_)
  refine .bind (expect_yields hc.1 fun _ w _ hw => ?_)
  have hread := valueArms_recovers h hwhens (by omega)
  have hclose : Begins (· ≠ .when)
      (blockText σ .else elseBlock ++ sign .closeCurly :: (k, v) :: more) :=
    blockText_then σ .else elseBlock (by decide) ⟨_, _, _, rfl, by decide⟩
  refine .bind ((hread.before hclose hw).imp fun as x _ has => ?_)
  refine .bind ((optionalBlock_recovers h .else helse (by omega) (by decide) has.1).imp
    fun b y _ hb => ?_)
  refine .bind (expect_yields hb.1 fun _ z _ hz => ?_)
  refine .bind (infoFrom_yields fun info i hi => .pure ⟨hi.trans hz, ?_⟩)
  simp only [Stmt.erase, eraseValueArms_eq, eraseBlock_eq, hc.2, has.2, hb.2]

theorem forStmt_recovers {info : NodeInfo} {vars : List Param} {range : Expr} {body : Block}
    (hst : (Stmt.forIn info vars range body).Written)
    (hm : ((Stmt.forIn info vars range body).bare σ).length < m + 1) :
    Recovers (forStmt g) ((Stmt.forIn info vars range body).bare σ) (fun _ => True)
      fun b => b.erase = (Stmt.forIn info vars range body).erase := by
  intro s k v more hk hs
  rw [Stmt.Written] at hst
  obtain ⟨hne, hvars, hrange, hbody⟩ := hst
  simp only [Stmt.bare, Expr.parens_bare, List.length_append, List.length_cons] at hm
  simp only [Stmt.bare, Expr.parens_bare, List.append_assoc, List.cons_append] at hs
  have hparams : Recovers (bounded (commaList param)) (listed (vars.map Param.text))
      (fun k => (k ≠ .question ∧ k ≠ .colon) ∧ k ≠ .comma)
      fun ps => ps.map Param.erase = vars.map Param.erase := by
    refine bounded_recovers fun n hn => ?_
    have hcount := length_le_listed vars param_text_ne_nil
    exact commaList_recovers _ hne (by omega) (by decide) fun p hp => param_recovers (hvars p hp)
  refine .bind (advance_yields hs fun keyword t _ ht => ?_)
  refine .bind ((hparams (k := .in) (by decide) ht).imp fun ps u _ hps => ?_)
  refine .bind (expect_yields hps.1 fun _ w _ hw => ?_)
  have hread := h.text hrange (by omega) .default
  refine .bind ((hread.before (body.text_then σ _ rfl) hw).imp fun c x _ hc => ?_)
  refine .bind ((h.block hbody (by omega) hk hc.1).imp fun b y _ hb => ?_)
  refine .bind (infoFrom_yields fun info z hz => .pure ⟨hz.trans hb.1, ?_⟩)
  simp only [Stmt.erase, hps.2, hc.2, hb.2]

theorem whileStmt_recovers {info : NodeInfo} {condition : Expr} {body : Block}
    (hst : (Stmt.whileDo info condition body).Written)
    (hm : ((Stmt.whileDo info condition body).bare σ).length < m + 1) :
    Recovers (whileStmt g) ((Stmt.whileDo info condition body).bare σ) (fun _ => True)
      fun b => b.erase = (Stmt.whileDo info condition body).erase := by
  intro s k v more hk hs
  rw [Stmt.Written] at hst
  simp only [Stmt.bare, Expr.parens_bare, List.length_append, List.length_cons] at hm
  simp only [Stmt.bare, Expr.parens_bare, List.append_assoc, List.cons_append] at hs
  refine .bind (advance_yields hs fun keyword t _ ht => ?_)
  have hread := h.text hst.1 (by omega) .default
  refine .bind ((hread.before (body.text_then σ _ rfl) ht).imp fun c u _ hc => ?_)
  refine .bind ((h.block hst.2 (by omega) hk hc.1).imp fun b w _ hb => ?_)
  refine .bind (infoFrom_yields fun info x hx => .pure ⟨hx.trans hb.1, ?_⟩)
  simp only [Stmt.erase, hc.2, hb.2]

/-! ### Bindings of a `let` -/

theorem letInits_recovers {inits : List Init} {n : Nat} (hne : inits ≠ []) (hn : inits.length ≤ n)
    (hinits : initsWritten inits) (hm : (initsText σ inits).length ≤ m) :
    Recovers (letInits g n) (initsText σ inits) (· = .in)
      fun is => is.map Init.erase = inits.map Init.erase := by
  intro s k v more hk hs
  subst hk
  induction inits generalizing n s with
  | nil => exact absurd rfl hne
  | cons i rest ih =>
    obtain ⟨n, rfl⟩ : ∃ p, n = p + 1 := ⟨n - 1, by rw [List.length_cons] at hn; omega⟩
    rw [initsWritten] at hinits
    obtain ⟨hi, hrest⟩ := hinits
    obtain ⟨k₁, v₁, tail, hhead, hk₁⟩ := i.text_begins σ
    have hs' : s.ahead = (k₁, v₁) :: s.ahead.tail := by
      rw [hs]
      cases rest <;> rw [initsText, hhead] <;> rfl
    have hinit : Yields (do
        let first ← initStmt g
        if ← eat .semicolon then return first :: (← letInits g n) else return [first] :
          Parse (List Init))
        s fun is t => t.ahead = (.in, v) :: more ∧
          is.map Init.erase = (i :: rest).map Init.erase := by
      cases rest with
      | nil =>
        rw [initsText] at hs hm
        refine .bind ((initStmt_recovers h hi hm (.inr rfl) hs).imp fun b t _ hb => ?_)
        exact .bind (eat_skips hb.1 (by decide) (.pure ⟨hb.1, congrArg (· :: []) hb.2⟩))
      | cons next rest =>
        rw [initsText, List.length_append, List.length_cons] at hm
        rw [initsText, List.append_assoc, List.cons_append] at hs
        refine .bind ((initStmt_recovers h hi (by omega) (.inl (.inl rfl)) hs).imp
          fun b t _ hb => ?_)
        refine .bind (eat_yields hb.1 fun u hu => ?_)
        rw [if_pos rfl]
        refine .bind ((ih (List.cons_ne_nil _ _) (Nat.le_of_succ_le_succ hn) hrest (by omega)
          hu).imp fun bs w _ hbs => .pure ⟨hbs.1, cons_view hb.2 hbs.2⟩)
    rw [letInits]
    refine .bind (kind_yields hs' ?_)
    rcases hk₁ with rfl | rfl <;> exact hinit

omit h in
/-- Each binding of a `let` has a text. -/
theorem length_le_initsText (σ : Spelling) (inits : List Init) :
    inits.length ≤ (initsText σ inits).length := by
  induction inits with
  | nil => exact Nat.zero_le _
  | cons i rest ih =>
    obtain ⟨k, v, tail, hhead, -⟩ := i.text_begins σ
    cases rest with
    | nil => simp [initsText, hhead]
    | cons next rest =>
      rw [initsText, List.length_append, List.length_cons, hhead]
      simp only [List.length_cons] at ih ⊢
      omega

theorem letStmt_recovers {info : NodeInfo} {inits : List Init} {child : Stmt}
    (hst : (Stmt.letIn info inits child).Written)
    (hm : ((Stmt.letIn info inits child).bare σ).length < m + 1) :
    Recovers (letStmt g) ((Stmt.letIn info inits child).bare σ)
      (fun k => k ≠ .elseif ∧ k ≠ .else)
      fun b => b.erase = (Stmt.letIn info inits child).erase := by
  intro s k v more hk hs
  rw [Stmt.Written] at hst
  obtain ⟨hne, hinits, hchild⟩ := hst
  have htext : (Stmt.letIn info inits child).bare σ =
      sign .let :: (initsText σ inits ++ sign .in :: child.text σ) := by
    simp only [Stmt.bare, Stmt.text, List.cons_append, List.append_assoc]
  rw [htext] at hm hs
  simp only [List.length_append, List.length_cons] at hm
  simp only [List.append_assoc, List.cons_append] at hs
  have hread : Recovers (bounded (letInits g)) (initsText σ inits) (· = .in)
      fun is => is.map Init.erase = inits.map Init.erase := by
    refine bounded_recovers fun n hn => ?_
    have hcount := length_le_initsText σ inits
    exact letInits_recovers h hne (by omega) hinits (by omega)
  refine .bind (advance_yields hs fun keyword t _ ht => ?_)
  refine .bind ((hread rfl ht).imp fun is u _ his => ?_)
  refine .bind (expect_yields his.1 fun _ w _ hw => ?_)
  refine .bind ((h.stmt hchild (by omega) hk hw).imp fun b x _ hb => ?_)
  refine .bind (infoFrom_yields fun info y hy => .pure ⟨hy.trans hb.1, ?_⟩)
  simp only [Stmt.erase, eraseInits_eq, his.2, hb.2]

/-! ### Statements and blocks -/

theorem stmtWith_recovers {st : Stmt} (hst : st.Written) (hm : (st.text σ).length < m + 1) :
    Recovers (stmtWith g) (st.text σ) (fun k => k ≠ .elseif ∧ k ≠ .else)
      fun b => b.erase = st.erase := by
  intro s k v more hk hs
  have hbare : st.ending = [] → st.text σ = st.bare σ := fun h => by
    rw [Stmt.text, h, List.append_nil]
  cases st with
  | init | assign | ret | expr => exact simpleStmt_recovers h rfl hst hm trivial hs
  | guarded => exact guarded_recovers h hst hm trivial hs
  | ifElse info kind condition thenBlock elseifs elseBlock =>
    rw [hbare rfl] at hm hs
    have hhead : s.ahead = sign kind.token :: s.ahead.tail := by rw [hs, Stmt.bare]; rfl
    refine .bind (kind_yields hhead ?_)
    cases kind <;> exact ifStmt_recovers h hst hm hk hs
  | case info whens elseBlock =>
    rw [hbare rfl] at hm hs
    have hhead : s.ahead = sign .case :: s.ahead.tail := by rw [hs, Stmt.bare]; rfl
    exact .bind (kind_yields hhead (caseStmt_recovers h hst hm trivial hs))
  | switch info target whens elseBlock =>
    rw [hbare rfl] at hm hs
    have hhead : s.ahead = sign .case :: s.ahead.tail := by rw [hs, Stmt.bare]; rfl
    exact .bind (kind_yields hhead (switchStmt_recovers h hst hm trivial hs))
  | forIn info vars range body =>
    rw [hbare rfl] at hm hs
    have hhead : s.ahead = sign .for :: s.ahead.tail := by rw [hs, Stmt.bare]; rfl
    exact .bind (kind_yields hhead (forStmt_recovers h hst hm trivial hs))
  | whileDo info condition body =>
    rw [hbare rfl] at hm hs
    have hhead : s.ahead = sign .while :: s.ahead.tail := by rw [hs, Stmt.bare]; rfl
    exact .bind (kind_yields hhead (whileStmt_recovers h hst hm trivial hs))
  | letIn info inits child =>
    rw [hbare rfl] at hm hs
    have hhead : s.ahead = sign .let :: s.ahead.tail := by rw [hs, Stmt.bare]; rfl
    exact .bind (kind_yields hhead (letStmt_recovers h hst hm hk hs))

/-- The statements of a block are read up to the brace that closes it. -/
theorem stmtsUntilClose_recovers {ss : List Stmt} {n : Nat} (hn : ss.length < n)
    (hss : ∀ st ∈ ss, st.Written) (hm : ∀ st ∈ ss, (st.text σ).length < m) :
    Recovers (stmtsUntilClose g n) (ss.flatMap (Stmt.text σ)) (· = .closeCurly)
      fun bs => bs.map Stmt.erase = ss.map Stmt.erase := by
  intro s k v more hk hs
  subst hk
  induction ss generalizing n s with
  | nil =>
    obtain ⟨n, rfl⟩ : ∃ p, n = p + 1 := ⟨n - 1, by omega⟩
    rw [stmtsUntilClose]
    refine .bind (.get ?_)
    rw [if_pos (kind_eq hs)]
    exact .pure ⟨hs, rfl⟩
  | cons st rest ih =>
    obtain ⟨n, rfl⟩ : ∃ p, n = p + 1 := ⟨n - 1, by omega⟩
    rw [List.forall_mem_cons] at hss hm
    rw [List.flatMap_cons, List.append_assoc] at hs
    obtain ⟨k₁, v₁, tail, hhead, hk₁⟩ := st.text_begins σ
    have hkind : s.kind = k₁ := kind_eq (v := v₁) (by rw [hs, hhead]; rfl)
    have hafter : Begins (fun k => k ≠ .elseif ∧ k ≠ .else)
        (rest.flatMap (Stmt.text σ) ++ (.closeCurly, v) :: more) := by
      cases rest with
      | nil => exact ⟨_, _, _, rfl, by decide⟩
      | cons next rest =>
        obtain ⟨k₂, v₂, tail, hhead, hk₂⟩ := next.text_begins σ
        refine ⟨k₂, v₂, _, by rw [List.flatMap_cons, hhead]; rfl, ?_⟩
        simp only [BeginsNone, not_or] at hk₂
        exact hk₂.2.2
    simp only [BeginsNone, not_or] at hk₁
    rw [stmtsUntilClose]
    refine .bind (.get ?_)
    rw [if_neg (hkind ▸ hk₁.1), if_neg (by simp [TokenStream.hasTokens, hkind, hk₁.2.1])]
    refine .bind (((h.stmt hss.1 hm.1).before hafter hs).imp fun b t _ hb => ?_)
    refine .bind ((ih (Nat.lt_of_succ_lt_succ hn) hss.2 hm.2 hb.1).imp
      fun bs u _ hbs => .pure ⟨hbs.1, cons_view hb.2 hbs.2⟩)

theorem blockWith_recovers {b : Block} (hb : b.Written) (hm : (b.text σ).length < m + 1) :
    Recovers (blockWith g) (b.text σ) (fun _ => True) fun b' => b'.erase = b.erase := by
  intro s k v more _ hs
  obtain ⟨info, stmts⟩ := b
  rw [Block.Written] at hb
  simp only [Block.text, stmtsText_eq, List.length_append, List.length_cons] at hm
  simp only [Block.text, stmtsText_eq, List.append_assoc, List.cons_append,
    List.nil_append] at hs
  have hread : Recovers (bounded (stmtsUntilClose g)) (stmts.flatMap (Stmt.text σ))
      (· = .closeCurly) fun ss => ss.map Stmt.erase = stmts.map Stmt.erase := by
    refine bounded_recovers fun n hn => ?_
    have hcount := length_le_length_flatMap (Stmt.text σ) stmts fun st => by
      obtain ⟨k, v, rest, hhead, -⟩ := st.text_begins σ
      rw [hhead]
      exact List.cons_ne_nil _ _
    refine stmtsUntilClose_recovers h (by omega) ((stmtsWritten_iff stmts).mp hb) fun st hst => ?_
    have hle := length_le_flatMap (Stmt.text σ) hst
    omega
  refine .bind (position_yields (.bind (expect_yields hs fun _ t _ ht => ?_)))
  refine .bind ((hread rfl ht).imp fun ss u _ hss => ?_)
  refine .bind (expect_yields hss.1 fun _ w _ hw => ?_)
  refine .bind (infoFrom_yields fun info x hx => .pure ⟨hx.trans hw, ?_⟩)
  simp only [Block.erase, eraseStmts_eq, hss.2]

end

/-! ### Closing the recursion -/

variable (σ : Spelling)

/-- The readers at a depth read back every text that is shorter than the depth. -/
theorem recovering_at : ∀ n, (⟨exprAt n, blockAt n, stmtAt n⟩ : Nested).Recovering σ n
  | 0 =>
    { text := fun _ hm => absurd hm (Nat.not_lt_zero _)
      bare := fun _ hm => absurd hm (Nat.not_lt_zero _)
      block := fun _ hm => absurd hm (Nat.not_lt_zero _)
      stmt := fun _ hm => absurd hm (Nat.not_lt_zero _) }
  | n + 1 =>
    { text := fun he hm power => exprWith_text (recovering_at n) he hm power
      bare := fun he hm => exprWith_bare (recovering_at n) he hm
      block := fun hb hm => blockWith_recovers (recovering_at n) hb hm
      stmt := fun hst hm => stmtWith_recovers (recovering_at n) hst hm }

/-- The depth that is taken from the tokens left is enough for any text among them. -/
theorem nested_recovering (m : Nat) : nested.Recovering σ m where
  text he _ power := by
    refine bounded_recovers fun n hn => (recovering_at σ (depth n)).text he ?_ power
    unfold depth
    omega
  bare he _ := by
    refine bounded_recovers fun n hn => (recovering_at σ (depth n)).bare he ?_
    unfold depth
    omega
  block hb _ := by
    refine bounded_recovers fun n hn => (recovering_at σ (depth n)).block hb ?_
    unfold depth
    omega
  stmt hst _ := by
    refine bounded_recovers fun n hn => (recovering_at σ (depth n)).stmt hst ?_
    unfold depth
    omega

end Parse

end Frontend
