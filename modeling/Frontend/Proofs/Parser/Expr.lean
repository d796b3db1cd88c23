import Frontend.Parser.Expr
import Frontend.Proofs.Parser.Mints

/-!
# Ids of expressions that are read

If the readers of nested constructs give fresh ids to what they read, then so does every
production of the expression grammar, and what it reads can be written down.
-/

namespace Frontend.Parse

/-- Expressions with fresh ids that can be written down. -/
abbrev MintsExpr (s : TokenStream) (act : Parse Expr) : Prop :=
  Mints s act 1 Expr.ids Expr.Written

/-- Whatever is nested has fresh ids and can be written down, where fewer than `m` tokens are left
for expressions and blocks and fewer than `l` for statements. -/
structure Nested.Minting (g : Nested) (m l : Nat) : Prop where
  expr : ∀ power s, Fits m s → MintsExpr s (g.expr power)
  block : ∀ s, Fits m s → Mints s g.block 1 Block.ids Block.Written
  stmt : ∀ s, Fits l s → Mints s g.stmt 1 Stmt.ids Stmt.Written

section

variable {α : Type} {s t u v : TokenStream} {m l : Nat}

theorem unexpected_reads {post : α → TokenStream → Prop} :
    Reads (unexpected : Parse α) s post :=
  .bind (.get (.throw fun _ => ⟨_, rfl, rfl⟩))

/-- Reading the value of a numeral consumes nothing. -/
theorem numeral_reads (read : String → Option α) (s : TokenStream) :
    Reads (numeral read) s fun value t => t = s ∧ read s.current.value = some value := by
  refine .bind (.get ?_)
  split
  · next value hvalue => exact .pure ⟨rfl, hvalue⟩
  · exact .throw fun _ => ⟨_, rfl, rfl⟩

theorem primary_mints {build : NodeInfo → Expr} (hk : s.kind ≠ .eof)
    (hids : ∀ info, (build info).ids = [info.id]) (hgood : ∀ info, (build info).Written) :
    MintsExpr s (primary build) := by
  refine .bind ((advance_reads hk).imp fun token t _ ht => .bind (.mint (.pure ?_)))
  rw [hids]
  exact ⟨Numbered.node ⟨rfl, rfl, rfl, rfl⟩ ht.2, hgood _⟩

theorem literal_mints {value : Literal} (hk : s.kind ≠ .eof) (hvalue : value.Readable) :
    MintsExpr s (literal value) :=
  primary_mints hk (fun _ => by rw [Expr.ids]) fun _ => by rw [Expr.Written]; exact hvalue

/-- A literal whose text is a numeral. -/
theorem numeral_mints (read : String → Option α) {build : α → Literal} (hk : s.kind ≠ .eof)
    (hbuild : ∀ {value}, read s.current.value = some value →
      (build value).Reads s.current.value) :
    MintsExpr s (do literal (build (← numeral read))) := by
  refine .bind ((numeral_reads read s).imp fun value t _ ht => ?_)
  rw [ht.1]
  exact literal_mints hk ⟨_, hbuild ht.2⟩

theorem symbolLiteral_mints (hk : s.kind ≠ .eof) : MintsExpr s symbolLiteral := by
  refine .bind ((advance_reads hk).imp fun token t _ ht => ?_)
  refine .bind ((name_reads _ t).imp fun name u _ hu => ?_)
  refine .bind ((infoFrom_reads _ u).imp fun info v _ hinfo => .pure ?_)
  simp only [Expr.ids, Expr.Written]
  exact ⟨hinfo.node (ht.2.append hu), name, rfl⟩

theorem param_mints (s : TokenStream) : Mints s param 1 Param.ids Param.Written := by
  refine .bind (position_reads ?_)
  refine .bind ((eat_reads (by decide) s).imp fun isVar t _ ht => ?_)
  refine .bind ((name_reads _ t).imp fun name u _ hu => ?_)
  refine .bind ((optionalType_mints u).imp fun type v _ hv => ?_)
  refine .bind ((infoFrom_reads _ v).imp fun info w _ hinfo => .pure ⟨?_, hv.2⟩)
  exact hinfo.node (ht.andThen (hu.append hv.1))

theorem params_mints (stops : TokenKind → Bool) (s : TokenStream) :
    Mints s (bounded (listUntil stops param)) 0 (List.flatMap Param.ids)
      fun ps => ∀ p ∈ ps, p.Written :=
  bounded_mints fun n hn => listUntil_mints (fun s _ => param_mints s) stops n (fits_bound s) hn

end

/-! ### Lists of expressions -/

section

variable {g : Nested} {m l : Nat} (h : g.Minting m l) {s : TokenStream}
include h

theorem exprList_mints (hm : Fits m s) :
    Mints s (exprList g) 1 exprIds fun es => es ≠ [] ∧ exprsWritten es := by
  refine (bounded_mints fun n hn => commaList_mints (h.expr .default) n hm hn).imp
    fun es t _ hes => ?_
  rw [exprIds_eq]
  exact ⟨hes.1, hes.2.1, (exprsWritten_iff _).mpr hes.2.2⟩

theorem exprListBefore_mints (close : TokenKind) (hm : Fits m s) :
    Mints s (exprListBefore g close) 0 exprIds exprsWritten := by
  refine .bind (kind_reads ?_)
  split
  · refine .pure ?_
    simp only [exprIds, exprsWritten]
    exact ⟨.nil s, trivial⟩
  · exact (exprList_mints h hm).imp fun es t _ hes => ⟨hes.1.loose, hes.2.2⟩

theorem dictEntry_mints (hm : Fits m s) :
    Mints s (dictEntry g) 1 (fun e => e.1.ids ++ e.2.ids)
      fun e => e.1.Written ∧ e.2.Written := by
  refine .bind ((h.expr .default s hm).imp fun key t _ hkey => ?_)
  refine .bind ((expect_reads (by decide) t).imp fun _ u _ hu => ?_)
  have hkey' := hkey.1.token hu
  refine .bind ((h.expr .default u (hkey'.fits hm)).imp fun value v _ hvalue => .pure ?_)
  exact ⟨hkey'.append hvalue.1, hkey.2, hvalue.2⟩

/-! ### Operands -/

theorem unaryExpr_mints (op : UnaryOp) (hk : s.kind ≠ .eof) (hm : Fits (m + 1) s) :
    MintsExpr s (unaryExpr g op) := by
  refine .bind ((advance_reads hk).imp fun token t _ ht => ?_)
  refine .bind ((h.expr .unary t (ht.2.fits_pred hm)).imp fun operand u _ hu => ?_)
  refine .bind ((infoFrom_reads _ u).imp fun info v _ hinfo => .pure ?_)
  simp only [Expr.ids, Expr.Written]
  exact ⟨hinfo.node (ht.2.append hu.1), hu.2⟩

theorem grouping_mints (hk : s.kind ≠ .eof) (hm : Fits (m + 1) s) : MintsExpr s (grouping g) := by
  refine .bind ((advance_reads hk).imp fun token t _ ht => ?_)
  refine .bind ((eat_reads (by decide) t).imp fun closed u _ hu => ?_)
  have hopen := ht.2.token hu
  split
  · refine .bind ((infoFrom_reads _ u).imp fun info v _ hinfo => .pure ?_)
    simp only [Expr.ids, Expr.Written, exprIds, exprsWritten]
    exact ⟨hinfo.node hopen, by decide, trivial⟩
  · refine .bind ((exprList_mints h (hopen.fits_pred hm)).imp fun elems v _ hv => ?_)
    refine .bind ((expect_reads (by decide) v).imp fun _ w _ hw => ?_)
    have hall : Took s w 1 (exprIds elems) := hopen.append (hv.1.token hw)
    split
    · simp only [exprIds, List.append_nil] at hall
      exact .pure ⟨hall, ((exprsWritten_iff _).mp hv.2.2) _ (List.mem_singleton_self _)⟩
    · rename_i hmany
      refine .bind ((infoFrom_reads _ w).imp fun info x _ hinfo => .pure ?_)
      simp only [Expr.ids, Expr.Written, ne_eq, List.length_eq_one_iff, not_exists]
      exact ⟨hinfo.node hall, hmany, hv.2.2⟩

theorem arrayLiteral_mints (hk : s.kind ≠ .eof) (hm : Fits (m + 1) s) :
    MintsExpr s (arrayLiteral g) := by
  refine .bind ((advance_reads hk).imp fun token t _ ht => ?_)
  refine .bind ((exprListBefore_mints h .closeBracket (ht.2.fits_pred hm)).imp
    fun elems u _ hu => ?_)
  refine .bind ((expect_reads (by decide) u).imp fun _ v _ hv => ?_)
  refine .bind ((infoFrom_reads _ v).imp fun info w _ hinfo => .pure ?_)
  simp only [Expr.ids, Expr.Written]
  exact ⟨hinfo.node (ht.2.append (hu.1.token hv)), hu.2⟩

theorem dictLiteral_mints (hk : s.kind ≠ .eof) (hm : Fits (m + 1) s) :
    MintsExpr s (dictLiteral g) := by
  refine .bind ((advance_reads hk).imp fun token t _ ht => ?_)
  refine .bind ((bounded_mints fun n hn => listUntil_mints (fun _ hs => dictEntry_mints h hs) _ n
    (ht.2.fits_pred hm) hn).imp fun entries u _ hu => ?_)
  refine .bind ((expect_reads (by decide) u).imp fun _ v _ hv => ?_)
  refine .bind ((infoFrom_reads _ v).imp fun info w _ hinfo => .pure ?_)
  simp only [Expr.ids, Expr.Written, entryIds_eq, entriesWritten_iff]
  exact ⟨hinfo.node (ht.2.append (hu.1.token hv)), hu.2⟩

theorem lambdaBody_mints (hm : Fits m s) :
    Mints s (lambdaBody g) 1 Block.ids Block.Written := by
  refine .bind ((eat_reads (by decide) s).imp fun short t _ ht => ?_)
  split
  · refine .bind (position_reads ?_)
    refine .bind ((h.expr .default t (ht.fits hm)).imp fun value u _ hu => ?_)
    refine .bind ((infoFrom_reads _ u).imp fun retInfo v _ hret => ?_)
    refine .bind ((infoFrom_reads _ v).imp fun info w _ hinfo => .pure ?_)
    simp only [Block.ids, stmtIds, Stmt.ids, exprIds, List.append_nil, Block.Written,
      stmtsWritten, Stmt.Written, exprsWritten, and_true]
    exact ⟨hinfo.node (hret.node (ht.andThen hu.1)), hu.2⟩
  · exact (h.block t (ht.fits hm)).imp fun body u _ hu => ⟨ht.andThen hu.1, hu.2⟩

/-- A lambda takes an id for its definition and then one for itself. -/
theorem lambda_mints (hk : s.kind ≠ .eof) (hm : Fits (m + 1) s) : MintsExpr s (lambda g) := by
  refine .bind ((advance_reads hk).imp fun token t _ ht => ?_)
  refine .bind ((eat_reads (by decide) t).imp fun parenthesized u _ hu => ?_)
  refine .bind ((params_mints _ u).imp fun params v _ hv => ?_)
  have hparams : Took s v 1 (params.flatMap Param.ids) := ht.2.append (hu.append hv.1)
  have htail : ∀ {w : TokenStream}, Took s w 1 (params.flatMap Param.ids) →
      Reads (do
        let body ← lambdaBody g
        let info ← infoFrom token.span.start
        let definition : FuncDef :=
          ⟨info, .lambda, "lambda." ++ info.id.repr, params, none, body, none⟩
        return Expr.lambda (← infoFrom token.span.start) definition : Parse Expr)
        w fun (e : Expr) x => Took s x 1 e.ids ∧ e.Written := by
    intro w hw
    refine .bind ((lambdaBody_mints h (hw.fits_pred hm)).imp fun body x _ hx => ?_)
    refine .bind ((infoFrom_reads _ x).imp fun defInfo y _ hdef => ?_)
    refine .bind ((infoFrom_reads _ y).imp fun info z _ hinfo => .pure ?_)
    have hdef' := hdef.node (hw.append hx.1)
    simp only [Expr.ids, FuncDef.ids, TypeExpr.idsOption, Option.map_none, Option.getD_none,
      blockIds, List.append_nil, Expr.Written, FuncDef.Written, blockWritten, and_true]
    refine ⟨hinfo.node hdef', ⟨rfl, rfl, rfl, rfl⟩, hv.2, fun _ hnone => ?_, hx.2⟩
    exact absurd hnone (Option.not_mem_none _)
  dsimp only
  split
  · exact .bind ((expect_reads (by decide) v).imp fun _ w _ hw => htail (hparams.token hw))
  · exact htail hparams

theorem ifExpr_mints (kind : IfKind) (hk : s.kind ≠ .eof) (hm : Fits (m + 1) s) :
    MintsExpr s (ifExpr g kind) := by
  refine .bind ((advance_reads hk).imp fun keyword t _ ht => ?_)
  have hroom := ht.2.fits_pred hm
  refine .bind ((h.expr .default t hroom).imp fun condition u _ hu => ?_)
  refine .bind ((expect_reads (by decide) u).imp fun _ v _ hv => ?_)
  have hcondition := hu.1.token hv
  refine .bind ((h.expr .default v (hcondition.fits hroom)).imp fun thenValue w _ hw => ?_)
  refine .bind ((expect_reads (by decide) w).imp fun _ x _ hx => ?_)
  have hthen := hcondition.append (hw.1.token hx)
  refine .bind ((h.expr .default x (hthen.fits hroom)).imp fun elseValue y _ hy => ?_)
  refine .bind ((infoFrom_reads _ y).imp fun info z _ hinfo => .pure ?_)
  simp only [Expr.ids, Expr.Written]
  exact ⟨hinfo.node (ht.2.append (hthen.append hy.1)), hu.2, hw.2, hy.2⟩

theorem operand_mints (hm : Fits (m + 1) s) : MintsExpr s (operand g) := by
  refine .bind (.get ?_)
  dsimp only
  split
  · next hk => exact numeral_mints _ (ne_eof hk (by decide)) id
  · next hk => exact numeral_mints _ (ne_eof hk (by decide)) id
  · next hk => exact numeral_mints _ (ne_eof hk (by decide)) id
  · next hk =>
    split
    · next c _ hc =>
      exact literal_mints (ne_eof hk (by decide)) ⟨s.current.value, by simp [Literal.Reads, hc]⟩
    · exact fail_reads _
  · next hk => exact literal_mints (ne_eof hk (by decide)) ⟨_, rfl⟩
  · next hk => exact literal_mints (ne_eof hk (by decide)) ⟨"", trivial⟩
  · next hk => exact literal_mints (ne_eof hk (by decide)) ⟨"", trivial⟩
  · next hk =>
    exact primary_mints (ne_eof hk (by decide)) (fun _ => by rw [Expr.ids])
      fun _ => by rw [Expr.Written]
  · next hk => exact unaryExpr_mints h _ (ne_eof hk (by decide)) hm
  · next hk => exact unaryExpr_mints h _ (ne_eof hk (by decide)) hm
  · next hk => exact unaryExpr_mints h _ (ne_eof hk (by decide)) hm
  · next hk => exact grouping_mints h (ne_eof hk (by decide)) hm
  · next hk => exact arrayLiteral_mints h (ne_eof hk (by decide)) hm
  · next hk => exact dictLiteral_mints h (ne_eof hk (by decide)) hm
  · next hk => exact ifExpr_mints h _ (ne_eof hk (by decide)) hm
  · next hk => exact ifExpr_mints h _ (ne_eof hk (by decide)) hm
  · next hk => exact symbolLiteral_mints (ne_eof hk (by decide))
  · next hk => exact lambda_mints h (ne_eof hk (by decide)) hm
  · exact unexpected_reads

/-! ### Operators -/

/-- An operator adds a node in front of the ids of its left side, and consumes a token. -/
theorem applyOperator_mints {t : TokenStream} (op : Operator) {left : Expr} (hk : t.kind ≠ .eof)
    (hm : Fits (m + 1) t) (hleft : Took s t 1 left.ids ∧ left.Written) :
    Reads (applyOperator g op left) t fun e u =>
      (Took s u 1 e.ids ∧ ∃ ids, Took t u 1 ids) ∧ e.Written := by
  refine .bind ((advance_reads hk).imp fun _ u _ hu => ?_)
  have hroom := hu.2.fits_pred hm
  have hnode : ∀ {v w : TokenStream} {info : NodeInfo} {k : Nat} {ids : List Nat},
      Took u v k ids → Numbered info v w →
      Took s w 1 (info.id :: (left.ids ++ ids)) ∧ ∃ ids, Took t w 1 ids := fun hv hinfo =>
    ⟨hinfo.node ((hleft.1.token hu.2).append hv), _, hinfo.node (hu.2.append hv)⟩
  cases op with
  | binary binaryOp =>
    refine .bind ((h.expr _ u hroom).imp fun right v _ hv => ?_)
    refine .bind ((infoFrom_reads _ v).imp fun info w _ hinfo => .pure ?_)
    simp only [Expr.ids, Expr.Written]
    exact ⟨hnode hv.1 hinfo, hleft.2, hv.2⟩
  | range inclusive =>
    refine .bind ((h.expr _ u hroom).imp fun last v _ hv => ?_)
    refine .bind ((infoFrom_reads _ v).imp fun info w _ hinfo => .pure ?_)
    simp only [Expr.ids, Expr.Written]
    exact ⟨hnode hv.1 hinfo, hleft.2, hv.2⟩
  | typed =>
    refine .bind ((typeExpr_mints .default u).imp fun type v _ hv => ?_)
    refine .bind ((infoFrom_reads _ v).imp fun info w _ hinfo => .pure ?_)
    simp only [Expr.ids, Expr.Written]
    exact ⟨hnode hv.1 hinfo, hleft.2, hv.2⟩
  | cast =>
    refine .bind ((typeExpr_mints .default u).imp fun type v _ hv => ?_)
    refine .bind ((infoFrom_reads _ v).imp fun info w _ hinfo => .pure ?_)
    simp only [Expr.ids, Expr.Written]
    exact ⟨hnode hv.1 hinfo, hleft.2, hv.2⟩
  | call =>
    refine .bind ((exprListBefore_mints h .closeParen hroom).imp fun args v _ hv => ?_)
    refine .bind ((expect_reads (by decide) v).imp fun _ w _ hw => ?_)
    refine .bind ((infoFrom_reads _ w).imp fun info x _ hinfo => .pure ?_)
    simp only [Expr.ids, Expr.Written]
    exact ⟨hnode (hv.1.token hw) hinfo, hleft.2, hv.2⟩
  | index =>
    refine .bind ((h.expr .default u hroom).imp fun index v _ hv => ?_)
    refine .bind ((expect_reads (by decide) v).imp fun _ w _ hw => ?_)
    refine .bind ((infoFrom_reads _ w).imp fun info x _ hinfo => .pure ?_)
    simp only [Expr.ids, Expr.Written]
    exact ⟨hnode (hv.1.token hw) hinfo, hleft.2, hv.2⟩
  | member =>
    refine .bind ((name_reads _ u).imp fun name v _ hv => ?_)
    refine .bind ((infoFrom_reads _ v).imp fun info w _ hinfo => .pure ?_)
    have hall := hnode hv hinfo
    rw [List.append_nil] at hall
    simp only [Expr.ids, Expr.Written]
    exact ⟨hall, hleft.2⟩

theorem operators_mints {t : TokenStream} (power : Power) {left : Expr} (n : Nat)
    (hm : Fits m t) (hn : Fits n t) (hleft : Took s t 1 left.ids ∧ left.Written) :
    Reads (operators g power left n) t fun e u => Took s u 1 e.ids ∧ e.Written := by
  induction n generalizing left t with
  | zero => exact outOfFuel_reads hn
  | succ n ih =>
    rw [operators]
    refine .bind (kind_reads ?_)
    split
    · exact .pure hleft
    · next op hop =>
      split
      · exact .pure hleft
      · have hk : t.kind ≠ .eof := by
          rintro heof
          rw [heof] at hop
          cases hop
        refine .bind ((applyOperator_mints h op hk (hm.mono (Nat.le_succ m)) hleft).imp
          fun e u _ he => ?_)
        obtain ⟨⟨hids, _, htook⟩, hgood⟩ := he
        exact ih (htook.fits hm) (htook.fits_pred hn) ⟨hids, hgood⟩

theorem exprWith_mints (power : Power) (hm : Fits (m + 1) s) :
    MintsExpr s (exprWith g power) := by
  refine .bind ((operand_mints h hm).imp fun left t _ hleft => .bind (.get ?_))
  exact operators_mints h power t.bound (hleft.1.fits_pred hm) (fits_bound t) hleft

end

end Frontend.Parse
