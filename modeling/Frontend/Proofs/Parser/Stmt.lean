import Frontend.Parser.Stmt
import Frontend.Proofs.Parser.Expr

/-!
# Ids of statements that are read

The statement forms keep to what the expression grammar keeps to, and by induction on the depth
so do the readers that close the recursion. The depth is enough for any number of tokens: each level
consumes one, except where a statement begins with an expression.
-/

namespace Frontend.Parse

/-- Statements with fresh ids that can be written down. -/
abbrev MintsStmt (s : TokenStream) (act : Parse Stmt) : Prop :=
  Mints s act 1 Stmt.ids Stmt.Written

/-- The operators of compound assignments compute numbers. -/
theorem isArithmetic_of_compoundOp? {kind : TokenKind} {op : BinaryOp}
    (h : kind.compoundOp? = some op) : op.isArithmetic = true := by
  cases kind <;> cases h <;> rfl

/-- A declared name can be written down, behind the keyword of its statement. -/
theorem varDecl_mints (isVar : Bool) (s : TokenStream) :
    Mints s (varDecl isVar) 1 VarDecl.ids fun d => d.isVar = isVar ∧ d.Written := by
  refine .bind (position_reads ?_)
  refine .bind ((name_reads _ s).imp fun name t _ ht => ?_)
  refine .bind ((optionalType_mints t).imp fun type u _ hu => ?_)
  refine .bind ((infoFrom_reads _ u).imp fun info v _ hinfo => .pure ⟨?_, rfl, hu.2⟩)
  exact hinfo.node (ht.append hu.1)

section

variable {g : Nested} {m l : Nat} (h : g.Minting m l) {s : TokenStream}
include h

theorem optionalBlock_mints {keyword : TokenKind} (hw : keyword ≠ .eof) (hm : Fits m s) :
    Mints s (optional keyword g.block) 0 blockIds blockWritten := by
  refine (optional_mints h.block hw (hm.mono (Nat.le_succ m))).imp fun b t _ hb => ?_
  rw [blockIds_eq, blockWritten_iff]
  exact hb

theorem initStmt_mints (hk : s.kind ≠ .eof) (hm : Fits m s) :
    Mints s (initStmt g) 1 Init.ids Init.Written := by
  refine .bind ((advance_reads hk).imp fun keyword t _ ht => ?_)
  refine .bind ((bounded_mints fun n hn => commaList_mints (fun s _ => varDecl_mints _ s) n
    (fits_bound t) hn).imp fun decls u _ hu => ?_)
  refine .bind ((eat_reads (by decide) u).imp fun assigned v _ hv => ?_)
  have hdecls : Took s v 1 (decls.flatMap VarDecl.ids) := ht.2.append (hu.1.token hv)
  have htail : ∀ {values : List Expr} {w : TokenStream},
      Took v w 0 (exprIds values) → exprsWritten values →
      (values = [] → ∀ d ∈ decls, d.type.isSome) →
      Reads (do
        return (⟨← infoFrom keyword.span.start, decls, values⟩ : Init) : Parse Init)
        w fun (i : Init) x => Took s x 1 i.ids ∧ i.Written := by
    intro values w hw hvalues htyped
    refine .bind ((infoFrom_reads _ w).imp fun info x _ hinfo => .pure ?_)
    simp only [Init.ids, Init.Written]
    exact ⟨hinfo.node (hdecls.append hw), hu.2.1, ⟨_, fun d hd => (hu.2.2 d hd).1⟩,
      fun d hd => (hu.2.2 d hd).2, htyped, hvalues⟩
  dsimp only
  split
  · refine .bind ((exprList_mints h (hdecls.fits hm)).imp fun values w _ hw => ?_)
    exact htail hw.1.loose hw.2.2 fun hnil => absurd hnil hw.2.1
  · split
    · exact .bind (fail_reads _)
    · next htyped =>
      refine .bind (.pure (htail ?_ ?_ fun _ d hd => ?_))
      · simp only [exprIds]
        exact .nil v
      · simp only [exprsWritten]
      · simp only [List.any_eq_true, not_exists, not_and, Bool.not_eq_true] at htyped
        simpa using htyped d hd

theorem returnStmt_mints (hk : s.kind ≠ .eof) (hm : Fits m s) :
    Mints s (returnStmt g) 1 Stmt.ids fun r => r.isSimple = true ∧ r.Written := by
  refine .bind ((advance_reads hk).imp fun keyword t _ ht => .bind (kind_reads ?_))
  have htail : ∀ {values : List Expr} {w : TokenStream},
      Took t w 0 (exprIds values) → exprsWritten values →
      Reads (do
        return Stmt.ret (← infoFrom keyword.span.start) values : Parse Stmt)
        w fun (r : Stmt) x => Took s x 1 r.ids ∧ r.isSimple = true ∧ r.Written := by
    intro values w hw hvalues
    refine .bind ((infoFrom_reads _ w).imp fun info x _ hinfo => .pure ?_)
    simp only [Stmt.ids, Stmt.isSimple, Stmt.Written]
    exact ⟨hinfo.node (ht.2.append hw), trivial, hvalues⟩
  have hnone : Took t t 0 (exprIds []) ∧ exprsWritten [] := by
    simp only [exprIds, exprsWritten]
    exact ⟨.nil t, trivial⟩
  dsimp only
  split
  · exact .bind (.pure (htail hnone.1 hnone.2))
  · exact .bind (.pure (htail hnone.1 hnone.2))
  · exact .bind (.pure (htail hnone.1 hnone.2))
  · refine .bind ((exprList_mints h (ht.2.fits hm)).imp fun values w _ hw => ?_)
    exact htail hw.1.loose hw.2.2

/-- Expressions in front of an assignment keep their ids when they are marked as targets. -/
theorem exprOrAssign_mints (hm : Fits m s) :
    Mints s (exprOrAssign g) 1 Stmt.ids fun r => r.isSimple = true ∧ r.Written := by
  refine .bind (position_reads ?_)
  refine .bind ((exprList_mints h hm).imp fun exprs t _ ht => ?_)
  have hgood := (exprsWritten_iff _).mp ht.2.2
  refine .bind (kind_reads ?_)
  dsimp only
  split
  · next hop =>
    have hk : t.kind ≠ .eof := by
      intro heof
      rw [heof] at hop
      simp [TokenKind.compoundOp?] at hop
    refine .bind ((advance_reads hk).imp fun _ u _ hu => ?_)
    have hexprs := ht.1.token hu.2
    refine .bind ((exprList_mints h (hexprs.fits hm)).imp fun values v _ hv => ?_)
    split
    · exact fail_reads _
    · next hcount =>
      refine .bind ((infoFrom_reads _ v).imp fun info w _ hinfo => .pure ?_)
      have hids : exprIds (exprs.map Expr.asTarget) = exprIds exprs := by
        simp only [exprIds_eq, List.flatMap_map, Expr.ids_asTarget]
      simp only [Stmt.ids, Stmt.isSimple, Stmt.Written, hids, targetsWritten_iff,
        List.forall_mem_map, List.length_map, ne_eq, List.map_eq_nil_iff]
      refine ⟨hinfo.node (hexprs.append hv.1), trivial, ht.2.1, hv.2.1, fun o ho => ?_,
        fun e he => (hgood e he).target, hv.2.2⟩
      have hcount' := not_and.mp hcount (Option.isSome_of_mem ho)
      exact ⟨isArithmetic_of_compoundOp? ho, by omega⟩
  · split
    · have hids := ht.1
      simp only [exprIds, List.append_nil] at hids
      refine .pure ?_
      simp only [Stmt.ids, Stmt.isSimple, Stmt.Written]
      exact ⟨hids, trivial, hgood _ (List.mem_singleton_self _)⟩
    · exact fail_reads _

theorem guard_mints {t : TokenStream} (start : Position) {body : Stmt} (hm : Fits m t)
    (hbody : Took s t 1 body.ids ∧ body.isSimple = true ∧ body.Written) :
    Reads (guard g start body) t fun r u => Took s u 1 r.ids ∧ r.Written := by
  refine .bind (kind_reads ?_)
  have hguarded : ∀ kind : IfKind, t.kind ≠ .eof → Reads (do
      let _ ← advance
      let condition ← g.expr .default
      return Stmt.guarded (← infoFrom start) body kind condition : Parse Stmt)
      t fun (r : Stmt) u => Took s u 1 r.ids ∧ r.Written := by
    intro kind hk
    refine .bind ((advance_reads hk).imp fun _ u _ hu => ?_)
    refine .bind ((h.expr .default u (hu.2.fits hm)).imp fun condition v _ hv => ?_)
    refine .bind ((infoFrom_reads _ v).imp fun info w _ hinfo => .pure ?_)
    simp only [Stmt.ids, Stmt.Written]
    exact ⟨hinfo.node ((hbody.1.token hu.2).append hv.1), hbody.2.1, hbody.2.2, hv.2⟩
  dsimp only
  split
  · next hk => exact hguarded .if (ne_eof hk (by decide))
  · next hk => exact hguarded .unless (ne_eof hk (by decide))
  · exact .pure ⟨hbody.1, hbody.2.2⟩

theorem simpleStmt_mints {body : Parse Stmt} (hm : Fits m s)
    (hbody : Mints s body 1 Stmt.ids fun r => r.isSimple = true ∧ r.Written) :
    MintsStmt s (simpleStmt g body) := by
  refine .bind (position_reads (.bind (hbody.imp fun inner t _ ht => ?_)))
  refine .bind ((guard_mints h s.position (ht.1.fits hm) ht).imp fun r u _ hu => ?_)
  exact .bind ((expect_reads (by decide) u).imp fun _ v _ hv => .pure ⟨hu.1.token hv, hu.2⟩)

theorem arm_mints (hm : Fits m s) :
    Mints s (arm g) 1 (fun a => a.1.ids ++ a.2.ids) fun a => a.1.Written ∧ a.2.Written := by
  refine .bind ((h.expr .default s hm).imp fun condition t _ ht => ?_)
  refine .bind ((h.block t (ht.1.fits hm)).imp fun body u _ hu => .pure ?_)
  exact ⟨ht.1.append hu.1, ht.2, hu.2⟩

theorem valueArm_mints (hm : Fits m s) :
    Mints s (valueArm g) 1 (fun a => exprIds a.1 ++ a.2.ids)
      fun a => (a.1 ≠ [] ∧ exprsWritten a.1) ∧ a.2.Written := by
  refine .bind ((exprList_mints h hm).imp fun values t _ ht => ?_)
  refine .bind ((h.block t (ht.1.fits hm)).imp fun body u _ hu => .pure ?_)
  exact ⟨ht.1.append hu.1, ht.2, hu.2⟩

theorem arms_mints {keyword : TokenKind} (hw : keyword ≠ .eof) (hm : Fits m s) :
    Mints s (bounded (introduced keyword (arm g))) 0 armIds armsWritten := by
  refine (bounded_mints fun n hn => introduced_mints (fun _ => arm_mints h) hw n
    (hm.mono (Nat.le_succ m)) hn).imp fun whens t _ hwhens => ?_
  rw [armIds_eq, armsWritten_iff]
  exact hwhens

theorem valueArms_mints (hm : Fits m s) :
    Mints s (bounded (introduced .when (valueArm g))) 0 valueArmIds valueArmsWritten := by
  refine (bounded_mints fun n hn => introduced_mints (fun _ => valueArm_mints h) (by decide) n
    (hm.mono (Nat.le_succ m)) hn).imp fun whens t _ hwhens => ?_
  rw [valueArmIds_eq, valueArmsWritten_iff]
  exact hwhens

theorem ifStmt_mints (kind : IfKind) (hk : s.kind ≠ .eof) (hm : Fits m s) :
    MintsStmt s (ifStmt g kind) := by
  refine .bind ((advance_reads hk).imp fun keyword t _ ht => ?_)
  refine .bind ((arm_mints h (ht.2.fits hm)).imp fun first u _ hu => ?_)
  have hfirst := ht.2.append hu.1
  refine .bind ((arms_mints h (by decide) (hfirst.fits hm)).imp fun elseifs v _ hv => ?_)
  have helseifs := hfirst.append hv.1
  refine .bind ((optionalBlock_mints h (by decide) (helseifs.fits hm)).imp
    fun elseBlock w _ hw => ?_)
  refine .bind ((infoFrom_reads _ w).imp fun info x _ hinfo => .pure ?_)
  have hall := helseifs.append hw.1
  rw [List.nil_append] at hall
  simp only [Stmt.ids, Stmt.Written]
  exact ⟨hinfo.node hall, hu.2.1, hu.2.2, hv.2, hw.2⟩

theorem caseStmt_mints (hk : s.kind ≠ .eof) (hm : Fits m s) : MintsStmt s (caseStmt g) := by
  refine .bind ((advance_reads hk).imp fun keyword t _ ht => ?_)
  refine .bind ((eat_reads (by decide) t).imp fun bare u _ hu => ?_)
  have hopen := ht.2.token hu
  have hroom := hopen.fits hm
  split
  · refine .bind ((arms_mints h (by decide) hroom).imp fun whens v _ hv => ?_)
    have hroom' := hv.1.fits hroom
    refine .bind ((optionalBlock_mints h (by decide) hroom').imp fun elseBlock w _ hw => ?_)
    refine .bind ((expect_reads (by decide) w).imp fun _ x _ hx => ?_)
    refine .bind ((infoFrom_reads _ x).imp fun info y _ hinfo => .pure ?_)
    simp only [Stmt.ids, Stmt.Written]
    exact ⟨hinfo.node (hopen.append (hv.1.append (hw.1.token hx))), hv.2, hw.2⟩
  · refine .bind ((h.expr .default u hroom).imp fun target v _ hv => ?_)
    refine .bind ((expect_reads (by decide) v).imp fun _ w _ hw => ?_)
    have htarget := hv.1.token hw
    refine .bind ((valueArms_mints h (htarget.fits hroom)).imp fun whens x _ hx => ?_)
    have hwhens := htarget.append hx.1
    refine .bind ((optionalBlock_mints h (by decide) (hwhens.fits hroom)).imp
      fun elseBlock y _ hy => ?_)
    refine .bind ((expect_reads (by decide) y).imp fun _ z _ hz => ?_)
    refine .bind ((infoFrom_reads _ z).imp fun info _ _ hinfo => .pure ?_)
    simp only [Stmt.ids, Stmt.Written]
    exact ⟨hinfo.node (hopen.append (hwhens.append (hy.1.token hz))), hv.2, hx.2, hy.2⟩

theorem forStmt_mints (hk : s.kind ≠ .eof) (hm : Fits m s) : MintsStmt s (forStmt g) := by
  refine .bind ((advance_reads hk).imp fun keyword t _ ht => ?_)
  refine .bind ((bounded_mints fun n hn => commaList_mints (fun s _ => param_mints s) n
    (fits_bound t) hn).imp fun vars u _ hu => ?_)
  refine .bind ((expect_reads (by decide) u).imp fun _ v _ hv => ?_)
  have hvars : Took s v 1 (vars.flatMap Param.ids) := ht.2.append (hu.1.token hv)
  refine .bind ((h.expr .default v (hvars.fits hm)).imp fun range w _ hw => ?_)
  have hrange := hvars.append hw.1
  refine .bind ((h.block w (hrange.fits hm)).imp fun body x _ hx => ?_)
  refine .bind ((infoFrom_reads _ x).imp fun info y _ hinfo => .pure ?_)
  simp only [Stmt.ids, Stmt.Written]
  exact ⟨hinfo.node (hrange.append hx.1), hu.2.1, hu.2.2, hw.2, hx.2⟩

theorem whileStmt_mints (hk : s.kind ≠ .eof) (hm : Fits m s) : MintsStmt s (whileStmt g) := by
  refine .bind ((advance_reads hk).imp fun keyword t _ ht => ?_)
  have hroom := ht.2.fits hm
  refine .bind ((h.expr .default t hroom).imp fun condition u _ hu => ?_)
  refine .bind ((h.block u (hu.1.fits hroom)).imp fun body v _ hv => ?_)
  refine .bind ((infoFrom_reads _ v).imp fun info w _ hinfo => .pure ?_)
  simp only [Stmt.ids, Stmt.Written]
  exact ⟨hinfo.node (ht.2.append (hu.1.append hv.1)), hu.2, hv.2⟩

theorem letInits_mints (n : Nat) (hm : Fits m s) (hn : Fits n s) :
    Mints s (letInits g n) 1 initIds fun inits => inits ≠ [] ∧ initsWritten inits := by
  induction n generalizing s with
  | zero => exact outOfFuel_reads hn
  | succ n ih =>
    rw [letInits]
    refine .bind (kind_reads ?_)
    have hinit : s.kind ≠ .eof → Reads (do
        let first ← initStmt g
        if ← eat .semicolon then return first :: (← letInits g n) else return [first] :
          Parse (List Init))
        s fun (inits : List Init) u => Took s u 1 (initIds inits) ∧
          inits ≠ [] ∧ initsWritten inits := by
      intro hk
      refine .bind ((initStmt_mints h hk hm).imp fun first t _ ht => ?_)
      refine .bind ((eat_reads (by decide) t).imp fun more u _ hu => ?_)
      have hfirst := ht.1.token hu
      split
      · refine .bind ((ih (hfirst.fits hm) (hfirst.fits_pred hn)).imp fun rest v _ hv => .pure ?_)
        simp only [initIds, initsWritten]
        exact ⟨hfirst.append hv.1, List.cons_ne_nil _ _, ht.2, hv.2.2⟩
      · refine .pure ?_
        simp only [initIds, initsWritten, List.append_nil]
        exact ⟨hfirst, List.cons_ne_nil _ _, ht.2, trivial⟩
    split
    · next hk => exact hinit (ne_eof hk (by decide))
    · next hk => exact hinit (ne_eof hk (by decide))
    · exact fail_reads _

theorem letStmt_mints (hk : s.kind ≠ .eof) (hm : Fits m s) (hl : Fits (l + 1) s) :
    MintsStmt s (letStmt g) := by
  refine .bind ((advance_reads hk).imp fun keyword t _ ht => ?_)
  refine .bind ((bounded_mints fun n hn => letInits_mints h n (ht.2.fits hm) hn).imp
    fun inits u _ hu => ?_)
  refine .bind ((expect_reads (by decide) u).imp fun _ v _ hv => ?_)
  have hinits := ht.2.append (hu.1.token hv)
  refine .bind ((h.stmt v (hinits.fits_pred hl)).imp fun child w _ hw => ?_)
  refine .bind ((infoFrom_reads _ w).imp fun info x _ hinfo => .pure ?_)
  simp only [Stmt.ids, Stmt.Written]
  exact ⟨hinfo.node (hinits.append hw.1), hu.2.1, hu.2.2, hw.2⟩

theorem stmtWith_mints (hm : Fits m s) (hl : Fits (l + 1) s) : MintsStmt s (stmtWith g) := by
  refine .bind (kind_reads ?_)
  have hinit : s.kind ≠ .eof → Mints s (do return Stmt.init (← initStmt g)) 1 Stmt.ids
      fun r => r.isSimple = true ∧ r.Written := fun hk =>
    .bind ((initStmt_mints h hk hm).imp fun i t _ hi => .pure (by
      simp only [Stmt.ids, Stmt.isSimple, Stmt.Written]
      exact ⟨hi.1, trivial, hi.2⟩))
  split
  · next hk => exact simpleStmt_mints h hm (hinit (ne_eof hk (by decide)))
  · next hk => exact simpleStmt_mints h hm (hinit (ne_eof hk (by decide)))
  · next hk => exact simpleStmt_mints h hm (returnStmt_mints h (ne_eof hk (by decide)) hm)
  · next hk => exact ifStmt_mints h _ (ne_eof hk (by decide)) hm
  · next hk => exact ifStmt_mints h _ (ne_eof hk (by decide)) hm
  · next hk => exact caseStmt_mints h (ne_eof hk (by decide)) hm
  · next hk => exact forStmt_mints h (ne_eof hk (by decide)) hm
  · next hk => exact whileStmt_mints h (ne_eof hk (by decide)) hm
  · next hk => exact letStmt_mints h (ne_eof hk (by decide)) hm hl
  · exact simpleStmt_mints h hm (exprOrAssign_mints h hm)

/-! ### Blocks -/

theorem stmtsUntilClose_mints (n : Nat) (hl : Fits l s) (hn : Fits n s) :
    Mints s (stmtsUntilClose g n) 0 stmtIds stmtsWritten := by
  induction n generalizing s with
  | zero => exact outOfFuel_reads hn
  | succ n ih =>
    rw [stmtsUntilClose]
    refine .bind (.get ?_)
    split
    · refine .pure ?_
      simp only [stmtIds, stmtsWritten]
      exact ⟨.nil s, trivial⟩
    · split
      · exact fail_reads _
      · refine .bind ((h.stmt s hl).imp fun first t _ ht => ?_)
        refine .bind ((ih (ht.1.fits hl) (ht.1.fits_pred hn)).imp fun rest u _ hu => .pure ?_)
        simp only [stmtIds, stmtsWritten]
        exact ⟨(ht.1.append hu.1).loose, ht.2, hu.2⟩

theorem blockWith_mints (hl : Fits (l + 1) s) :
    Mints s (blockWith g) 1 Block.ids Block.Written := by
  refine .bind (position_reads ?_)
  refine .bind ((expect_reads (by decide) s).imp fun _ t _ ht => ?_)
  refine .bind ((bounded_mints fun n hn => stmtsUntilClose_mints h n (ht.fits_pred hl) hn).imp
    fun stmts u _ hu => ?_)
  refine .bind ((expect_reads (by decide) u).imp fun _ v _ hv => ?_)
  refine .bind ((infoFrom_reads _ v).imp fun info w _ hinfo => .pure ?_)
  simp only [Block.ids, Block.Written]
  exact ⟨hinfo.node (ht.append (hu.1.token hv)), hu.2⟩

end

/-! ### Closing the recursion -/

/-- The readers at a depth rely on those one level further down. Two levels make room for one more
token: an expression or a block consumes one before it goes down, a statement need not. -/
theorem minting_at (n : Nat) :
    (⟨exprAt n, blockAt n, stmtAt n⟩ : Nested).Minting ((n + 1) / 2) (n / 2) := by
  induction n with
  | zero =>
    exact ⟨fun _ _ hm => outOfFuel_reads hm, fun _ hm => outOfFuel_reads hm,
      fun _ hl => outOfFuel_reads hl⟩
  | succ n ih =>
    refine ⟨fun power s hm => ?_, fun s hm => ?_, fun s hl => ?_⟩
    · exact exprWith_mints ih power (hm.mono (by omega))
    · exact blockWith_mints ih (hm.mono (by omega))
    · exact stmtWith_mints ih hl (hl.mono (by omega))

/-- The depth that is taken from the tokens left is enough for any number of them. -/
theorem nested_minting (m l : Nat) : nested.Minting m l where
  expr power s _ := by
    refine bounded_mints fun n hn => (minting_at (depth n)).expr power s (hn.mono ?_)
    unfold depth
    omega
  block s _ := by
    refine bounded_mints fun n hn => (minting_at (depth n)).block s (hn.mono ?_)
    unfold depth
    omega
  stmt s _ := by
    refine bounded_mints fun n hn => (minting_at (depth n)).stmt s (hn.mono ?_)
    unfold depth
    omega

end Frontend.Parse
