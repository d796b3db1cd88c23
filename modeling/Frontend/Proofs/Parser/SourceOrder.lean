import Frontend.Parser.Program
import Frontend.Proofs.Parser.Ending
import Frontend.Proofs.Parser.Makes
import Frontend.Proofs.Token.Tiling

/-!
# Programs in source order

The statement forms and the definitions stand in the tokens that they are read from, as expressions
do. So the words of a program are those of the tokens, each of them once and in their order
(`Program.parse_words`), and the spans of its nodes nest and follow the order of the source
(`Program.parse_nests`).
-/

namespace Frontend

namespace Parse

variable {s t : TokenStream}

/-! ### Statements -/

theorem varDecl_makes (isVar : Bool) (s : TokenStream) :
    Makes s (varDecl isVar) 1 fun d => [d.piece] := by
  refine .bind (position_delivers ?_)
  refine .bind ((name_makes _ s).imp fun name t _ ht => ?_)
  refine .bind ((optionalType_makes t).imp fun type u _ hu => ?_)
  exact node_makes rfl (ht.append hu) fun _ => rfl

theorem holdsWord_of_assigns {kind : TokenKind}
    (h : kind = .assignment ∨ kind.compoundOp?.isSome) : kind.holdsWord = false := by
  cases kind <;> first | rfl | simp [TokenKind.compoundOp?] at h

section

variable {g : Nested} (h : g.Making)
include h

theorem optionalBlock_makes {keyword : TokenKind} (hw : keyword.holdsWord = false)
    (s : TokenStream) : Makes s (optional keyword g.block) 0 blockPieces := by
  refine (optional_makes h.block hw s).imp fun b t _ hb => ?_
  cases b <;> rw [blockPieces] <;> exact hb

theorem initStmt_makes (hk : s.kind.holdsWord = false) :
    Makes s (initStmt g) 1 fun i => [i.piece] := by
  refine .bind ((advance_makes hk).imp fun keyword t _ ⟨hstart, ht⟩ => ?_)
  refine .bind ((bounded_makes fun n => commaList_makes (varDecl_makes _) n t).imp
    fun decls u _ hu => ?_)
  refine .bind ((eat_makes rfl u).imp fun assigned v _ hv => ?_)
  have htail : ∀ {values : List Expr} {w : TokenStream}, Made v w 0 (exprPieces values) →
      Delivers (do return (⟨← infoFrom keyword.span.start, decls, values⟩ : Init))
        w fun (i : Init) x => Made s x 1 [i.piece] := fun hw =>
    node_makes hstart (ht.append (hu.append (hv.append hw)))
      fun _ => by simp [Init.piece, List.map_eq_flatMap]
  dsimp only
  split
  · exact .bind ((exprList_makes h v).imp fun values w _ hw => htail hw.loose)
  · split
    · exact .bind (fail_delivers _)
    · refine .bind (.pure (htail ?_))
      rw [exprPieces]
      exact .nil v

theorem returnStmt_makes (hk : s.kind.holdsWord = false) :
    Makes s (returnStmt g) 1 fun r => [r.piece] := by
  refine .bind ((advance_makes hk).imp fun keyword t _ ⟨hstart, ht⟩ => .bind (kind_delivers ?_))
  have htail : ∀ {values : List Expr} {w : TokenStream}, Made t w 0 (exprPieces values) →
      Delivers (do return Stmt.ret (← infoFrom keyword.span.start) values)
        w fun (r : Stmt) x => Made s x 1 [r.piece] := fun hw =>
    node_makes hstart (ht.append hw) fun _ => by simp [Stmt.piece]
  have hnone : Made t t 0 (exprPieces []) := by
    rw [exprPieces]
    exact .nil t
  dsimp only
  split
  · exact .bind (.pure (htail hnone))
  · exact .bind (.pure (htail hnone))
  · exact .bind (.pure (htail hnone))
  · exact .bind ((exprList_makes h t).imp fun values w _ hw => htail hw.loose)

theorem exprOrAssign_makes (s : TokenStream) :
    Makes s (exprOrAssign g) 1 fun r => [r.piece] := by
  refine .bind (position_delivers ?_)
  refine .bind ((exprList_makes h s).imp fun exprs t _ ht => ?_)
  refine .bind (kind_delivers ?_)
  dsimp only
  split
  · next hop =>
    refine .bind ((advance_makes (holdsWord_of_assigns hop)).imp fun _ u _ ⟨_, hu⟩ => ?_)
    refine .bind ((exprList_makes h u).imp fun values v _ hv => ?_)
    split
    · exact fail_delivers _
    · exact node_makes rfl (ht.append (hu.append hv))
        fun _ => by simp [Stmt.piece, exprPieces_asTarget]
  · split
    · refine .pure ?_
      simp only [exprPieces] at ht
      simp only [Stmt.piece]
      exact ht
    · exact fail_delivers _

theorem guard_makes {body : Stmt} (hbody : Made s t 1 [body.piece]) :
    Delivers (guard g s.position body) t fun r u => Made s u 1 [r.piece] := by
  refine .bind (kind_delivers ?_)
  have hguarded : ∀ kind : IfKind, t.kind.holdsWord = false → Delivers (do
      let _ ← advance
      let condition ← g.expr .default
      return Stmt.guarded (← infoFrom s.position) body kind condition)
      t fun (r : Stmt) u => Made s u 1 [r.piece] := by
    intro kind hk
    refine .bind ((advance_makes hk).imp fun _ u _ ⟨_, hu⟩ => ?_)
    refine .bind ((h.expr .default u).imp fun condition v _ hv => ?_)
    exact node_makes rfl (hbody.append (hu.append hv)) fun _ => by simp [Stmt.piece]
  dsimp only
  split
  · next hk => exact hguarded .if (mark_of hk rfl)
  · next hk => exact hguarded .unless (mark_of hk rfl)
  · exact .pure hbody

/-- A simple statement is a node with its condition, if it has one. The semicolon belongs to what
is around it. -/
theorem simpleStmt_makes {body : Parse Stmt} (hbody : Makes s body 1 fun r => [r.piece]) :
    Makes s (simpleStmt g body) 1 fun r => [r.piece] := by
  refine .bind (position_delivers (.bind (hbody.imp fun inner t _ ht => ?_)))
  refine .bind ((guard_makes h ht).imp fun r u _ hu => ?_)
  exact .bind ((expect_makes rfl u).imp fun _ v _ hv => .pure (hu.token hv))

theorem arm_makes (s : TokenStream) : Makes s (arm g) 1 fun a => [a.1.piece, a.2.piece] := by
  refine .bind ((h.expr .default s).imp fun condition t _ ht => ?_)
  exact .bind ((h.block t).imp fun body u _ hu => .pure (ht.append hu))

theorem valueArm_makes (s : TokenStream) :
    Makes s (valueArm g) 1 fun a => exprPieces a.1 ++ [a.2.piece] := by
  refine .bind ((exprList_makes h s).imp fun values t _ ht => ?_)
  exact .bind ((h.block t).imp fun body u _ hu => .pure (ht.append hu))

theorem arms_makes {keyword : TokenKind} (hw : keyword.holdsWord = false) (s : TokenStream) :
    Makes s (bounded (introduced keyword (arm g))) 0 armPieces := by
  refine (bounded_makes fun n => introduced_makes (arm_makes h) hw n s).imp fun arms t _ ht => ?_
  rw [armPieces_eq]
  exact ht

theorem valueArms_makes (s : TokenStream) :
    Makes s (bounded (introduced .when (valueArm g))) 0 valueArmPieces := by
  refine (bounded_makes fun n => introduced_makes (valueArm_makes h) rfl n s).imp
    fun arms t _ ht => ?_
  rw [valueArmPieces_eq]
  exact ht

theorem ifStmt_makes (kind : IfKind) (hk : s.kind.holdsWord = false) :
    Makes s (ifStmt g kind) 1 fun r => [r.piece] := by
  refine .bind ((advance_makes hk).imp fun keyword t _ ⟨hstart, ht⟩ => ?_)
  refine .bind ((arm_makes h t).imp fun first u _ hu => ?_)
  refine .bind ((arms_makes h rfl u).imp fun elseifs v _ hv => ?_)
  refine .bind ((optionalBlock_makes h rfl v).imp fun elseBlock w _ hw => ?_)
  exact node_makes hstart (ht.append (hu.append (hv.append hw))) fun _ => by simp [Stmt.piece]

theorem caseStmt_makes (hk : s.kind.holdsWord = false) :
    Makes s (caseStmt g) 1 fun r => [r.piece] := by
  refine .bind ((advance_makes hk).imp fun keyword t _ ⟨hstart, ht⟩ => ?_)
  refine .bind ((eat_makes rfl t).imp fun bare u _ hu => ?_)
  split
  · refine .bind ((arms_makes h rfl u).imp fun whens v _ hv => ?_)
    refine .bind ((optionalBlock_makes h rfl v).imp fun elseBlock w _ hw => ?_)
    refine .bind ((expect_makes rfl w).imp fun _ x _ hx => ?_)
    exact node_makes hstart (ht.append (hu.append (hv.append (hw.token hx))))
      fun _ => by simp [Stmt.piece]
  · refine .bind ((h.expr .default u).imp fun target v _ hv => ?_)
    refine .bind ((expect_makes rfl v).imp fun _ w _ hw => ?_)
    refine .bind ((valueArms_makes h w).imp fun whens x _ hx => ?_)
    refine .bind ((optionalBlock_makes h rfl x).imp fun elseBlock y _ hy => ?_)
    refine .bind ((expect_makes rfl y).imp fun _ z _ hz => ?_)
    have hwhens := hw.append (hx.append (hy.token hz))
    exact node_makes hstart (ht.append (hu.append (hv.append hwhens)))
      fun _ => by simp [Stmt.piece]

theorem forStmt_makes (hk : s.kind.holdsWord = false) :
    Makes s (forStmt g) 1 fun r => [r.piece] := by
  refine .bind ((advance_makes hk).imp fun keyword t _ ⟨hstart, ht⟩ => ?_)
  refine .bind ((bounded_makes fun n => commaList_makes param_makes n t).imp fun vars u _ hu => ?_)
  refine .bind ((expect_makes rfl u).imp fun _ v _ hv => ?_)
  refine .bind ((h.expr .default v).imp fun range w _ hw => ?_)
  refine .bind ((h.block w).imp fun body x _ hx => ?_)
  exact node_makes hstart (ht.append (hu.append (hv.append (hw.append hx))))
    fun _ => by simp [Stmt.piece, List.map_eq_flatMap]

theorem whileStmt_makes (hk : s.kind.holdsWord = false) :
    Makes s (whileStmt g) 1 fun r => [r.piece] := by
  refine .bind ((advance_makes hk).imp fun keyword t _ ⟨hstart, ht⟩ => ?_)
  refine .bind ((h.expr .default t).imp fun condition u _ hu => ?_)
  refine .bind ((h.block u).imp fun body v _ hv => ?_)
  exact node_makes hstart (ht.append (hu.append hv)) fun _ => by simp [Stmt.piece]

theorem letInits_makes (n : Nat) (s : TokenStream) : Makes s (letInits g n) 1 initPieces := by
  induction n generalizing s with
  | zero => exact outOfFuel_delivers
  | succ n ih =>
    rw [letInits]
    refine .bind (kind_delivers ?_)
    have hinit : s.kind.holdsWord = false → Delivers (do
        let first ← initStmt g
        if ← eat .semicolon then return first :: (← letInits g n) else return [first])
        s fun inits u => Made s u 1 (initPieces inits) := by
      intro hk
      refine .bind ((initStmt_makes h hk).imp fun first t _ ht => ?_)
      refine .bind ((eat_makes rfl t).imp fun more u _ hu => ?_)
      split
      · refine .bind ((ih u).imp fun rest v _ hv => .pure ?_)
        rw [initPieces]
        exact ht.append (hu.append hv)
      · refine .pure ?_
        simp only [initPieces]
        exact ht.token hu
    split
    · next hk => exact hinit (mark_of hk rfl)
    · next hk => exact hinit (mark_of hk rfl)
    · exact fail_delivers _

theorem letStmt_makes (hk : s.kind.holdsWord = false) :
    Makes s (letStmt g) 1 fun r => [r.piece] := by
  refine .bind ((advance_makes hk).imp fun keyword t _ ⟨hstart, ht⟩ => ?_)
  refine .bind ((bounded_makes fun n => letInits_makes h n t).imp fun inits u _ hu => ?_)
  refine .bind ((expect_makes rfl u).imp fun _ v _ hv => ?_)
  refine .bind ((h.stmt v).imp fun child w _ hw => ?_)
  exact node_makes hstart (ht.append (hu.append (hv.append hw))) fun _ => by simp [Stmt.piece]

theorem stmtWith_makes (s : TokenStream) : Makes s (stmtWith g) 1 fun r => [r.piece] := by
  refine .bind (kind_delivers ?_)
  have hinit : s.kind.holdsWord = false →
      Makes s (do return Stmt.init (← initStmt g)) 1 fun r => [r.piece] := fun hk =>
    .bind ((initStmt_makes h hk).imp fun i t _ hi => .pure (by
      simp only [Stmt.piece]
      exact hi))
  split
  · next hk => exact simpleStmt_makes h (hinit (mark_of hk rfl))
  · next hk => exact simpleStmt_makes h (hinit (mark_of hk rfl))
  · next hk => exact simpleStmt_makes h (returnStmt_makes h (mark_of hk rfl))
  · next hk => exact ifStmt_makes h _ (mark_of hk rfl)
  · next hk => exact ifStmt_makes h _ (mark_of hk rfl)
  · next hk => exact caseStmt_makes h (mark_of hk rfl)
  · next hk => exact forStmt_makes h (mark_of hk rfl)
  · next hk => exact whileStmt_makes h (mark_of hk rfl)
  · next hk => exact letStmt_makes h (mark_of hk rfl)
  · exact simpleStmt_makes h (exprOrAssign_makes h s)

theorem stmtsUntilClose_makes (n : Nat) (s : TokenStream) :
    Makes s (stmtsUntilClose g n) 0 stmtPieces := by
  induction n generalizing s with
  | zero => exact outOfFuel_delivers
  | succ n ih =>
    rw [stmtsUntilClose]
    refine .bind (.get ?_)
    split
    · refine .pure ?_
      rw [stmtPieces]
      exact .nil s
    · split
      · exact fail_delivers _
      · refine .bind ((h.stmt s).imp fun first t _ ht => ?_)
        refine .bind ((ih t).imp fun rest u _ hu => .pure ?_)
        rw [stmtPieces]
        exact (ht.append hu).loose

theorem blockWith_makes (s : TokenStream) : Makes s (blockWith g) 1 fun b => [b.piece] := by
  refine .bind (position_delivers ?_)
  refine .bind ((expect_makes rfl s).imp fun _ t _ ht => ?_)
  refine .bind ((bounded_makes fun n => stmtsUntilClose_makes h n t).imp fun stmts u _ hu => ?_)
  refine .bind ((expect_makes rfl u).imp fun _ v _ hv => ?_)
  exact node_makes rfl (ht.append (hu.token hv)) fun _ => by simp [Block.piece]

end

/-! ### Closing the recursion -/

theorem making_at (n : Nat) : (⟨exprAt n, blockAt n, stmtAt n⟩ : Nested).Making := by
  induction n with
  | zero =>
    exact ⟨fun _ _ => outOfFuel_delivers, fun _ => outOfFuel_delivers, fun _ => outOfFuel_delivers⟩
  | succ n ih => exact ⟨exprWith_makes ih, blockWith_makes ih, stmtWith_makes ih⟩

theorem nested_making : nested.Making where
  expr power s := bounded_makes fun n => (making_at (depth n)).expr power s
  block s := bounded_makes fun n => (making_at (depth n)).block s
  stmt s := bounded_makes fun n => (making_at (depth n)).stmt s

/-! ### Definitions -/

theorem returnType_makes (kind : FuncKind) (s : TokenStream) :
    Makes s (returnType kind) 0 fun o => (o.map TypeExpr.piece).toList := by
  refine .bind (kind_delivers ?_)
  split
  · exact fail_delivers _
  · exact optionalType_makes s

theorem function_makes (kind : FuncKind) (hkind : kind ≠ .lambda)
    (hk : s.kind.holdsWord = false) : Makes s (function kind) 1 fun d => [d.piece] := by
  refine .bind ((advance_makes hk).imp fun keyword t _ ⟨hstart, ht⟩ => ?_)
  refine .bind ((name_makes _ t).imp fun name u _ hu => ?_)
  refine .bind ((expect_makes rfl u).imp fun _ v _ hv => ?_)
  refine .bind ((params_makes _ v).imp fun params w _ hw => ?_)
  refine .bind ((expect_makes rfl w).imp fun _ x _ hx => ?_)
  refine .bind ((returnType_makes kind x).imp fun type y _ hy => ?_)
  refine .bind ((nested_making.block y).imp fun body z _ hz => ?_)
  refine .bind ((optionalBlock_makes nested_making rfl z).imp fun ensureBody a _ ha => ?_)
  have hname : kind.namePieces name = [.word (.name name)] := by
    cases kind <;> first | rfl | exact absurd rfl hkind
  have hall := ht.append (hu.append (hv.append (hw.append (hx.append (hy.append
    (hz.append ha))))))
  exact node_makes hstart hall fun _ => by simp [FuncDef.piece, hname]

theorem constDecl_makes (s : TokenStream) : Makes s constDecl 1 fun d => [d.piece] := by
  refine .bind (position_delivers ?_)
  refine .bind ((name_makes _ s).imp fun name t _ ht => ?_)
  refine .bind ((optionalType_makes t).imp fun type u _ hu => ?_)
  exact node_makes rfl (ht.append hu) fun _ => rfl

theorem constant_makes (hk : s.kind.holdsWord = false) :
    Makes s constant 1 fun d => [d.piece] := by
  refine .bind ((advance_makes hk).imp fun keyword t _ ⟨hstart, ht⟩ => ?_)
  refine .bind ((bounded_makes fun n => commaList_makes constDecl_makes n t).imp
    fun decls u _ hu => ?_)
  refine .bind ((expectOr_makes rfl _ u).imp fun _ v _ hv => ?_)
  refine .bind ((exprList_makes nested_making v).imp fun values w _ hw => ?_)
  refine .bind ((expect_makes rfl w).imp fun _ x _ hx => ?_)
  exact node_makes hstart (ht.append (hu.append (hv.append (hw.token hx))))
    fun _ => by simp [ConstDef.piece, List.map_eq_flatMap]

theorem definition_makes (s : TokenStream) : Makes s definition 1 fun d => [d.piece] := by
  refine .bind (kind_delivers ?_)
  split
  · next hk => exact .bind ((function_makes .func nofun (mark_of hk rfl)).imp
      fun d t _ ht => .pure ht)
  · next hk => exact .bind ((function_makes .proc nofun (mark_of hk rfl)).imp
      fun d t _ ht => .pure ht)
  · next hk => exact .bind ((constant_makes (mark_of hk rfl)).imp fun d t _ ht => .pure ht)
  · exact fail_delivers _

theorem definitions_makes (n : Nat) (s : TokenStream) :
    Makes s (definitions n) 0 (List.map Definition.piece) := by
  induction n generalizing s with
  | zero => exact outOfFuel_delivers
  | succ n ih =>
    rw [definitions]
    refine .bind (.get ?_)
    split
    · refine .bind ((definition_makes s).imp fun first t _ ht => ?_)
      exact .bind ((ih t).imp fun rest u _ hu => .pure (ht.append hu).loose)
    · exact .pure (.nil s)

theorem program_delivers (s : TokenStream) :
    Delivers program s fun p t => ∃ u, Made s u 0 (p.definitions.map Definition.piece) ∧
      Placed p.info s.position u t := by
  refine .bind (position_delivers ?_)
  refine .bind ((bounded_makes fun n => definitions_makes n s).imp fun ds t _ ht => ?_)
  exact .bind ((infoFrom_places _ t).imp fun info u _ hinfo => .pure ⟨t, ht, hinfo⟩)

/-- A program that is read stands in the tokens in front of the end of the file. -/
theorem program_laid {tokens : List Token} {file : String} {firstId : Nat} {p : Program}
    (h : program (.ofTokens tokens file firstId) = .ok p t) :
    Laid (Token.content tokens) (p.definitions.map Definition.piece) ∧
      (p.definitions ≠ [] → p.info.span.Covers (Token.content tokens)) := by
  obtain ⟨u, hmade, hplaced⟩ := (program_delivers _).of_ok h
  have hcontent : tokens = Token.content tokens ++ t.rest := program_content h
  by_cases hnil : t.rest = []
  · obtain rfl : tokens = [] := by
      have hpassed := ((program_mints _).of_ok h).1
      have heof : t.final.kind = .eof := by
        have hstop : t.kind = .eof := (program_stops _).of_ok h
        rwa [TokenStream.kind, TokenStream.current, hnil] at hstop
      by_contra hne
      -- all tokens have been passed, but one that ends the file is not passed
      obtain ⟨used, hused, hkinds⟩ := hpassed.passed
      obtain ⟨last, hlast⟩ := Option.ne_none_iff_exists'.mp (mt List.getLast?_eq_none_iff.mp hne)
      rw [hpassed.final, final_ofTokens hlast] at heof
      rw [hnil, List.append_nil] at hused
      exact hkinds last (hused ▸ List.mem_of_getLast? hlast) heof
    cases h
    exact ⟨.nil, fun hne => absurd rfl hne⟩
  · obtain ⟨used, hs, -, hend, hlaid⟩ := hmade.laid (hplaced.rest ▸ hnil)
    obtain rfl : used = Token.content tokens := by
      refine (List.append_left_inj u.rest).mp ?_
      rw [← hplaced.rest, ← hcontent, hplaced.rest]
      exact hs.symm
    refine ⟨hlaid, fun hne => hplaced.covers hs (hlaid.tokens_ne_nil ?_) hend⟩
    exact mt List.map_eq_nil_iff.mp hne

end Parse

namespace Program

variable {tokens : List Token} {file : String} {firstId nextId : Nat} {p : Program}

/-- A program that is read stands in the tokens in front of the end of the file. -/
theorem parse_laid (h : Program.parse tokens file firstId = .ok (p, nextId)) :
    Laid (Token.content tokens) (p.definitions.map Definition.piece) ∧
      (p.definitions ≠ [] → p.info.span.Covers (Token.content tokens)) := by
  rw [Program.parse] at h
  split at h
  · next hrun =>
    cases h
    exact Parse.program_laid hrun
  · cases h

/-- The names and literals of a program that is read are those of the tokens in front of the end of
the file: none is lost, added or moved, and each numeral has its value. -/
theorem parse_words (h : Program.parse tokens file firstId = .ok (p, nextId)) :
    ((Token.content tokens).filter (·.kind.holdsWord)).map Token.word? =
      p.piece.words.map some :=
  (parse_laid h).1.words

/-- Ungrouped parentheses, a character literal with more than one character and a symbol. -/
theorem parse_words_constant :
    let mark (kind : TokenKind) : Token := ⟨kind, "", .null⟩
    let tokens : List Token := [mark .const, ⟨.identifier, "a", .null⟩, mark .assignment,
      mark .openParen, ⟨.uint, "02", .null⟩, mark .closeParen, mark .comma, ⟨.char, "xy", .null⟩,
      mark .comma, mark .colon, ⟨.identifier, "b", .null⟩, mark .semicolon, mark .eof]
    ∃ p nextId, Program.parse tokens "main" 0 = .ok (p, nextId) ∧
      p.piece.words = [.name "a", .literal (.uint 2), .literal (.char 'x'), .name "b"] := by
  intro mark tokens
  have hread : (Program.parse tokens "main" 0).toOption.isSome = true := by decide +kernel
  obtain ⟨⟨p, nextId⟩, hparse⟩ := Option.isSome_iff_exists.mp hread
  have h := eq_ok_of_toOption hparse
  refine ⟨p, nextId, h, List.map_injective_iff.mpr (fun _ _ => Option.some.inj) ?_⟩
  rw [← parse_words h]
  decide +kernel

/-- The tokens of a source stand one behind the other. -/
theorem ordered_of_tokenize {source : String} (h : Token.tokenize source file = .ok tokens) :
    Token.Ordered tokens := by
  have htiled := Token.tiled_of_tokenize h
  refine ⟨fun t ht => ?_, htiled.increasing.imp And.right⟩
  obtain ⟨eof, hlast, -, -, hempty, -⟩ := htiled.last
  obtain ⟨front, rfl⟩ := List.getLast?_eq_some_iff.mp hlast
  obtain hfront | heof := List.mem_append.mp ht
  · have hspelled := htiled.spelled t (by rwa [List.dropLast_concat])
    exact Nat.le_of_lt hspelled.2.1
  · obtain rfl := List.mem_singleton.mp heof
    exact Nat.le_of_eq (congrArg Position.offset hempty)

/-- The nodes of a program that is read from a source: each runs from the start of a token to the
end of one that is not before it, and has its parts inside, one behind the other. A program without
definitions runs over no token. -/
theorem parse_nests {source : String} (htokens : Token.tokenize source file = .ok tokens)
    (h : Program.parse tokens file firstId = .ok (p, nextId)) :
    p.piece.nodes.map (·.1.id) = p.ids ∧
      ∀ node ∈ p.piece.nodes,
        (p.definitions ≠ [] →
          ∃ run, run <:+: Token.content tokens ∧ node.1.span.Covers run) ∧
        node.1.span.Nests (node.2.filterMap Piece.span?) := by
  obtain ⟨hlaid, hcovers⟩ := parse_laid h
  have hordered : Token.Ordered (Token.content tokens) :=
    (ordered_of_tokenize htokens).sublist (List.takeWhile_sublist _)
  refine ⟨p.piece_ids, fun node hnode => ?_⟩
  rw [Program.piece, Piece.nodes] at hnode
  obtain rfl | hinner := List.mem_cons.mp hnode
  · refine ⟨fun hne => ⟨_, List.infix_rfl, hcovers hne⟩, ?_⟩
    by_cases hempty : p.definitions = []
    · rw [hempty]
      exact ⟨List.forall_mem_nil _, .nil⟩
    · exact hlaid.nests (hcovers hempty) hordered
  · obtain ⟨run, hrun, hspan, hparts⟩ := hlaid.of_mem_nodes node hinner
    exact ⟨fun _ => ⟨run, hrun, hspan⟩, hparts.nests hspan (hordered.sublist hrun.sublist)⟩

/-- Parentheses belong to no node of their own: the sum begins behind the first one. -/
theorem parse_nests_sum :
    ∃ tokens p nextId, Token.tokenize "const a = (b) + 1;" "main" = .ok tokens ∧
      Program.parse tokens "main" 0 = .ok (p, nextId) ∧
      p.piece.nodes.map (fun node => (node.1.span.start.offset, node.1.span.stop.offset)) =
        [(0, 18), (0, 18), (6, 7), (11, 17), (11, 12), (16, 17)] ∧
      ∀ node ∈ p.piece.nodes, node.1.span.Nests (node.2.filterMap Piece.span?) := by
  have hread : ((Token.tokenize "const a = (b) + 1;" "main").toOption.bind fun tokens =>
      (Program.parse tokens "main" 0).toOption).map (fun r => r.1.piece.nodes.map
        fun node => (node.1.span.start.offset, node.1.span.stop.offset)) =
      some [(0, 18), (0, 18), (6, 7), (11, 17), (11, 12), (16, 17)] := by decide +kernel
  obtain ⟨⟨p, nextId⟩, hread, hoffsets⟩ := Option.map_eq_some_iff.mp hread
  obtain ⟨tokens, htokens, hparse⟩ := Option.bind_eq_some_iff.mp hread
  have htokens := eq_ok_of_toOption htokens
  have h := eq_ok_of_toOption hparse
  exact ⟨tokens, p, nextId, htokens, h, hoffsets,
    fun node hnode => ((parse_nests htokens h).2 node hnode).2⟩

end Program

end Frontend
