import Frontend.Parser.Program
import Frontend.Proofs.Parser.Ground

/-!
# Programs that are read are regular

The statements and definitions of the grammar, and with them the whole program: its nodes begin
where tokens begin, and what cannot be read is reported at a token.
-/

namespace Frontend

/-- A definition is regular: a function on its root as well, save for the id that it has. -/
def Definition.Regular (g : Ground) : Definition → Prop
  | .function d => g.place d.info.span.start ∧ d.Regular g
  | .constant d => d.Regular g

namespace Parse

variable {place : Position → Prop}

section

variable {g : Nested} (h : g.Keeps place)

/-! ### Simple statements -/

theorem varDecl_keeps (isVar : Bool) :
    Keeps place (varDecl isVar) (VarDecl.Regular (.at place)) := by
  refine .bind position_keeps fun _ hstart => ?_
  refine .bind (name_keeps _) fun _ _ => ?_
  refine .bind optionalType_keeps fun _ htype => ?_
  refine .bind (infoFrom_keeps hstart) fun _ hinfo => ?_
  exact .pure ⟨hinfo, htype⟩

include h

theorem initStmt_keeps : Keeps place (initStmt g) (Init.Regular (.at place)) := by
  refine .bind advance_keeps fun keyword hkeyword => ?_
  refine .bind (bounded_keeps fun n => commaList_keeps (varDecl_keeps _) n) fun decls hdecls => ?_
  refine .bind (eat_keeps _) fun more _ => ?_
  have hrest : ∀ values, exprsRegular (.at place) values → Keeps place (do
      return (⟨← infoFrom keyword.span.start, decls, values⟩ : Init))
        (Init.Regular (.at place)) := by
    refine fun values hvalues => .bind (infoFrom_keeps hkeyword) fun info hinfo => .pure ?_
    simp only [Init.Regular]
    exact ⟨⟨hinfo, trivial⟩, hdecls, hvalues⟩
  dsimp only
  split
  · exact .bind (exprList_keeps h) hrest
  · split
    · exact .bind (fail_keeps _) hrest
    · exact .bind (.pure (by simp only [exprsRegular])) hrest

theorem returnStmt_keeps : Keeps place (returnStmt g) (Stmt.Regular (.at place)) := by
  refine .bind advance_keeps fun keyword hkeyword => ?_
  refine .bind kind_keeps fun kind _ => ?_
  have hrest : ∀ values, exprsRegular (.at place) values → Keeps place (do
      return Stmt.ret (← infoFrom keyword.span.start) values) (Stmt.Regular (.at place)) := by
    refine fun values hvalues => .bind (infoFrom_keeps hkeyword) fun info hinfo => .pure ?_
    simp only [Stmt.Regular]
    exact ⟨⟨hinfo, trivial⟩, hvalues⟩
  have hnone : exprsRegular (.at place) [] := by simp only [exprsRegular]
  dsimp only
  split
  · exact .bind (.pure hnone) hrest
  · exact .bind (.pure hnone) hrest
  · exact .bind (.pure hnone) hrest
  · exact .bind (exprList_keeps h) hrest

theorem exprOrAssign_keeps : Keeps place (exprOrAssign g) (Stmt.Regular (.at place)) := by
  refine .bind position_keeps fun start hstart => ?_
  refine .bind (exprList_keeps h) fun exprs hexprs => ?_
  refine .bind kind_keeps fun kind _ => ?_
  dsimp only
  split
  · refine .bind advance_keeps fun _ _ => ?_
    refine .bind (exprList_keeps h) fun values hvalues => ?_
    split
    · exact fail_keeps _
    · refine .bind (infoFrom_keeps hstart) fun info hinfo => .pure ?_
      simp only [Stmt.Regular, exprsRegular_iff, List.forall_mem_map]
      rw [exprsRegular_iff] at hexprs hvalues
      exact ⟨⟨hinfo, trivial⟩, fun e he => (hexprs e he).asTarget, hvalues⟩
  · split
    · simp only [exprsRegular, and_true] at hexprs
      exact .pure (by simpa only [Stmt.Regular] using hexprs)
    · exact fail_keeps _

theorem guard_keeps {start : Position} (hstart : place start) {body : Stmt}
    (hbody : body.Regular (.at place)) :
    Keeps place (guard g start body) (Stmt.Regular (.at place)) := by
  have hguarded : ∀ kind, Keeps place (do
      let _ ← advance
      let condition ← g.expr .default
      return Stmt.guarded (← infoFrom start) body kind condition) (Stmt.Regular (.at place)) := by
    refine fun kind => .bind advance_keeps fun _ _ => .bind (h.expr _) fun condition hcondition =>
      .bind (infoFrom_keeps hstart) fun info hinfo => .pure ?_
    simp only [Stmt.Regular]
    exact ⟨⟨hinfo, trivial⟩, hbody, hcondition⟩
  refine .bind kind_keeps fun kind _ => ?_
  split
  · exact hguarded _
  · exact hguarded _
  · exact .pure hbody

theorem simpleStmt_keeps {body : Parse Stmt}
    (hbody : Keeps place body (Stmt.Regular (.at place))) :
    Keeps place (simpleStmt g body) (Stmt.Regular (.at place)) := by
  refine .bind position_keeps fun _ hstart => ?_
  refine .bind hbody fun _ hbody => ?_
  refine .bind (guard_keeps h hstart hbody) fun _ hstmt => ?_
  refine .bind (expect_keeps _) fun _ _ => ?_
  exact .pure hstmt

/-! ### Compound statements -/

theorem arm_keeps : Keeps place (arm g) fun a =>
    a.1.Regular (.at place) ∧ a.2.Regular (.at place) := by
  refine .bind (h.expr _) fun _ hcondition => ?_
  refine .bind h.block fun _ hblock => ?_
  exact .pure ⟨hcondition, hblock⟩

theorem valueArm_keeps : Keeps place (valueArm g) fun a =>
    exprsRegular (.at place) a.1 ∧ a.2.Regular (.at place) := by
  refine .bind (exprList_keeps h) fun _ hvalues => ?_
  refine .bind h.block fun _ hblock => ?_
  exact .pure ⟨hvalues, hblock⟩

theorem arms_keeps (keyword : TokenKind) :
    Keeps place (bounded (introduced keyword (arm g))) (armsRegular (.at place)) :=
  (bounded_keeps fun n => introduced_keeps keyword (arm_keeps h) n).imp fun _ ha =>
    (armsRegular_iff _).mpr ha

theorem optionalBlock_keeps (keyword : TokenKind) :
    Keeps place (optional keyword g.block) (blockRegular (.at place)) :=
  (optional_keeps keyword h.block).imp fun _ hb => (blockRegular_iff _).mpr hb

theorem ifStmt_keeps (kind : IfKind) :
    Keeps place (ifStmt g kind) (Stmt.Regular (.at place)) := by
  refine .bind advance_keeps fun keyword hkeyword => ?_
  refine .bind (arm_keeps h) fun first hfirst => ?_
  refine .bind (arms_keeps h _) fun elseifs helseifs => ?_
  refine .bind (optionalBlock_keeps h _) fun elseBlock helse => ?_
  refine .bind (infoFrom_keeps hkeyword) fun info hinfo => ?_
  refine .pure ?_
  simp only [Stmt.Regular]
  exact ⟨⟨hinfo, trivial⟩, hfirst.1, hfirst.2, helseifs, helse⟩

theorem caseStmt_keeps : Keeps place (caseStmt g) (Stmt.Regular (.at place)) := by
  refine .bind advance_keeps fun keyword hkeyword => ?_
  refine .bind (eat_keeps _) fun opened _ => ?_
  split
  · refine .bind (arms_keeps h _) fun whens hwhens => ?_
    refine .bind (optionalBlock_keeps h _) fun elseBlock helse => ?_
    refine .bind (expect_keeps _) fun _ _ => ?_
    refine .bind (infoFrom_keeps hkeyword) fun info hinfo => ?_
    refine .pure ?_
    simp only [Stmt.Regular]
    exact ⟨⟨hinfo, trivial⟩, hwhens, helse⟩
  · refine .bind (h.expr _) fun target htarget => ?_
    refine .bind (expect_keeps _) fun _ _ => ?_
    refine .bind (bounded_keeps fun n => introduced_keeps _ (valueArm_keeps h) n)
      fun whens hwhens => ?_
    refine .bind (optionalBlock_keeps h _) fun elseBlock helse => ?_
    refine .bind (expect_keeps _) fun _ _ => ?_
    refine .bind (infoFrom_keeps hkeyword) fun info hinfo => ?_
    refine .pure ?_
    simp only [Stmt.Regular]
    exact ⟨⟨hinfo, trivial⟩, htarget, (valueArmsRegular_iff _).mpr hwhens, helse⟩

theorem forStmt_keeps : Keeps place (forStmt g) (Stmt.Regular (.at place)) := by
  refine .bind advance_keeps fun keyword hkeyword => ?_
  refine .bind (bounded_keeps fun n => commaList_keeps param_keeps n) fun vars hvars => ?_
  refine .bind (expect_keeps _) fun _ _ => ?_
  refine .bind (h.expr _) fun range hrange => ?_
  refine .bind h.block fun body hbody => ?_
  refine .bind (infoFrom_keeps hkeyword) fun info hinfo => ?_
  refine .pure ?_
  simp only [Stmt.Regular]
  exact ⟨⟨hinfo, trivial⟩, hvars, hrange, hbody⟩

theorem whileStmt_keeps : Keeps place (whileStmt g) (Stmt.Regular (.at place)) := by
  refine .bind advance_keeps fun keyword hkeyword => ?_
  refine .bind (h.expr _) fun condition hcondition => ?_
  refine .bind h.block fun body hbody => ?_
  refine .bind (infoFrom_keeps hkeyword) fun info hinfo => ?_
  refine .pure ?_
  simp only [Stmt.Regular]
  exact ⟨⟨hinfo, trivial⟩, hcondition, hbody⟩

theorem letInits_keeps (n : Nat) : Keeps place (letInits g n) (initsRegular (.at place)) := by
  induction n with
  | zero => exact outOfFuel_keeps
  | succ n ih =>
    have hinit : Keeps place (do
        let first ← initStmt g
        if ← eat .semicolon then return first :: (← letInits g n) else return [first])
          (initsRegular (.at place)) := by
      refine .bind (initStmt_keeps h) fun first hfirst => ?_
      refine .bind (eat_keeps _) fun more _ => ?_
      split
      · refine .bind ih fun rest hrest => .pure ?_
        simp only [initsRegular]
        exact ⟨hfirst, hrest⟩
      · refine .pure ?_
        simp only [initsRegular, and_true]
        exact hfirst
    rw [letInits]
    refine .bind kind_keeps fun kind _ => ?_
    split
    · exact hinit
    · exact hinit
    · exact fail_keeps _

theorem letStmt_keeps : Keeps place (letStmt g) (Stmt.Regular (.at place)) := by
  refine .bind advance_keeps fun keyword hkeyword => ?_
  refine .bind (bounded_keeps fun n => letInits_keeps h n) fun inits hinits => ?_
  refine .bind (expect_keeps _) fun _ _ => ?_
  refine .bind h.stmt fun child hchild => ?_
  refine .bind (infoFrom_keeps hkeyword) fun info hinfo => ?_
  refine .pure ?_
  simp only [Stmt.Regular]
  exact ⟨⟨hinfo, trivial⟩, hinits, hchild⟩

theorem stmtWith_keeps : Keeps place (stmtWith g) (Stmt.Regular (.at place)) := by
  have hinit : Keeps place (simpleStmt g (return .init (← initStmt g)))
      (Stmt.Regular (.at place)) :=
    simpleStmt_keeps h (.bind (initStmt_keeps h) fun init hinit => .pure (by
      simpa only [Stmt.Regular] using hinit))
  refine .bind kind_keeps fun kind _ => ?_
  split
  · exact hinit
  · exact hinit
  · exact simpleStmt_keeps h (returnStmt_keeps h)
  · exact ifStmt_keeps h _
  · exact ifStmt_keeps h _
  · exact caseStmt_keeps h
  · exact forStmt_keeps h
  · exact whileStmt_keeps h
  · exact letStmt_keeps h
  · exact simpleStmt_keeps h (exprOrAssign_keeps h)

/-! ### Blocks -/

theorem stmtsUntilClose_keeps (n : Nat) :
    Keeps place (stmtsUntilClose g n) (stmtsRegular (.at place)) := by
  induction n with
  | zero => exact outOfFuel_keeps
  | succ n ih =>
    rw [stmtsUntilClose]
    refine .get fun s _ => ?_
    split
    · exact .pure (by simp only [stmtsRegular])
    · split
      · exact fail_keeps _
      · refine .bind h.stmt fun first hfirst => ?_
        refine .bind ih fun rest hrest => ?_
        refine .pure ?_
        simp only [stmtsRegular]
        exact ⟨hfirst, hrest⟩

theorem blockWith_keeps : Keeps place (blockWith g) (Block.Regular (.at place)) := by
  refine .bind position_keeps fun start hstart => ?_
  refine .bind (expect_keeps _) fun _ _ => ?_
  refine .bind (bounded_keeps fun n => stmtsUntilClose_keeps h n) fun stmts hstmts => ?_
  refine .bind (expect_keeps _) fun _ _ => ?_
  refine .bind (infoFrom_keeps hstart) fun info hinfo => ?_
  refine .pure ?_
  simp only [Block.Regular]
  exact ⟨hinfo, hstmts⟩

end

/-! ### Closing the recursion -/

theorem keeps_at (n : Nat) : (⟨exprAt n, blockAt n, stmtAt n⟩ : Nested).Keeps place := by
  induction n with
  | zero => exact ⟨fun _ => outOfFuel_keeps, outOfFuel_keeps, outOfFuel_keeps⟩
  | succ n ih => exact ⟨exprWith_keeps ih, blockWith_keeps ih, stmtWith_keeps ih⟩

theorem nested_keeps : nested.Keeps place where
  expr power := bounded_keeps fun n => (keeps_at (depth n)).expr power
  block := bounded_keeps fun n => (keeps_at (depth n)).block
  stmt := bounded_keeps fun n => (keeps_at (depth n)).stmt

/-! ### Programs -/

theorem returnType_keeps (kind : FuncKind) :
    Keeps place (returnType kind) fun o => ∀ t ∈ o, t.Regular (.at place) :=
  .bind kind_keeps fun _ _ => by
    split
    · exact fail_keeps _
    · exact optionalType_keeps

theorem function_keeps (kind : FuncKind) : Keeps place (function kind) fun d =>
    place d.info.span.start ∧ d.Regular (.at place) := by
  refine .bind advance_keeps fun keyword hkeyword => ?_
  refine .bind (name_keeps _) fun name _ => ?_
  refine .bind (expect_keeps _) fun _ _ => ?_
  refine .bind (bounded_keeps fun n => listUntil_keeps _ param_keeps n) fun params hparams => ?_
  refine .bind (expect_keeps _) fun _ _ => ?_
  refine .bind (returnType_keeps kind) fun type htype => ?_
  refine .bind nested_keeps.block fun body hbody => ?_
  refine .bind (optionalBlock_keeps nested_keeps _) fun ensureBody hensure => ?_
  refine .bind (infoFrom_keeps hkeyword) fun info hinfo => ?_
  refine .pure ⟨hinfo.place, ?_⟩
  simp only [FuncDef.Regular]
  exact ⟨hparams, htype, hbody, hensure⟩

theorem constDecl_keeps : Keeps place constDecl (ConstDecl.Regular (.at place)) := by
  refine .bind position_keeps fun _ hstart => ?_
  refine .bind (name_keeps _) fun _ _ => ?_
  refine .bind optionalType_keeps fun _ htype => ?_
  refine .bind (infoFrom_keeps hstart) fun _ hinfo => ?_
  exact .pure ⟨hinfo, htype⟩

theorem constant_keeps : Keeps place constant (ConstDef.Regular (.at place)) := by
  refine .bind advance_keeps fun _ hkeyword => ?_
  refine .bind (bounded_keeps fun n => commaList_keeps constDecl_keeps n) fun _ hdecls => ?_
  refine .bind (expectOr_keeps _ _) fun _ _ => ?_
  refine .bind (exprList_keeps nested_keeps) fun _ hvalues => ?_
  refine .bind (expect_keeps _) fun _ _ => ?_
  refine .bind (infoFrom_keeps hkeyword) fun _ hinfo => ?_
  exact .pure ⟨hinfo, hdecls, hvalues⟩

theorem definition_keeps : Keeps place definition (Definition.Regular (.at place)) := by
  refine .bind kind_keeps fun kind _ => ?_
  split
  · exact .bind (function_keeps _) fun _ hd => .pure hd
  · exact .bind (function_keeps _) fun _ hd => .pure hd
  · exact .bind constant_keeps fun _ hd => .pure hd
  · exact fail_keeps _

theorem definitions_keeps (n : Nat) :
    Keeps place (definitions n) fun ds => ∀ d ∈ ds, d.Regular (.at place) := by
  induction n with
  | zero => exact outOfFuel_keeps
  | succ n ih =>
    rw [definitions]
    refine .get fun s _ => ?_
    split
    · refine .bind definition_keeps fun first hfirst => ?_
      refine .bind ih fun rest hrest => ?_
      exact .pure (List.forall_mem_cons.mpr ⟨hfirst, hrest⟩)
    · exact .pure (List.forall_mem_nil _)

theorem program_keeps :
    Keeps place program fun p => ∀ d ∈ p.definitions, d.Regular (.at place) := by
  refine .bind position_keeps fun _ hstart => ?_
  refine .bind (bounded_keeps definitions_keeps) fun _ hds => ?_
  refine .bind (infoFrom_keeps hstart) fun _ _ => ?_
  exact .pure hds

end Parse

/-- Places for every token are places for a stream of them, if there are tokens at all or any place
will do. -/
theorem TokenStream.stands_ofTokens {place : Position → Prop} {tokens : List Token}
    (hne : tokens ≠ [] ∨ ∀ q, place q) (h : ∀ t ∈ tokens, place t.span.start) (file : String)
    (firstId : Nat) : (TokenStream.ofTokens tokens file firstId).Stands place := by
  refine ⟨h, ?_⟩
  rcases hne with hne | hplace
  · change place (tokens.getLastD _).span.start
    rw [List.getLastD_eq_getLast?, List.getLast?_eq_some_getLast hne]
    exact h _ (List.getLast_mem hne)
  · exact hplace _

variable {place : Position → Prop} {tokens : List Token} {file : String} {firstId nextId : Nat}

/-- The definitions of a program that is read are regular. -/
theorem Program.parse_regular {p : Program} (hne : tokens ≠ [] ∨ ∀ q, place q)
    (h : ∀ t ∈ tokens, place t.span.start)
    (hparse : Program.parse tokens file firstId = .ok (p, nextId)) :
    ∀ d ∈ p.definitions, d.Regular (.at place) := by
  have hkeeps := Parse.program_keeps _ (TokenStream.stands_ofTokens hne h file firstId)
  unfold Program.parse at hparse
  split at hparse
  · next hrun =>
    cases hparse
    exact (hkeeps.of_ok hrun).2
  · cases hparse

/-- What cannot be read is reported at a place. -/
theorem Program.parse_error_place {error : Error} (hne : tokens ≠ [] ∨ ∀ q, place q)
    (h : ∀ t ∈ tokens, place t.span.start)
    (hparse : Program.parse tokens file firstId = .error (.error error)) :
    place error.position := by
  have hkeeps := Parse.program_keeps _ (TokenStream.stands_ofTokens hne h file firstId)
  unfold Program.parse at hparse
  split at hparse
  · cases hparse
  · next hrun =>
    cases hparse
    exact hkeeps.of_error hrun _ rfl

end Frontend
