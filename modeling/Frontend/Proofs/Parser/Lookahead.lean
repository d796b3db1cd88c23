import Frontend.Proofs.Parser.Ending
import Frontend.Proofs.Parser.Local

/-!
# Syntax errors are local

The statements and definitions of the grammar decide on one token of look-ahead as expressions do,
and with them the whole program. So a syntax error is about the token at which the cursor has
stopped, and no token behind that one has a part in it (`program_error_local`).
-/

namespace Frontend

namespace Parse

/-! ### Statements -/

theorem varDecl_local (isVar : Bool) : Local (varDecl isVar) (varDecl isVar) := by
  refine .bind position_local fun start => .bind (name_local _) fun name => ?_
  exact .bind optionalType_local fun type => node_local _ _

section

variable {g g' : Nested} (h : g.Local g')
include h

theorem initStmt_local : Local (initStmt g) (initStmt g') := by
  refine .bind advance_local fun keyword => ?_
  refine .bind (bounded_local (commaList_local (varDecl_local _))) fun decls => ?_
  refine .bind (eat_local _) fun assigned => ?_
  dsimp only
  split
  · exact .bind (exprList_local h) fun _ => node_local _ _
  · split
    · exact .bind (fail_local _) fun _ => node_local _ _
    · exact .bind (.pure _) fun _ => node_local _ _

theorem returnStmt_local : Local (returnStmt g) (returnStmt g') := by
  refine .bind advance_local fun keyword => .bind kind_local fun kind => ?_
  dsimp only
  split
  · exact .bind (.pure _) fun _ => node_local _ _
  · exact .bind (.pure _) fun _ => node_local _ _
  · exact .bind (.pure _) fun _ => node_local _ _
  · exact .bind (exprList_local h) fun _ => node_local _ _

theorem exprOrAssign_local : Local (exprOrAssign g) (exprOrAssign g') := by
  refine .bind position_local fun start => .bind (exprList_local h) fun exprs => ?_
  refine .bind kind_local fun kind => ?_
  dsimp only
  split
  · refine .bind advance_local fun _ => .bind (exprList_local h) fun values => ?_
    split
    · exact fail_local _
    · exact node_local _ _
  · split
    · exact .pure _
    · exact fail_local _

theorem guard_local (start : Position) (body : Stmt) :
    Local (guard g start body) (guard g' start body) := by
  have hguarded : ∀ kind, Local
      (do
        let _ ← advance
        let condition ← g.expr .default
        return Stmt.guarded (← infoFrom start) body kind condition)
      (do
        let _ ← advance
        let condition ← g'.expr .default
        return Stmt.guarded (← infoFrom start) body kind condition) :=
    fun kind => .bind advance_local fun _ => .bind (h.expr _) fun condition =>
      node_local _ _
  refine .bind kind_local fun kind => ?_
  split
  · exact hguarded _
  · exact hguarded _
  · exact .pure _

theorem simpleStmt_local {body body' : Parse Stmt} (hbody : Local body body') :
    Local (simpleStmt g body) (simpleStmt g' body') := by
  refine .bind position_local fun start => .bind hbody fun inner => ?_
  refine .bind (guard_local h _ _) fun stmt => .bind (expect_local _) fun _ => ?_
  exact .pure _

theorem arm_local : Local (arm g) (arm g') :=
  .bind (h.expr _) fun _ => .bind h.block fun _ => .pure _

theorem valueArm_local : Local (valueArm g) (valueArm g') :=
  .bind (exprList_local h) fun _ => .bind h.block fun _ => .pure _

theorem ifStmt_local (kind : IfKind) : Local (ifStmt g kind) (ifStmt g' kind) := by
  refine .bind advance_local fun keyword => .bind (arm_local h) fun first => ?_
  refine .bind (bounded_local (introduced_local (arm_local h) _)) fun elseifs => ?_
  refine .bind (optional_local h.block _) fun elseBlock => ?_
  exact node_local _ _

theorem caseStmt_local : Local (caseStmt g) (caseStmt g') := by
  refine .bind advance_local fun keyword => .bind (eat_local _) fun bare => ?_
  cases bare
  · refine .bind (h.expr _) fun target => .bind (expect_local _) fun _ => ?_
    refine .bind (bounded_local (introduced_local (valueArm_local h) _)) fun whens => ?_
    refine .bind (optional_local h.block _) fun elseBlock => .bind (expect_local _) fun _ => ?_
    exact node_local _ _
  · refine .bind (bounded_local (introduced_local (arm_local h) _)) fun whens => ?_
    refine .bind (optional_local h.block _) fun elseBlock => .bind (expect_local _) fun _ => ?_
    exact node_local _ _

theorem forStmt_local : Local (forStmt g) (forStmt g') := by
  refine .bind advance_local fun keyword => ?_
  refine .bind (bounded_local (commaList_local param_local)) fun vars => ?_
  refine .bind (expect_local _) fun _ => .bind (h.expr _) fun range => ?_
  exact .bind h.block fun body => node_local _ _

theorem whileStmt_local : Local (whileStmt g) (whileStmt g') := by
  refine .bind advance_local fun keyword => .bind (h.expr _) fun condition => ?_
  exact .bind h.block fun body => node_local _ _

theorem letInits_local (n n' : Nat) : Local (letInits g n) (letInits g' n') := by
  refine loop_local rfl rfl (fun n n' ih => ?_) n n'
  have hinit : Local
      (do
        let first ← initStmt g
        if ← eat .semicolon then return first :: (← letInits g n) else return [first])
      (do
        let first ← initStmt g'
        if ← eat .semicolon then return first :: (← letInits g' n') else return [first]) := by
    refine .bind (initStmt_local h) fun first => .bind (eat_local _) fun more => ?_
    cases more
    · exact .pure _
    · exact .bind ih fun rest => .pure _
  refine .bind kind_local fun kind => ?_
  split
  · exact hinit
  · exact hinit
  · exact fail_local _

theorem letStmt_local : Local (letStmt g) (letStmt g') := by
  refine .bind advance_local fun keyword => .bind (bounded_local (letInits_local h)) fun inits => ?_
  refine .bind (expect_local _) fun _ => .bind h.stmt fun child => ?_
  exact node_local _ _

theorem stmtWith_local : Local (stmtWith g) (stmtWith g') := by
  have hinit : Local (do return Stmt.init (← initStmt g)) (do return Stmt.init (← initStmt g')) :=
    .bind (initStmt_local h) fun init => .pure _
  refine .bind kind_local fun kind => ?_
  split
  · exact simpleStmt_local h hinit
  · exact simpleStmt_local h hinit
  · exact simpleStmt_local h (returnStmt_local h)
  · exact ifStmt_local h _
  · exact ifStmt_local h _
  · exact caseStmt_local h
  · exact forStmt_local h
  · exact whileStmt_local h
  · exact letStmt_local h
  · exact simpleStmt_local h (exprOrAssign_local h)

theorem stmtsUntilClose_local (n n' : Nat) :
    Local (stmtsUntilClose g n) (stmtsUntilClose g' n') := by
  refine loop_local rfl rfl (fun n n' ih => ?_) n n'
  refine .get fun s s' hcurrent _ => ?_
  rw [TokenStream.hasTokens, TokenStream.hasTokens, TokenStream.kind, TokenStream.kind, hcurrent]
  split
  · exact .pure _
  · split
    · exact fail_local _
    · exact .bind h.stmt fun first => .bind ih fun rest => .pure _

theorem blockWith_local : Local (blockWith g) (blockWith g') := by
  refine .bind position_local fun start => .bind (expect_local _) fun _ => ?_
  refine .bind (bounded_local (stmtsUntilClose_local h)) fun stmts => ?_
  exact .bind (expect_local _) fun _ => node_local _ _

end

/-! ### Closing the recursion -/

theorem nestedAt_local (n n' : Nat) :
    (⟨exprAt n, blockAt n, stmtAt n⟩ : Nested).Local ⟨exprAt n', blockAt n', stmtAt n'⟩ := by
  induction n generalizing n' with
  | zero => exact ⟨fun _ => outOfFuel_local _, outOfFuel_local _, outOfFuel_local _⟩
  | succ n ih =>
    cases n' with
    | zero =>
      exact ⟨fun power => (exprWith_local (ih 0) power).exhausted,
        (blockWith_local (ih 0)).exhausted, (stmtWith_local (ih 0)).exhausted⟩
    | succ n' =>
      exact ⟨fun power => exprWith_local (ih n') power, blockWith_local (ih n'),
        stmtWith_local (ih n')⟩

theorem nested_local : nested.Local nested where
  expr power := bounded_local fun n n' => (nestedAt_local (depth n) (depth n')).expr power
  block := bounded_local fun n n' => (nestedAt_local (depth n) (depth n')).block
  stmt := bounded_local fun n n' => (nestedAt_local (depth n) (depth n')).stmt

/-! ### Definitions -/

theorem returnType_local (kind : FuncKind) : Local (returnType kind) (returnType kind) := by
  refine .bind kind_local fun current => ?_
  split
  · exact fail_local _
  · exact optionalType_local

theorem function_local (kind : FuncKind) : Local (function kind) (function kind) := by
  refine .bind advance_local fun keyword => .bind (name_local _) fun name => ?_
  refine .bind (expect_local _) fun _ => ?_
  refine .bind (bounded_local (listUntil_local param_local _)) fun params => ?_
  refine .bind (expect_local _) fun _ => .bind (returnType_local _) fun type => ?_
  refine .bind nested_local.block fun body => ?_
  refine .bind (optional_local nested_local.block _) fun ensureBody => ?_
  exact node_local _ _

theorem constDecl_local : Local constDecl constDecl := by
  refine .bind position_local fun start => .bind (name_local _) fun name => ?_
  exact .bind optionalType_local fun type => node_local _ _

theorem constant_local : Local constant constant := by
  refine .bind advance_local fun keyword => ?_
  refine .bind (bounded_local (commaList_local constDecl_local)) fun decls => ?_
  refine .bind (expectOr_local _ _) fun _ => .bind (exprList_local nested_local) fun values => ?_
  exact .bind (expect_local _) fun _ => node_local _ _

theorem definition_local : Local definition definition := by
  refine .bind kind_local fun kind => ?_
  split
  · exact .bind (function_local _) fun d => .pure _
  · exact .bind (function_local _) fun d => .pure _
  · exact .bind constant_local fun d => .pure _
  · exact fail_local _

theorem definitions_local (n n' : Nat) : Local (definitions n) (definitions n') := by
  refine loop_local rfl rfl (fun n n' ih => ?_) n n'
  refine .get fun s s' hcurrent _ => ?_
  rw [TokenStream.hasTokens, TokenStream.hasTokens, TokenStream.kind, TokenStream.kind, hcurrent]
  split
  · exact .bind definition_local fun first => .bind ih fun rest => .pure _
  · exact .pure _

theorem program_local : Local program program := by
  refine .bind position_local fun start => .bind (bounded_local definitions_local) fun ds => ?_
  exact node_local _ _

/-! ### Errors -/

section

variable {tokens : List Token} {last : Token} {file : String} {firstId : Nat} {e : Failure}
  {s : TokenStream}

theorem onto_ofTokens (h : tokens.getLast? = some last) (others : List Token) :
    (TokenStream.ofTokens others file firstId).onto tokens last =
      .ofTokens tokens file firstId := by
  simp only [TokenStream.onto, TokenStream.ofTokens, List.getLastD_eq_getLast?, h,
    Option.getD_some]

/-- Where tokens that have an end are refused, the cursor has stopped in front of one of them, and
the error is about that token. -/
theorem program_error_reported (hlast : tokens.getLast? = some last) (heof : last.kind = .eof)
    (h : program (.ofTokens tokens file firstId) = .error e s) :
    ∃ used look behind cause, tokens = used ++ look :: behind ∧ s.rest = look :: behind ∧
      e = .error ⟨cause, look.span.start⟩ ∧ cause.token? = some look.value := by
  obtain ⟨hpassed, hreported⟩ := (program_mints _).of_error h
  have hfinal : s.final.kind = .eof := by rw [hpassed.final, final_ofTokens hlast, heof]
  obtain ⟨cause, he, htext⟩ := hreported hfinal
  obtain ⟨used, hused, hkinds⟩ := hpassed.passed
  have hrest : s.rest ≠ [] := by
    intro hnil
    rw [hnil, List.append_nil] at hused
    exact hkinds last (hused ▸ List.mem_of_getLast? hlast) heof
  obtain ⟨look, behind, hlook⟩ := List.exists_cons_of_ne_nil hrest
  have hcurrent : s.current = look := by rw [TokenStream.current, hlook, List.headD_cons]
  refine ⟨used, look, behind, cause, hlook ▸ hused, hlook, ?_, hcurrent ▸ htext⟩
  rw [he, TokenStream.position, hcurrent]

/-- A syntax error stands at the token at which the cursor has stopped and quotes it, and all tokens
that agree so far and have an end of their own are refused with the same error. -/
theorem program_error_local (hlast : tokens.getLast? = some last) (heof : last.kind = .eof)
    (h : program (.ofTokens tokens file firstId) = .error e s) :
    ∃ used look behind cause, tokens = used ++ look :: behind ∧ s.rest = look :: behind ∧
      e = .error ⟨cause, look.span.start⟩ ∧ cause.token? = some look.value ∧
      ∀ behind' last', (look :: behind').getLast? = some last' → last'.kind = .eof →
        ∃ s', program (.ofTokens (used ++ look :: behind') file firstId) = .error e s' ∧
          s'.rest = look :: behind' := by
  obtain ⟨used, look, behind, cause, htokens, hlook, he, htext⟩ :=
    program_error_reported hlast heof h
  refine ⟨used, look, behind, cause, htokens, hlook, he, htext, ?_⟩
  intro behind' last' hlast' heof'
  have hlast'' : (used ++ look :: behind').getLast? = some last' := by
    rw [List.getLast?_append, hlast', Option.some_or]
  obtain hfuel | hrepeats := (program_local _).of_error h
  · cases he.symm.trans hfuel
  · obtain hrun | ⟨u, hrun⟩ :=
      hrepeats.again used behind' last' look (hlook ▸ htokens) (by rw [hlook, List.head?_cons])
    · rw [onto_ofTokens hlast''] at hrun
      exact ⟨_, hrun, rfl⟩
    · rw [onto_ofTokens hlast''] at hrun
      obtain ⟨_, _, _, _, -, -, hfault, -⟩ := program_error_reported hlast'' heof' hrun
      cases hfault

end

/-- A numeral out of range is refused before anything behind it is looked at. -/
theorem program_error_local_numeral :
    let used : List Token := [⟨.const, "const", .null⟩, ⟨.identifier, "a", .null⟩,
      ⟨.assignment, "=", .null⟩]
    let look : Token := ⟨.int, "9223372036854775808", .null⟩
    let eof : Token := ⟨.eof, "EOF", .null⟩
    (∃ s, program (.ofTokens (used ++ [look, eof]) "main" 0) =
      .error (.error ⟨.numberParse "9223372036854775808", .null⟩) s ∧ s.rest = [look, eof]) ∧
    ∀ behind last, (look :: behind).getLast? = some last → last.kind = .eof →
      ∃ s, program (.ofTokens (used ++ look :: behind) "main" 0) =
        .error (.error ⟨.numberParse "9223372036854775808", .null⟩) s ∧
          s.rest = look :: behind := by
  intro used look eof
  have hrun : (match program (.ofTokens (used ++ [look, eof]) "main" 0) with
      | .error e s => decide (e = .error ⟨.numberParse "9223372036854775808", .null⟩ ∧
          s.rest = [look, eof])
      | .ok _ _ => false) = true := by decide +kernel
  split at hrun
  · next e s h =>
    obtain ⟨rfl, hrest⟩ := of_decide_eq_true hrun
    obtain ⟨used', look', behind', cause, htokens, hlook, he, -, hothers⟩ :=
      program_error_local rfl rfl h
    refine ⟨⟨s, h, hrest⟩, fun behind last hlast heof => ?_⟩
    obtain ⟨rfl, rfl⟩ : look' = look ∧ behind' = [eof] := by simpa using hlook.symm.trans hrest
    obtain rfl : used' = used := List.append_cancel_right htokens.symm
    exact hothers behind last hlast heof
  · cases hrun

end Parse

end Frontend
