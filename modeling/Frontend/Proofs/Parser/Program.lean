import Frontend.Parser.Program
import Frontend.Proofs.Parser.Stmt

/-!
# Programs that are read

The nodes of a program that is read from tokens have different ids below the next free one, and the
program can be written down. Tokens that end with an end-of-file token are read to a program or
refused with an error: the bound of no recursion is ever met.
-/

namespace Frontend

namespace Parse

variable {s : TokenStream}

theorem block_mints (s : TokenStream) : Mints s block 1 Block.ids Block.Written :=
  (nested_minting s.bound 0).block s (fits_bound s)

theorem stmt_mints (s : TokenStream) : MintsStmt s stmt :=
  (nested_minting 0 s.bound).stmt s (fits_bound s)

theorem expr_mints (power : Power) (s : TokenStream) : MintsExpr s (expr power) :=
  (nested_minting s.bound 0).expr power s (fits_bound s)

theorem returnType_mints (kind : FuncKind) (s : TokenStream) :
    Mints s (returnType kind) 0 TypeExpr.idsOption
      fun o => (kind = .proc → o = none) ∧ ∀ t ∈ o, t.Written := by
  refine .bind (kind_reads ?_)
  split
  · exact fail_reads _
  · next hcolon =>
    -- without a colon there is no result type
    refine .bind (.bind (kind_reads ?_))
    split
    · next hk =>
      refine .bind ((advance_reads (ne_eof hk (by decide))).imp fun _ t _ ht => .pure ?_)
      refine .bind ((typeExpr_mints .default t).imp fun type u _ hu => .pure ⟨?_, ?_, ?_⟩)
      · exact (ht.2.append hu.1).loose
      · exact fun hproc => absurd ⟨hk, hproc⟩ hcolon
      · rintro _ ⟨⟩
        exact hu.2
    · exact .pure (.pure ⟨.nil s, fun _ => rfl, nofun⟩)

theorem function_mints (kind : FuncKind) (hkind : kind ≠ .lambda) (hk : s.kind ≠ .eof) :
    Mints s (function kind) 1 FuncDef.ids fun d => d.IsNamed ∧ d.Written := by
  refine .bind ((advance_reads hk).imp fun keyword t _ ht => ?_)
  refine .bind ((name_reads _ t).imp fun name u _ hu => ?_)
  refine .bind ((expect_reads (by decide) u).imp fun _ v _ hv => ?_)
  refine .bind ((params_mints _ v).imp fun params w _ hw => ?_)
  refine .bind ((expect_reads (by decide) w).imp fun _ x _ hx => ?_)
  refine .bind ((returnType_mints kind x).imp fun type y _ hy => ?_)
  refine .bind ((block_mints y).imp fun body z _ hz => ?_)
  refine .bind ((optionalBlock_mints (nested_minting _ 0) (by decide) (fits_bound z)).imp
    fun ensureBody a _ ha => ?_)
  refine .bind ((infoFrom_reads _ a).imp fun info b _ hinfo => .pure ?_)
  have hall := ht.2.append (hu.append (hv.append (hw.1.append (hx.append (hy.1.append
    (hz.1.append ha.1))))))
  simp only [List.nil_append, ← List.append_assoc] at hall
  simp only [FuncDef.ids, FuncDef.Written]
  exact ⟨hinfo.node hall, ⟨hkind, hy.2.1⟩, hw.2, hy.2.2, hz.2, ha.2⟩

theorem constDecl_mints (s : TokenStream) :
    Mints s constDecl 1 ConstDecl.ids ConstDecl.Written := by
  refine .bind (position_reads ?_)
  refine .bind ((name_reads _ s).imp fun name t _ ht => ?_)
  refine .bind ((optionalType_mints t).imp fun type u _ hu => ?_)
  refine .bind ((infoFrom_reads _ u).imp fun info v _ hinfo => .pure ⟨?_, hu.2⟩)
  exact hinfo.node (ht.append hu.1)

theorem constant_mints (hk : s.kind ≠ .eof) :
    Mints s constant 1 ConstDef.ids fun d => (Definition.constant d).Written := by
  refine .bind ((advance_reads hk).imp fun keyword t _ ht => ?_)
  refine .bind ((bounded_mints fun n hn => commaList_mints (fun s _ => constDecl_mints s) n
    (fits_bound t) hn).imp fun decls u _ hu => ?_)
  refine .bind ((expectOr_reads (by decide) _ u).imp fun _ v _ hv => ?_)
  refine .bind ((exprList_mints (nested_minting _ 0) (fits_bound v)).imp fun values w _ hw => ?_)
  refine .bind ((expect_reads (by decide) w).imp fun _ x _ hx => ?_)
  refine .bind ((infoFrom_reads _ x).imp fun info y _ hinfo => .pure ⟨?_, ?_⟩)
  · exact hinfo.node (ht.2.append (hu.1.append (hv.append (hw.1.token hx))))
  · exact ⟨hu.2.1, hw.2.1, hu.2.2, hw.2.2⟩

theorem definition_mints (s : TokenStream) :
    Mints s definition 1 Definition.ids Definition.Written := by
  refine .bind (kind_reads ?_)
  split
  · next hk => exact .bind ((function_mints .func nofun (ne_eof hk (by decide))).imp
      fun d t _ ht => .pure ht)
  · next hk => exact .bind ((function_mints .proc nofun (ne_eof hk (by decide))).imp
      fun d t _ ht => .pure ht)
  · next hk => exact .bind ((constant_mints (ne_eof hk (by decide))).imp fun d t _ ht => .pure ht)
  · exact fail_reads _

theorem definitions_mints (n : Nat) (hn : Fits n s) :
    Mints s (definitions n) 0 (List.flatMap Definition.ids) fun ds => ∀ d ∈ ds, d.Written := by
  induction n generalizing s with
  | zero => exact outOfFuel_reads hn
  | succ n ih =>
    rw [definitions]
    refine .bind (.get ?_)
    split
    · refine .bind ((definition_mints s).imp fun first t _ ht => ?_)
      refine .bind ((ih (ht.1.fits_pred hn)).imp fun rest u _ hu => .pure ?_)
      rw [List.flatMap_cons]
      exact ⟨(ht.1.append hu.1).loose, List.forall_mem_cons.mpr ⟨ht.2, hu.2⟩⟩
    · exact .pure ⟨.nil s, nofun⟩

theorem program_mints (s : TokenStream) :
    Mints s program 0 Program.ids Program.Written := by
  refine .bind (position_reads ?_)
  refine .bind ((bounded_mints definitions_mints).imp fun ds t _ ht => ?_)
  refine .bind ((infoFrom_reads _ t).imp fun info u _ hinfo => .pure ⟨?_, ht.2⟩)
  exact hinfo.node ht.1

end Parse

namespace Program

variable {tokens : List Token} {file : String} {firstId nextId : Nat} {p : Program}

/-- A program that is read has different ids, from the first one given out to the next free one, and
it can be written down. -/
theorem parse_written (h : Program.parse tokens file firstId = .ok (p, nextId)) :
    Fresh firstId nextId p.ids ∧ p.Written := by
  rw [Program.parse] at h
  split at h
  · rename_i hrun
    cases h
    have hmints := ((Parse.program_mints _).of_ok hrun).2
    exact ⟨hmints.1.fresh, hmints.2⟩
  · cases h

/-- The nodes of a program have different ids, from the first one given out to the next free one,
and its definitions are well shaped. -/
theorem parse_fresh (h : Program.parse tokens file firstId = .ok (p, nextId)) :
    Fresh firstId nextId p.ids ∧ p.WellShaped :=
  ⟨(parse_written h).1, (parse_written h).2.wellShaped⟩

/-- Tokens that end with an end-of-file token are refused with an error only. -/
theorem parse_reports {last : Token} (hlast : tokens.getLast? = some last)
    (heof : last.kind = .eof) {e : Failure} (h : Program.parse tokens file firstId = .error e) :
    ∃ error, e = .error error := by
  rw [Program.parse] at h
  split at h
  · cases h
  · rename_i hrun
    cases h
    obtain ⟨hpassed, hreported⟩ := (Parse.program_mints _).of_error hrun
    obtain ⟨cause, he, -⟩ := hreported (by
      rw [hpassed.final, TokenStream.ofTokens, List.getLastD_eq_getLast?, hlast]
      exact heof)
    exact ⟨_, he⟩

end Program

end Frontend
