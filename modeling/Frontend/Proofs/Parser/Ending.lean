import Frontend.Proofs.Parser.Program

/-!
# Reading ends in front of the end of the file

Where the tokens end with an end-of-file token, every reader comes to a result or reports an error:
no bound of a recursion is met. The cursor stays in front of the first token that ends the file
(`HeedsEnd`), and a program that is read takes all tokens in front of it (`program_ends`).
-/

namespace Frontend

/-- The tokens in front of the first one that ends the file. -/
def Token.content (tokens : List Token) : List Token := tokens.takeWhile (·.kind ≠ .eof)

theorem Token.content_append {used rest : List Token} (h : ∀ token ∈ used, token.kind ≠ .eof) :
    Token.content (used ++ rest) = used ++ Token.content rest :=
  List.takeWhile_append_of_pos fun token htoken => decide_eq_true (h token htoken)

namespace Parse

variable {α : Type} {s t : TokenStream}

/-- The cursor has moved on over tokens in front of the first one that ends the file. -/
def StaysInside (s t : TokenStream) : Prop :=
  ∃ used, used <+: Token.content s.rest ∧ s.rest = used ++ t.rest

/-- Where the tokens have an end, a reader gives a result or reports an error, and the cursor stays
in front of the first end. -/
def HeedsEnd (act : Parse α) : Prop :=
  ∀ s, s.final.kind = .eof →
    Ensures (fun e t => (∃ error, e = .error error) ∧ StaysInside s t) act s
      fun _ t => StaysInside s t

theorem Passed.staysInside (h : Passed s t) : StaysInside s t := by
  obtain ⟨used, hs, hused⟩ := h.passed
  refine ⟨used, ?_, hs⟩
  rw [hs, Token.content_append hused]
  exact List.prefix_append ..

theorem Mints.heedsEnd {act : Parse α} {k : Nat} {ids : α → List Nat} {good : α → Prop}
    (h : ∀ s, Mints s act k ids good) : HeedsEnd act := by
  intro s hfinal
  refine Ensures.imp_both (h s) (fun e t he => ?_) fun a t ha => ha.1.staysInside
  obtain ⟨cause, hcause, -⟩ := he.2 (by rw [he.1.final]; exact hfinal)
  exact ⟨⟨_, hcause⟩, he.1.staysInside⟩

/-- Definitions are read until a file ends. -/
theorem definitions_stop (n : Nat) (s : TokenStream) :
    Ensures (fun _ _ => True) (definitions n) s fun _ t => t.kind = .eof := by
  induction n generalizing s with
  | zero => exact .throw trivial
  | succ n ih =>
    rw [definitions]
    refine .bind (.get ?_)
    split
    · refine .bind ((Ensures.any definition s).imp fun first t _ _ => ?_)
      exact .bind ((ih t).imp fun rest u _ hu => .pure hu)
    · next h => exact .pure (by simpa [TokenStream.hasTokens] using h)

theorem program_stops (s : TokenStream) :
    Ensures (fun _ _ => True) program s fun _ t => t.kind = .eof := by
  refine .bind (.bind (.get (.pure ?_)))
  refine .bind (.bind (.get ((definitions_stop _ s).imp fun ds t _ ht => ?_)))
  exact .bind (.bind (.get (.bind (.modifyGet (.pure (.pure ht))))))

/-- At the end of a file all tokens in front of it have been passed. -/
theorem Passed.content (h : Passed s t) (ht : t.kind = .eof) :
    s.rest = Token.content s.rest ++ t.rest := by
  obtain ⟨used, hs, hused⟩ := h.passed
  have hnone : Token.content t.rest = [] := by
    cases hrest : t.rest with
    | nil => rfl
    | cons token rest =>
      have hkind : token.kind = .eof := by
        rw [← ht, TokenStream.kind, TokenStream.current, hrest, List.headD_cons]
      simp [Token.content, hkind]
  rw [hs, Token.content_append hused, hnone, List.append_nil]

/-- A program that is read takes all tokens in front of the end of the file. -/
theorem program_content {p : Program} (h : program s = .ok p t) :
    s.rest = Token.content s.rest ++ t.rest :=
  ((program_mints s).of_ok h).1.content ((program_stops s).of_ok h)

theorem final_ofTokens {tokens : List Token} {last : Token} (h : tokens.getLast? = some last)
    (file : String) (firstId : Nat) : (TokenStream.ofTokens tokens file firstId).final = last := by
  rw [TokenStream.ofTokens, List.getLastD_eq_getLast?, h, Option.getD_some]

/-- Tokens that end with an end-of-file token are read to a program or refused with an error. The
cursor passes no token that ends a file, whichever construct is read; when a program has been read,
it has passed all tokens in front of the first of them. -/
theorem program_ends {tokens : List Token} {last : Token} (hlast : tokens.getLast? = some last)
    (heof : last.kind = .eof) (file : String) (firstId : Nat) :
    (match program (.ofTokens tokens file firstId) with
      | .ok _ s => tokens = Token.content tokens ++ s.rest
      | .error e s => (∃ error, e = .error error) ∧
          ∃ used, used <+: Token.content tokens ∧ tokens = used ++ s.rest) ∧
      HeedsEnd definition ∧ HeedsEnd block ∧ HeedsEnd stmt ∧
        ∀ power, HeedsEnd (expr power) ∧ HeedsEnd (typeExpr power) := by
  have hfinal : (TokenStream.ofTokens tokens file firstId).final.kind = .eof := by
    rw [final_ofTokens hlast, heof]
  refine ⟨?_, Mints.heedsEnd definition_mints, Mints.heedsEnd block_mints, ?_, ?_⟩
  · split
    · next hrun => exact program_content hrun
    · next hrun => exact (Mints.heedsEnd program_mints _ hfinal).of_error hrun
  · exact Mints.heedsEnd stmt_mints
  · exact fun power => ⟨Mints.heedsEnd (expr_mints power), Mints.heedsEnd (typeExpr_mints power)⟩

/-- A file that ends inside a definition, with more tokens behind its end: the cursor stops at the
first end, and the error is about it. -/
theorem program_ends_inside :
    let eof : Token := ⟨.eof, "EOF", .null⟩
    let behind : List Token := [eof, ⟨.identifier, "a", .null⟩, eof]
    let tokens : List Token := ⟨.const, "const", .null⟩ :: behind
    ∃ cause s, program (.ofTokens tokens "main" 0) = .error (.error ⟨cause, .null⟩) s ∧
      s.rest = behind ∧ (∃ used, used <+: Token.content tokens ∧ tokens = used ++ s.rest) ∧
      HeedsEnd definition := by
  intro eof behind tokens
  have hrun : (match program (.ofTokens tokens "main" 0) with
      | .error e s => decide (e = .error ⟨.unexpectedTokenDetailed "EOF"
          "expected identifier in constant definition", .null⟩ ∧ s.rest = behind)
      | .ok _ _ => false) = true := by decide +kernel
  have hlast : tokens.getLast? = some eof := rfl
  obtain ⟨hends, hdefinition, -⟩ := program_ends hlast rfl "main" 0
  split at hrun
  · next e s h =>
    obtain ⟨rfl, hrest⟩ := of_decide_eq_true hrun
    rw [h] at hends
    exact ⟨_, s, h, hrest, hends.2, hdefinition⟩
  · cases hrun

end Parse

end Frontend
