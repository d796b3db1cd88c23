import Frontend.Token.Lexer

/-!
# Runs of the lexer

`Scanned` lists the steps of a run that makes tokens: a match that is a token, a match that is none,
and the end of the text. Whatever the text, an end-of-file token stands at the end of its tokens, so
there always is one.
-/

namespace Frontend.Token

/-- The tokens that are made of a text, step by step. -/
inductive Scanned : Position → List Char → List Token → Prop
  | eof {p : Position} : Scanned p [] [⟨.eof, "EOF", ⟨p, p⟩⟩]
  | token {p : Position} {q : Pattern} {taken rest : List Char} {kind : TokenKind} {value : String}
    {tokens : List Token} : Pattern.first? (taken ++ rest) = some (q, taken, rest) →
    q.token? taken = some (kind, value) → Scanned (p.pastAll taken) rest tokens →
    Scanned p (taken ++ rest) (⟨kind, value, ⟨p, p.pastAll taken⟩⟩ :: tokens)
  | skip {p : Position} {q : Pattern} {taken rest : List Char} {tokens : List Token} :
    Pattern.first? (taken ++ rest) = some (q, taken, rest) → q.token? taken = none →
    Scanned (p.pastAll taken) rest tokens → Scanned p (taken ++ rest) tokens

variable {p : Position} {text : List Char} {tokens : List Token}

theorem scanned_of_scan (h : scan p text = .ok tokens) : Scanned p text tokens := by
  fun_induction scan p text generalizing tokens with
  | case1 =>
    cases h
    exact .eof
  | case2 => cases h
  | case3 =>
    rename_i p _ _ pattern taken rest hfound q ih
    have htext := Pattern.take?_append (Pattern.first?_eq_some hfound).2
    rw [← htext] at hfound ⊢
    cases hscan : scan q rest with
    | error e =>
      rw [hscan] at h
      cases h
    | ok others =>
      rw [hscan] at h
      dsimp only [bind, Except.bind] at h
      split at h <;> cases h
      · exact .token hfound ‹_› (ih hscan)
      · exact .skip hfound ‹_› (ih hscan)

theorem Scanned.getLast? (h : Scanned p text tokens) :
    ∃ last, tokens.getLast? = some last ∧ last.kind = .eof := by
  induction h with
  | eof => exact ⟨_, rfl, rfl⟩
  | token _ _ _ ih =>
    obtain ⟨last, hlast, heof⟩ := ih
    exact ⟨last, by rw [List.getLast?_cons, hlast, Option.getD_some], heof⟩
  | skip _ _ _ ih => exact ih

theorem Scanned.ne_nil (h : Scanned p text tokens) : tokens ≠ [] := by
  obtain ⟨last, hlast, -⟩ := h.getLast?
  rintro rfl
  cases hlast

/-- The tokens of a text end with an end-of-file token. -/
theorem tokenize_getLast? {source file : String} (h : tokenize source file = .ok tokens) :
    ∃ last, tokens.getLast? = some last ∧ last.kind = .eof := (scanned_of_scan h).getLast?

end Frontend.Token
