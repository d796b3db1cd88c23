import Frontend.Proofs.Analysis.Source
import Frontend.Proofs.Token.Reads
import Frontend.Proofs.Token.Scan

/-!
# The front end never breaks its own preconditions

Every source text is analysed or refused with an error. No operation is ever used where its
preconditions fail: no block is opened and no local declared outside a function, no scope, function
or parameter type is missing, no declaration is asked of a builtin, no type is written twice, and no
bound of a recursion is met. What the operations take for granted without a check of their own holds
as well: tokens are never used up, quotes can be cut off, and hints come in the number of the parts
that they are for.
-/

namespace Frontend

/-- The hints for the elements of a tuple are as many as these, if there are any. -/
theorem length_tupleHints {hint : Option Ty} {count : Nat} (h : tupleHints hint count ≠ []) :
    (tupleHints hint count).length = count := by
  unfold tupleHints at h ⊢
  split at h
  · split at h
    · next types hlength => rw [if_pos hlength, List.length_map, hlength]
    · exact absurd rfl h
  · exact absurd rfl h

/-- The parameter types that a hint offers for a lambda are as many as its parameters, if there are
any. -/
theorem Check.length_lambdaHint {hint : Option Ty} {count : Nat}
    (h : (Check.lambdaHint hint count).1 ≠ []) :
    (Check.lambdaHint hint count).1.length = count := by
  unfold lambdaHint at h ⊢
  split at h
  · split at h
    · next params _ hlength => rw [if_pos hlength, hlength]
    · exact absurd rfl h
  · exact absurd rfl h

variable {tokens : List Token} {file : String} {builtins : Bool} {firstId nextId : Nat}
  {p : Program}

/-- The analysis of a program that is read from tokens gives a result or an error. -/
theorem Program.analyze_total (builtins : Bool)
    (h : Program.parse tokens file firstId = .ok (p, nextId)) :
    (∃ a, p.analyze builtins nextId = .ok a) ∨
      ∃ error, p.analyze builtins nextId = .error (.error error) := by
  have hrun := program_completes builtins Observer.silent_passive (Program.parse_wellFormed h)
  unfold Program.analyze
  split
  · exact .inl ⟨_, rfl⟩
  · next failure s hfailed =>
    obtain ⟨error, rfl⟩ := (hrun.of_error hfailed).cause
    exact .inr ⟨error, rfl⟩

/-- Every source text is analysed or refused with an error, and so nothing that would be a fault is
ever done. The tokens of a text are never used up, for an end-of-file token ends them; the text of
a string or a character has its quotes to be cut off; and a hint for several parts is only passed on
if it has as many parts itself. -/
theorem analyzeSource_total (source file : String) (builtins : Bool) (firstId : Nat) :
    ((∃ a, analyzeSource source file builtins firstId = .ok a) ∨
      ∃ error, analyzeSource source file builtins firstId = .error (.error error)) ∧
    (∀ tokens, Token.tokenize source file = .ok tokens →
      ∃ last, tokens.getLast? = some last ∧ last.kind = .eof) ∧
    (∀ (pattern : Pattern) (text taken rest : List Char), pattern = .string ∨ pattern = .char →
      pattern.take? text = some (taken, rest) →
      ∃ quote, quote.utf8Size = 1 ∧ taken = quote :: (Pattern.inner taken ++ [quote])) ∧
    (∀ hint count, tupleHints hint count ≠ [] → (tupleHints hint count).length = count) ∧
    ∀ hint count, (Check.lambdaHint hint count).1 ≠ [] →
      (Check.lambdaHint hint count).1.length = count := by
  refine ⟨?_, fun tokens => Token.tokenize_getLast?,
    fun pattern text taken rest hp => Pattern.take?_quoted hp, fun hint count => length_tupleHints,
    fun hint count => Check.length_lambdaHint⟩
  unfold analyzeSource
  cases htokens : Token.tokenize source file with
  | error error => exact .inr ⟨error, rfl⟩
  | ok tokens =>
    change (∃ a, (Program.parse tokens file firstId >>= _) = _) ∨
      ∃ error, (Program.parse tokens file firstId >>= _) = _
    cases hparse : Program.parse tokens file firstId with
    | error failure =>
      obtain ⟨last, hlast, heof⟩ := Token.tokenize_getLast? htokens
      obtain ⟨error, rfl⟩ := Program.parse_reports hlast heof hparse
      exact .inr ⟨error, rfl⟩
    | ok parsed => exact Program.analyze_total builtins hparse

end Frontend
