import Frontend.Proofs.Analysis.Source
import Frontend.Proofs.Token.Tiling
import Frontend.Proofs.Types.Moments

/-!
# Where errors point

Lexing names the place where it stops. Reading and analysis take their positions from the tree,
whose nodes begin where tokens do, in copies of templates as well. So whatever the reason why a
source text is rejected, the error points at a token of the text, or where lexing stopped
(`analyzeSource_error_place`).
-/

namespace Frontend

open Source

/-- What an error of a source text points at. -/
inductive PointsAt (source file : String) (e : Error) : Prop
  /-- The start of a token of the text. -/
  | token {tokens : List Token} {t : Token} : Token.tokenize source file = .ok tokens →
      t ∈ tokens → t.span.start = e.position → PointsAt source file e
  /-- The place where lexing stopped. -/
  | stopped : Token.tokenize source file = .error e → Token.Stopped source file e →
      PointsAt source file e

variable {source file : String} {builtins : Bool} {firstId nextId : Nat} {tokens : List Token}
  {p : Program} {e : Error}

/-- Where an error points there is a place of the source. -/
theorem PointsAt.isPlace (h : PointsAt source file e) : IsPlace source file e.position := by
  cases h with
  | token htokens hmem hstart => exact hstart ▸ ((Token.tiled_of_tokenize htokens).places _ hmem).1
  | stopped _ hstopped => exact hstopped.place

/-- Analysis of a program that was read points at its tokens. -/
theorem Program.analyze_error_place (hne : tokens ≠ [])
    (hparse : Program.parse tokens file firstId = .ok (p, nextId))
    (h : p.analyze builtins nextId = .error (.error e)) :
    ∃ t ∈ tokens, t.span.start = e.position := by
  let place (q : Position) : Prop := ∃ t ∈ tokens, t.span.start = q
  have hp := Program.parse_wellFormed hparse
  have hregular : p.Regular (p.terrain place) := hp.regular
    (Program.parse_regular (.inl hne) (fun t ht => ⟨t, ht, rfl⟩) hparse)
  unfold Program.analyze at h
  split at h
  · cases h
  · next hrun =>
    cases h
    exact ((Check.program_keepsTypes hregular (fun _ => hp.free_of_le)
      (Program.parse_numbered hparse) Observer.silent_accepting builtins).of_error hrun).cause

/-- The ways in which a source text is rejected. -/
theorem analyzeSource_eq_error
    (h : analyzeSource source file builtins firstId = .error (.error e)) :
    Token.tokenize source file = .error e ∨
      ∃ tokens, Token.tokenize source file = .ok tokens ∧
        (Program.parse tokens file firstId = .error (.error e) ∨
          ∃ p nextId, Program.parse tokens file firstId = .ok (p, nextId) ∧
            p.analyze builtins nextId = .error (.error e)) := by
  unfold analyzeSource at h
  cases htokens : Token.tokenize source file with
  | error error =>
    rw [htokens] at h
    cases h
    exact .inl rfl
  | ok tokens =>
    rw [htokens] at h
    change (Program.parse tokens file firstId >>= _) = _ at h
    refine .inr ⟨tokens, rfl, ?_⟩
    cases hparse : Program.parse tokens file firstId with
    | error failure =>
      rw [hparse] at h
      cases h
      exact .inl rfl
    | ok parsed =>
      rw [hparse] at h
      exact .inr ⟨parsed.1, parsed.2, rfl, h⟩

/-- An error that a source text is rejected with stands at a place of the text, in its file and
with the line and column counted from its beginning; it points at the start of a token, or at the
place where lexing stopped. -/
theorem analyzeSource_error_place
    (h : analyzeSource source file builtins firstId = .error (.error e)) :
    e.position.file = file ∧ e.position.offset ≤ byteLength source.toList ∧
      (e.position.line, e.position.col) = positionOf source e.position.offset ∧
      PointsAt source file e := by
  have hpoints : PointsAt source file e := by
    obtain hstuck | ⟨tokens, htokens, hrejected⟩ := analyzeSource_eq_error h
    · exact .stopped hstuck (Token.stopped_of_tokenize hstuck)
    · have hne : tokens ≠ [] := (Token.tiled_of_tokenize htokens).ne_nil
      obtain hread | ⟨p, nextId, hparse, hanalysis⟩ := hrejected
      · obtain ⟨t, ht, hstart⟩ := Program.parse_error_place
          (.inl hne : tokens ≠ [] ∨ ∀ q, ∃ t ∈ tokens, t.span.start = q)
          (fun t ht => ⟨t, ht, rfl⟩) hread
        exact .token htokens ht hstart
      · obtain ⟨t, ht, hstart⟩ := Program.analyze_error_place hne hparse hanalysis
        exact .token htokens ht hstart
  have hplace := hpoints.isPlace
  exact ⟨hplace.file, hplace.boundary.le, hplace.counted, hpoints⟩

/-- The template's body is rejected in a copy, at the name that stands in the text. -/
theorem analyzeSource_error_place_copy :
    ∃ e, analyzeSource "func f(x) { return y; } const c = f(1);" "main" false 0
        = .error (.error e) ∧ e.position.offset = 19 ∧
      e.position.file = "main" ∧
      e.position.offset ≤ byteLength "func f(x) { return y; } const c = f(1);".toList ∧
      (e.position.line, e.position.col) =
        positionOf "func f(x) { return y; } const c = f(1);" e.position.offset ∧
      PointsAt "func f(x) { return y; } const c = f(1);" "main" e := by
  have hrun : (match analyzeSource "func f(x) { return y; } const c = f(1);" "main" false 0 with
      | .error (.error e) => e.position.offset == 19
      | _ => false) = true := by decide +kernel
  split at hrun
  · next e h => exact ⟨e, h, eq_of_beq hrun, analyzeSource_error_place h⟩
  · cases hrun

end Frontend
