import Frontend.Error
import Frontend.Token.Pattern

/-!
# The lexer

`Token.scan` cuts a text into tokens: at each place the first pattern of the table that matches
decides, white space and comments are dropped, and the list ends with an end-of-file token.
-/

namespace Frontend.Token

/-- The tokens of a text whose first character stands at `p`. -/
def scan (p : Position) (text : List Char) : Except Error (List Token) :=
  match text with
  | [] => .ok [⟨.eof, "EOF", ⟨p, p⟩⟩]
  | c :: text =>
    match _found : Pattern.first? (c :: text) with
    | none => .error ⟨.unrecognisedToken (String.singleton c), p⟩
    | some (pattern, taken, rest) => do
      let q := p.pastAll taken
      let tokens ← scan q rest
      match pattern.token? taken with
      | some (kind, value) => pure (⟨kind, value, ⟨p, q⟩⟩ :: tokens)
      | none => pure tokens
termination_by text.length
decreasing_by exact Pattern.length_lt_of_first? _found

/-- The tokens of a source text. -/
def tokenize (source file : String) : Except Error (List Token) :=
  scan (.origin file) source.toList

end Frontend.Token
