import Frontend.Source.Position

/-!
# A cursor over a source text

What is left of a text, and the place where it begins.
-/

namespace Frontend.Source

/-- The text that remains and the place of its first character. -/
structure Cursor where
  rest : List Char
  position : Position
deriving DecidableEq, Repr

namespace Cursor

/-- A cursor at the beginning of a text. -/
def ofText (source file : String) : Cursor := ⟨source.toList, .origin file⟩

/-- The cursor behind those characters of a text that end within the next `bytes` bytes. -/
def behind (bytes : Nat) (p : Position) : List Char → Cursor
  | [] => ⟨[], p⟩
  | c :: rest =>
    if c.utf8Size ≤ bytes then behind (bytes - c.utf8Size) (p.past c) rest else ⟨c :: rest, p⟩

/-- Moves over the characters that end within the next `bytes` bytes. -/
def advance (s : Cursor) (bytes : Nat) : Cursor := behind bytes s.position s.rest

/-- The text that remains. -/
def remainder (s : Cursor) : String := String.ofList s.rest

/-- The next character, if any. -/
def peek? (s : Cursor) : Option Char := s.rest.head?

/-- Whether nothing remains. -/
def atEnd (s : Cursor) : Bool := s.rest.isEmpty

end Cursor

end Frontend.Source
