/-!
# Places in a source text

A position names a byte offset together with the line and column a reader would count to.
Two independent accounts of line and column are kept: `Position.past` moves a position over
one character at a time, and `positionOf` counts from the beginning of the text.
-/

namespace Frontend

/-- A place in a file: the offset counts bytes, the one-based line and column count characters. -/
structure Position where
  offset : Nat
  line : Nat
  col : Nat
  file : String
deriving DecidableEq, Repr, Inhabited

namespace Position

/-- The place of things that stand nowhere in a source text. -/
def null : Position := ⟨0, 0, 0, "<null>"⟩

/-- The beginning of a file. -/
def origin (file : String) : Position := ⟨0, 1, 1, file⟩

/-- The place just past one character: a line feed starts a new line, all else a new column. -/
def past (p : Position) (c : Char) : Position :=
  if c = '\n' then { p with offset := p.offset + c.utf8Size, line := p.line + 1, col := 1 }
  else { p with offset := p.offset + c.utf8Size, col := p.col + 1 }

/-- The place just past a run of characters. -/
def pastAll (p : Position) (text : List Char) : Position := text.foldl past p

@[simp] theorem pastAll_nil (p : Position) : p.pastAll [] = p := rfl

@[simp] theorem pastAll_cons (p : Position) (c : Char) (text : List Char) :
    p.pastAll (c :: text) = (p.past c).pastAll text := rfl

theorem pastAll_append (p : Position) (s t : List Char) :
    p.pastAll (s ++ t) = (p.pastAll s).pastAll t := List.foldl_append ..

end Position

/-- A stretch of source text, from `start` up to but not including `stop`. -/
structure Span where
  start : Position
  stop : Position
deriving DecidableEq, Repr, Inhabited

namespace Span

/-- The span of things that stand nowhere in a source text. -/
def null : Span := ⟨.null, .null⟩

/-- The number of bytes covered, zero when the ends are out of order. -/
def length (s : Span) : Nat := s.stop.offset - s.start.offset

end Span

namespace Source

/-- The number of bytes a text takes. -/
def byteLength : List Char → Nat
  | [] => 0
  | c :: text => c.utf8Size + byteLength text

/-- The characters that begin before byte `offset`. -/
def before (offset : Nat) : List Char → List Char
  | [] => []
  | c :: text => if 0 < offset then c :: before (offset - c.utf8Size) text else []

/-- The characters after the last line feed. -/
def lastLine (text : List Char) : List Char :=
  (text.reverse.takeWhile (· ≠ '\n')).reverse

/-- The one-based line and column of a byte offset, counted from the beginning of the text. -/
def positionOf (source : String) (offset : Nat) : Nat × Nat :=
  let text := before offset source.toList
  (text.count '\n' + 1, (lastLine text).length + 1)

end Source

end Frontend
