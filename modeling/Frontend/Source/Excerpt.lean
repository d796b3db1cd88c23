import Frontend.Source.Position

/-!
# The line an offset falls on

An excerpt is what a diagnostic shows below its header: a whole line, its number, and how far
into it the reported offset lies. Offsets at or past the end belong to the last line.
-/

namespace Frontend.Source

/-- The lines of a text, each with the line feed that ends it. -/
def lines : List Char → List (List Char)
  | [] => []
  | c :: text =>
    if c = '\n' then [c] :: lines text
    else match lines text with
      | [] => [[c]]
      | line :: rest => (c :: line) :: rest

/-- Nothing is lost in cutting a text into lines. -/
theorem flatten_lines (text : List Char) : (lines text).flatten = text := by
  induction text with
  | nil => rfl
  | cons c text ih =>
    simp only [lines]
    split
    · simp [ih]
    · split <;> simp_all

/-- A line of the source, its one-based number and the characters of it before an offset. -/
structure Excerpt where
  number : Nat
  text : String
  column : Nat
deriving DecidableEq, Repr

/-- The line that covers byte `offset` among `lines`, the first of which has number `number`. -/
def excerptFrom (number offset : Nat) : List (List Char) → Option Excerpt
  | [] => none
  | line :: rest =>
    if offset < byteLength line then
      some ⟨number, String.ofList line, (before offset line).length⟩
    else excerptFrom (number + 1) (offset - byteLength line) rest

/-- The line that covers a byte offset; past the end it is the last line, and its column is the
number of characters before the line feed. -/
def excerpt? (source : String) (offset : Nat) : Option Excerpt :=
  let all := lines source.toList
  match excerptFrom 1 offset all with
  | some found => some found
  | none => all.getLast?.map fun line =>
      ⟨all.length, String.ofList line, (line.filter (· ≠ '\n')).length⟩

end Frontend.Source
