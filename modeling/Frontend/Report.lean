import Frontend.Error
import Frontend.Source.Excerpt
import Frontend.Text.Blank

/-!
# Error reports

How an error is shown to the author of a program: what it is called, where it is, what is wrong,
and the line it is in with a caret under the place. Blanks in front of the line are left out, and
the caret moves to the left with the text.
-/

namespace Frontend.Report

/-- Whether a character is indentation. -/
def isIndent (c : Char) : Bool := c == ' ' || c == '\t'

/-- A text on the right of a field, filled up on the left. -/
def padLeft (fill : Char) (width : Nat) (text : String) : String :=
  String.ofList (List.replicate (width - text.length) fill) ++ text

/-- The name of an error, with the tip if there is one. -/
def title (cause : Cause) : String :=
  match cause.tip with
  | some tip => "Error: " ++ cause.name ++ " (" ++ tip ++ ")"
  | none => "Error: " ++ cause.name

/-- An excerpt behind its line number, and a caret under the reported column. -/
def quote (x : Source.Excerpt) : List String :=
  let number := x.number.repr
  let bar := padLeft ' ' (number.length + 2) "|"
  let text := x.text.toList
  let indent := (text.takeWhile isIndent).length
  let shown := String.ofList (Text.trimRight (text.dropWhile isIndent))
  [bar, number ++ " | " ++ shown, bar ++ " " ++ padLeft '-' (x.column - indent + 1) "^"]

/-- The lines of a report on an error in a file. -/
def lines (e : Error) (path source : String) : List String :=
  [title e.cause,
    "-> " ++ path ++ ":" ++ e.position.line.repr ++ ":" ++ e.position.col.repr,
    "   " ++ e.message] ++
  match Source.excerpt? source e.position.offset with
  | some x => quote x
  | none => []

end Frontend.Report
