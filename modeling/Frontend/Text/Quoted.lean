import Frontend.Text.Extender
import Frontend.Text.Unprintable

/-!
# Quoted text

The form in which messages quote a string or a character: what could be mistaken for the end
of the quotation, or would not be seen, is written as an escape.
-/

namespace Frontend.Text

/-- The lower-case hexadecimal digits of a number, without leading zeros. -/
def hex (n : Nat) : List Char := Nat.toDigits 16 n

/-- How one character is written between two `quote` marks. -/
def quoteChar (quote c : Char) : List Char :=
  if c = '\x00' then ['\\', '0']
  else if c = '\t' then ['\\', 't']
  else if c = '\r' then ['\\', 'r']
  else if c = '\n' then ['\\', 'n']
  else if c = '\\' then ['\\', '\\']
  else if c = quote then ['\\', c]
  else if isExtender c || isUnprintable c then ['\\', 'u', '\x7b'] ++ hex c.toNat ++ ['\x7d']
  else [c]

/-- A text between two `quote` marks. -/
def quoteWith (quote : Char) (text : List Char) : String :=
  String.ofList (quote :: text.flatMap (quoteChar quote) ++ [quote])

/-- A string between double quotes. -/
def quoted (s : String) : String := quoteWith '\x22' s.toList

/-- A character between single quotes. -/
def quotedChar (c : Char) : String := quoteWith '\x27' [c]

end Frontend.Text
