/-!
# Escapes in literals

A backslash between quotes starts an escape. `unescape` is total: an escape it does not know
stays as it is written, backslash included.
-/

namespace Frontend.Text

/-- The value of a hexadecimal digit of either case. -/
def hexValue? (c : Char) : Option Nat :=
  if '0' ≤ c ∧ c ≤ '9' then some (c.toNat - '0'.toNat)
  else if 'a' ≤ c ∧ c ≤ 'f' then some (c.toNat - 'a'.toNat + 10)
  else if 'A' ≤ c ∧ c ≤ 'F' then some (c.toNat - 'A'.toNat + 10)
  else none

/-- The character that a letter after a backslash stands for. -/
def escaped? (c : Char) : Option Char :=
  if c = 'n' then some '\n'
  else if c = 't' then some '\t'
  else if c = 'r' then some '\r'
  else if c = '0' then some '\x00'
  else if c = '\\' ∨ c = '\x22' ∨ c = '\x27' then some c
  else none

/-- Resolves the escapes of a text. After `\x` come at most two hexadecimal digits; without any,
the two characters `\x` stand for themselves. -/
def unescapeChars : List Char → List Char
  | [] => []
  | [c] => [c]
  | c :: d :: rest =>
    if c ≠ '\\' then c :: unescapeChars (d :: rest)
    else match escaped? d with
      | some e => e :: unescapeChars rest
      | none =>
        if d ≠ 'x' then c :: unescapeChars (d :: rest)
        else match rest with
          | [] => [c, d]
          | h :: rest => match hexValue? h with
            | none => c :: d :: unescapeChars (h :: rest)
            | some high => match rest with
              | [] => [Char.ofNat high]
              | l :: rest => match hexValue? l with
                | none => Char.ofNat high :: unescapeChars (l :: rest)
                | some low => Char.ofNat (16 * high + low) :: unescapeChars rest

/-- Resolves the escapes of a string. -/
def unescape (s : String) : String := String.ofList (unescapeChars s.toList)

end Frontend.Text
