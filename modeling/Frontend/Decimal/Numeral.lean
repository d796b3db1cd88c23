import Frontend.Decimal.Shortest

/-!
# Reading numbers

The numerals of the three numeric types. Integers out of range are refused, never wrapped; a
fraction is rounded to the nearest double-precision number.
-/

namespace Frontend.Numeral

/-- The value of a run of decimal digits, which must not be empty. -/
def digits? (text : List Char) : Option Nat :=
  if text ≠ [] ∧ text.all Char.isDigit then
    some (text.foldl (fun n c => 10 * n + (c.toNat - '0'.toNat)) 0)
  else none

/-- A sign in front of a numeral, true for minus, and what follows it. -/
def sign : List Char → Option Bool × List Char
  | '-' :: text => (some true, text)
  | '+' :: text => (some false, text)
  | text => (none, text)

/-- Reads a signed integer of 64 bits. -/
def int? (text : String) : Option Int := do
  let (negative, text) := sign text.toList
  let n ← digits? text
  if negative = some true then
    if n ≤ Nat.pow 2 63 then some (-(n : Int)) else none
  else if n < Nat.pow 2 63 then some n else none

/-- Reads an unsigned integer of 64 bits, which takes no minus. -/
def uint? (text : String) : Option Nat := do
  let (negative, text) := sign text.toList
  if negative = some true then none
  else
    let n ← digits? text
    if n < Nat.pow 2 64 then some n else none

/-- The double-precision number nearest to `n * 10 ^ power`. Powers far outside the range are
settled by the size of the number alone. -/
def double (negative : Bool) (n : Nat) (power : Int) : Double :=
  let size := (digitCount n : Int) + power
  if n = 0 ∨ size < -330 then .zero negative
  else if 310 < size then .infinite negative
  else .ofRatio negative (n * Nat.pow 10 power.toNat) (Nat.pow 10 (-power).toNat)

/-- Reads an exponent: nothing, or `e` with an optional sign and digits. -/
def exponent? : List Char → Option Int
  | [] => some 0
  | c :: text =>
    if c = 'e' ∨ c = 'E' then do
      let (negative, text) := sign text
      let n ← digits? text
      pure (if negative = some true then -(n : Int) else n)
    else none

/-- Reads an unsigned decimal: digits with an optional point among, before or behind them, and
an optional exponent. -/
def decimal? (negative : Bool) (text : List Char) : Option Double := do
  let whole := text.takeWhile Char.isDigit
  let rest := text.dropWhile Char.isDigit
  let (fraction, rest) := match rest with
    | '.' :: rest => (rest.takeWhile Char.isDigit, rest.dropWhile Char.isDigit)
    | rest => ([], rest)
  let n ← digits? (whole ++ fraction)
  let e ← exponent? rest
  pure (double negative n (e - fraction.length))

/-- Reads a double-precision number: a decimal, or a word for infinity or for no number in
letters of either case. -/
def double? (text : String) : Option Double :=
  let (minus, text) := sign text.toList
  let negative := minus == some true
  let word := String.ofList (text.map Char.toLower)
  if word = "inf" ∨ word = "infinity" then some (.infinite negative)
  else if word = "nan" then some .nan
  else decimal? negative text

end Frontend.Numeral
