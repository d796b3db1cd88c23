import Frontend.Decimal.Double

/-!
# The shortest decimal that reads back

A double-precision number stands for all reals that round to it. `Double.toText` writes the
decimal with the fewest digits among them, of two such the nearer one, without an exponent.
-/

namespace Frontend

/-- The number of decimal digits; zero has none. -/
def digitCount (n : Nat) : Nat := if n = 0 then 0 else (Nat.toDigits 10 n).length

namespace Double

/-- The reals that round to a positive number, as numerators over one denominator. The ends
belong to it when `closed`. -/
structure Rounding where
  lower : Nat
  value : Nat
  upper : Nat
  den : Nat
  closed : Bool
deriving DecidableEq, Repr

/-- The rounding interval of `m * 2 ^ e`. Below a power of two the neighbours are half as far
apart, and a mantissa that is even takes the ends in. -/
def rounding (m : Nat) (e : Int) : Rounding :=
  let shift := Nat.pow 2 (e - 2).toNat
  let gap := if m = Nat.pow 2 52 ∧ minExponent < e then 1 else 2
  { lower := (4 * m - gap) * shift
    value := 4 * m * shift
    upper := (4 * m + 2) * shift
    den := Nat.pow 2 (2 - e).toNat
    closed := m % 2 = 0 }

/-- Whether the ratio `num / den` lies in a rounding interval. -/
def Rounding.contains (i : Rounding) (num den : Nat) : Bool :=
  if i.closed then decide (i.lower * den ≤ num * i.den ∧ num * i.den ≤ i.upper * den)
  else decide (i.lower * den < num * i.den ∧ num * i.den < i.upper * den)

/-- The number of digits before the point of a positive ratio; for a ratio below one, minus the
number of zeros that follow the point. -/
def magnitude (num den : Nat) : Int :=
  if den ≤ num then digitCount (num / den) else 1 - (digitCount ((den - 1) / num) : Int)

/-- A decimal: `digits * 10 ^ power`. -/
structure Scientific where
  digits : Nat
  power : Int
deriving DecidableEq, Repr

/-- Of the two decimals around the value on the grid `10 ^ power`, the one in the interval; the
nearer if both are, the upper if neither is nearer. -/
def Rounding.onGrid? (i : Rounding) (power : Int) : Option Scientific :=
  let up := Nat.pow 10 power.toNat
  let down := Nat.pow 10 (-power).toNat
  let low := i.value * down / (i.den * up)
  let lowIn := i.contains (low * up) down
  let highIn := i.contains ((low + 1) * up) down
  let twice := 2 * (i.value * down - low * (i.den * up))
  if highIn && (!lowIn || decide (i.den * up ≤ twice)) then some ⟨low + 1, power⟩
  else if lowIn then some ⟨low, power⟩
  else none

/-- Tries grids of `count`, `count + 1`, … digits, at most `fuel` of them. -/
def Rounding.firstGrid? (i : Rounding) (size : Int) : (fuel count : Nat) → Option Scientific
  | 0, _ => none
  | fuel + 1, count =>
    match i.onGrid? (size - count) with
    | some found => some found
    | none => firstGrid? i size fuel (count + 1)

/-- The shortest decimal that rounds to the positive number `m * 2 ^ e`. Seventeen digits always
suffice. -/
def shortest (m : Nat) (e : Int) : Scientific :=
  let i := rounding m e
  (i.firstGrid? (magnitude i.value i.den) 17 1).getD ⟨0, 0⟩

/-- The digits of a positive number without the zeros at the end, and how many those were. -/
def trimZeros (n : Nat) : List Char × Nat :=
  let reversed := (Nat.toDigits 10 n).reverse
  ((reversed.dropWhile (· = '0')).reverse, (reversed.takeWhile (· = '0')).length)

/-- A decimal written without an exponent. -/
def Scientific.positional (s : Scientific) : List Char :=
  let (digits, zeros) := trimZeros s.digits
  let power := s.power + zeros
  let size : Int := digits.length + power
  if 0 ≤ power then digits ++ List.replicate power.toNat '0'
  else if 0 < size then digits.take size.toNat ++ '.' :: digits.drop size.toNat
  else ['0', '.'] ++ List.replicate (-size).toNat '0' ++ digits

/-- A number as text. -/
def toText : Double → String
  | .nan => "NaN"
  | .infinite negative => if negative then "-inf" else "inf"
  | .finite negative m e =>
    (if negative then "-" else "") ++
      (if m = 0 then "0" else String.ofList (shortest m e).positional)

end Double

end Frontend
