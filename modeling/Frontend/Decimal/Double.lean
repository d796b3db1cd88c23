/-!
# Double-precision numbers

A binary floating-point number with 53 bits of mantissa is kept as an exact integer multiple of
a power of two, so equality is decidable and nothing rounds unseen. `Double.ofRatio` rounds a
ratio of natural numbers to the nearest such number, a tie to the even mantissa.
-/

namespace Frontend

/-- A double-precision number: `finite s m e` is `m * 2 ^ e`, negated when `s` is true. -/
inductive Double where
  | nan
  | infinite (negative : Bool)
  | finite (negative : Bool) (mantissa : Nat) (exponent : Int)
deriving DecidableEq, Repr, Inhabited

namespace Double

/-- The least exponent; with it the mantissa may have fewer than 53 bits. -/
def minExponent : Int := -1074

/-- The greatest exponent. -/
def maxExponent : Int := 971

/-- Mantissas stay below this bound. -/
def mantissaBound : Nat := Nat.pow 2 53

/-- Zero with a sign. -/
def zero (negative : Bool) : Double := .finite negative 0 minExponent

/-- The quotient rounded to the nearest natural number, a tie to the even one. -/
def roundDiv (num den : Nat) : Nat :=
  let q := num / den
  let r := num % den
  if den < 2 * r ∨ (2 * r = den ∧ q % 2 = 1) then q + 1 else q

/-- The ratio `num / den` divided by `2 ^ e`, as a ratio. -/
def scaleDown (num den : Nat) (e : Int) : Nat × Nat :=
  (num * Nat.pow 2 (-e).toNat, den * Nat.pow 2 e.toNat)

/-- The exponent with which a positive ratio has a 53-bit mantissa, or the least one if that is
greater. -/
def exponentOf (num den : Nat) : Int :=
  let e : Int := (num.log2 : Int) - (den.log2 : Int) - 53
  let (n, d) := scaleDown num den e
  max minExponent (if n / d < mantissaBound then e else e + 1)

/-- The number nearest to `num / den`, with a sign; out of range it is infinite. -/
def ofRatio (negative : Bool) (num den : Nat) : Double :=
  if num = 0 then zero negative
  else
    let e := exponentOf num den
    let (n, d) := scaleDown num den e
    let m := roundDiv n d
    let (m, e) := if m < mantissaBound then (m, e) else (m / 2, e + 1)
    if maxExponent < e then .infinite negative else .finite negative m e

end Double

end Frontend
