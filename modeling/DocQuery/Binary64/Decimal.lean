import DocQuery.Binary64.Basic

/-!
# Binary numbers read from decimals and written as decimals

Reading: a decimal is a natural significand and a power of ten.  The
significand is rounded to a binary number, which is then multiplied or
divided by the nearest binary number to the power of ten and rounded again
(`ofDecimal?`).  A power past 10³⁰⁸ overflows, one below 10⁻³⁰⁸ is divided
off in steps of 10³⁰⁸.

Writing: `shortest` is the decimal with the fewest digits among those that
are nearer to the number than to its neighbours, and the nearest of these,
an even last digit breaking a tie.  `text` lays it out: positionally from
10⁻⁵ up to but without 10¹⁶, always with a point; otherwise in scientific
form with a signed exponent.
-/

namespace DocQuery

namespace Binary64

/-! ## Reading -/

/-- The largest power of ten that scales in one step. -/
def maxScale : Nat := 308

/-- Divides by `10 ^ places`, in steps of at most `10 ^ maxScale`. -/
def shrink (x : Binary64) (places : Nat) : Binary64 :=
  if places ≤ maxScale then x.div (ofNat (Nat.pow 10 places))
  else if x.isZero then x
  else shrink (x.div (ofNat (Nat.pow 10 maxScale))) (places - maxScale)
termination_by places
decreasing_by simp only [maxScale] at *; omega

/-- Multiplies by `10 ^ places`, unless that overflows. -/
def grow? (x : Binary64) (places : Nat) : Option Binary64 :=
  if places ≤ maxScale then x.mul? (ofNat (Nat.pow 10 places))
  else if x.isZero then some x
  else none

/-- The number read for `significand · 10 ^ exponent`, unless it overflows. -/
def ofDecimal? (negative : Bool) (significand : Nat) (exponent : Int) : Option Binary64 := do
  let x ← match exponent with
    | .ofNat places => grow? (ofNat significand) places
    | .negSucc places => some (shrink (ofNat significand) (places + 1))
  return if negative then x.neg else x

/-! ## The shortest decimal -/

/-- A decimal: `digits · 10 ^ exponent`. -/
structure Decimal where
  digits : Nat
  exponent : Int
deriving DecidableEq, Repr

/-- The number of decimal digits of `n`. -/
def digitCount (n : Nat) : Nat := (Nat.toDigits 10 n).length

/-- The exponent of the first decimal digit of a positive magnitude. -/
def leadingExponent (pattern : Nat) : Int :=
  (digitCount (unitsOf pattern * Nat.pow 10 324 / unitsInOne) : Int) - 325

/-- Whether the decimal reads back as the magnitude: it is nearer to it than
to either neighbour, or halfway and the magnitude's pattern is even. -/
def readsAs (pattern : Nat) (d : Decimal) : Bool :=
  let up := Nat.pow 10 d.exponent.toNat
  let down := Nat.pow 10 (-d.exponent).toNat
  let low := (unitsOf (pattern - 1) + unitsOf pattern) * down
  let high := (unitsOf pattern + unitsOf (pattern + 1)) * down
  let here := d.digits * up * (2 * unitsInOne)
  if pattern % 2 = 0 then low ≤ here && here ≤ high else low < here && here < high

/-- The decimals of one exponent next to a magnitude that read back as it,
the nearer one first, of two equally near the even one. -/
def neighbours (pattern : Nat) (exponent : Int) : List Decimal :=
  let num := unitsOf pattern * Nat.pow 10 (-exponent).toNat
  let den := Nat.pow 10 exponent.toNat * unitsInOne
  let q := num / den
  let twice := 2 * (num % den)
  let pair := if twice < den || (twice == den && q % 2 == 0) then [q, q + 1] else [q + 1, q]
  (pair.map fun digits => ⟨digits, exponent⟩).filter (readsAs pattern)

/-- Drops the zeros that end the digits. -/
def Decimal.trim (d : Decimal) : Decimal :=
  if d.digits ≠ 0 ∧ d.digits % 10 = 0 then
    trim ⟨d.digits / 10, d.exponent + 1⟩
  else d
termination_by d.digits
decreasing_by omega

/-- The decimal with the fewest digits that reads back as a positive
magnitude, and the nearest of these.  Seventeen digits always suffice. -/
def shortest (pattern : Nat) : Decimal :=
  let first := leadingExponent pattern
  let found := (List.range 17).findSome? fun (n : Nat) => (neighbours pattern (first - n)).head?
  (found.getD ⟨0, 0⟩).trim

/-! ## Layout -/

/-- The exponents of the first digit that are written positionally. -/
def isPositional (first : Int) : Bool := -5 ≤ first && first < 16

/-- Digits with a point after the digit of exponent zero. -/
def positional (digits : List Char) (exponent first : Int) : List Char :=
  if 0 ≤ exponent then digits ++ List.replicate exponent.toNat '0' ++ ['.', '0']
  else if 0 ≤ first then
    digits.take (first.toNat + 1) ++ '.' :: digits.drop (first.toNat + 1)
  else '0' :: '.' :: List.replicate (-first - 1).toNat '0' ++ digits

/-- One digit, the others after a point, and a signed exponent. -/
def scientific (digits : List Char) (first : Int) : List Char :=
  let mantissa := match digits with
    | [] => []
    | [d] => [d]
    | d :: rest => d :: '.' :: rest
  let sign := if first < 0 then '-' else '+'
  mantissa ++ 'e' :: sign :: Nat.toDigits 10 first.natAbs

/-- The text of a number. -/
def text (x : Binary64) : List Char :=
  let sign := if x.negative then ['-'] else []
  if x.isZero then sign ++ ['0', '.', '0']
  else
    let d := shortest x.magnitude
    let digits := Nat.toDigits 10 d.digits
    let first := d.exponent + digits.length - 1
    sign ++ if isPositional first then positional digits d.exponent first
      else scientific digits first

end Binary64

end DocQuery
