/-!
# Finite 64-bit binary floating-point numbers

A number is a sign and the pattern of its magnitude: 11 exponent bits above
52 fraction bits, the exponent below its all-ones value, so there are no
infinities and no NaN.  Every such number is a whole multiple of the
smallest positive one, 2⁻¹⁰⁷⁴; `units` is that multiple, exactly.  Order and
equality of numbers are order and equality of their units, and a quotient
of naturals is rounded by comparing it with neighbouring patterns in units.

Patterns are written in hexadecimal: `0x10000000000000` is 2⁵², one more
than the largest fraction, and `0x7FF0000000000000` is the first pattern
past the finite ones.

* `roundHalfEven` — the nearest natural to a quotient, ties to even;
* `nearest` — the pattern of the magnitude nearest to a quotient of units;
* `ofUnits?`, `ofUnits` — rounding with overflow refused, or cut off at the
  largest finite number;
* `mul?`, `div` — the exact product or quotient, rounded once.
-/

namespace DocQuery

/-- A finite 64-bit binary floating-point number. -/
structure Binary64 where
  negative : Bool
  magnitude : Nat
  finite : magnitude < 0x7FF0000000000000
deriving DecidableEq

namespace Binary64

/-- How many units of 2⁻¹⁰⁷⁴ the magnitude with a given pattern has. -/
def unitsOf (pattern : Nat) : Nat :=
  if pattern / 0x10000000000000 = 0 then pattern % 0x10000000000000
  else (0x10000000000000 + pattern % 0x10000000000000) *
    Nat.pow 2 (pattern / 0x10000000000000 - 1)

/-- The number in units of 2⁻¹⁰⁷⁴. -/
def units (x : Binary64) : Int :=
  if x.negative then -(unitsOf x.magnitude : Int) else unitsOf x.magnitude

/-- The 64-bit pattern: the sign bit above the magnitude. -/
def bits (x : Binary64) : Nat :=
  if x.negative then 0x8000000000000000 + x.magnitude else x.magnitude

/-- Numbers are ordered by value, so the two zeros are not ordered. -/
instance : LT Binary64 := ⟨fun x y => x.units < y.units⟩

instance : DecidableLT Binary64 := fun x y => inferInstanceAs (Decidable (x.units < y.units))

/-- Equality of values, under which the two zeros are equal. -/
def same (x y : Binary64) : Bool := x.units == y.units

/-- The order of two values. -/
def cmp (x y : Binary64) : Ordering := compare x.units y.units

def zero : Binary64 := ⟨false, 0, by decide⟩

instance : Inhabited Binary64 := ⟨zero⟩

/-- The number with the other sign. -/
def neg (x : Binary64) : Binary64 := { x with negative := !x.negative }

/-- The pattern of the largest finite magnitude. -/
def maxMagnitude : Nat := 0x7FEFFFFFFFFFFFFF

/-! ## Rounding -/

/-- The natural nearest to `num / den`, the even one of two equally near. -/
def roundHalfEven (num den : Nat) : Nat :=
  let q := num / den
  let twice := 2 * (num % den)
  if twice < den then q else if den < twice then q + 1 else q + q % 2

/-- The pattern nearest to `num / den` units.  Patterns count up through the
magnitudes, so a fraction that rounds up to 2⁵² carries into the exponent,
and the result may lie past the last finite pattern. -/
def nearest (num den : Nat) : Nat :=
  let whole := num / den
  let shift := if whole < 0x20000000000000 then 0 else whole.log2 - 52
  shift * 0x10000000000000 + roundHalfEven num (den * Nat.pow 2 shift)

/-- How many units make one. -/
def unitsInOne : Nat := Nat.pow 2 1074

/-- The number nearest to `num / den` units, unless it is past every finite one. -/
def ofUnits? (negative : Bool) (num den : Nat) : Option Binary64 :=
  if h : nearest num den < 0x7FF0000000000000 then some ⟨negative, nearest num den, h⟩ else none

/-- The number nearest to `num / den` units, cut off at the largest finite one. -/
def ofUnits (negative : Bool) (num den : Nat) : Binary64 where
  negative := negative
  magnitude := min (nearest num den) maxMagnitude
  finite := Nat.lt_of_le_of_lt (Nat.min_le_right _ _) (by decide)

/-- The number nearest to a natural, cut off at the largest finite one. -/
def ofNat (n : Nat) : Binary64 := ofUnits false (n * unitsInOne) 1

/-- The number nearest to an integer, cut off at the largest finite one. -/
def ofInt (n : Int) : Binary64 := ofUnits (n < 0) (n.natAbs * unitsInOne) 1

/-! ## Products and quotients -/

/-- The product, rounded once, unless it overflows. -/
def mul? (x y : Binary64) : Option Binary64 :=
  ofUnits? (x.negative != y.negative) (unitsOf x.magnitude * unitsOf y.magnitude) unitsInOne

/-- The quotient, rounded once and cut off at the largest finite number; a
divisor of one or more in magnitude cannot make it that large. -/
def div (x y : Binary64) : Binary64 :=
  ofUnits (x.negative != y.negative) (unitsOf x.magnitude * unitsInOne) (unitsOf y.magnitude)

/-- Whether the value is zero. -/
def isZero (x : Binary64) : Bool := x.magnitude == 0

/-- Whether the value is below zero. -/
def isNegative (x : Binary64) : Bool := x.negative && !x.isZero

end Binary64

end DocQuery
