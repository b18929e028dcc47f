import DocQuery.Binary64.Decimal

/-!
# JSON numbers

A number is an integer of 64 bits, signed or unsigned, or a finite binary
floating-point number.  Which of the two it is depends on how it was
written (`Number.ofLiteral?`): a literal without fraction and exponent is an
integer if it is in range, except `-0`, which keeps its sign as a
floating-point number.

Numbers meet in two ways.  `toBinary64` takes each to a floating-point
value, under which `1` and `1.0` agree; `same` is equality as written, under
which they do not.
-/

namespace DocQuery

/-- A JSON number; integers are at least -2⁶³ and below 2⁶⁴. -/
inductive Number where
  | integer (value : Int) (inRange : -0x8000000000000000 ≤ value ∧ value < 0x10000000000000000)
  | float (value : Binary64)
deriving DecidableEq

/-- A number as written: digits before the point, digits after it, and the
exponent if there is one. -/
structure NumberLiteral where
  negative : Bool
  whole : List Nat
  fraction : List Nat
  exponent : Option Int
deriving DecidableEq, Repr

namespace NumberLiteral

/-- The natural number that decimal digits denote. -/
def valueOf (digits : List Nat) : Nat := digits.foldl (fun n d => 10 * n + d) 0

/-- Appends digits to a significand for as long as it stays below 2⁶⁴; the
digits from the first that would not fit are left over. -/
def absorb (significand : Nat) : List Nat → Nat × List Nat
  | [] => (significand, [])
  | d :: rest =>
    if 10 * significand + d < 0x10000000000000000 then absorb (10 * significand + d) rest
    else (significand, d :: rest)

/-- The floating-point value of a literal, unless it overflows.  Digits left
over before the point count as powers of ten, those after it not at all. -/
def toBinary64? (l : NumberLiteral) : Option Binary64 :=
  let (upper, left) := absorb 0 l.whole
  let (significand, rest) := absorb upper l.fraction
  let taken := l.fraction.length - rest.length
  Binary64.ofDecimal? l.negative significand
    (l.exponent.getD 0 + (left.length : Int) - (taken : Int))

/-- The integer that the digits before the point denote. -/
def toInt (l : NumberLiteral) : Int :=
  if l.negative then -(valueOf l.whole : Int) else valueOf l.whole

/-- Whether the literal has neither fraction nor exponent and is not `-0`. -/
def isInteger (l : NumberLiteral) : Bool :=
  l.fraction.isEmpty && l.exponent.isNone && !(l.negative && l.toInt == 0)

end NumberLiteral

namespace Number

/-- The number a literal denotes, unless it overflows. -/
def ofLiteral? (l : NumberLiteral) : Option Number :=
  if h : l.isInteger ∧ -0x8000000000000000 ≤ l.toInt ∧ l.toInt < 0x10000000000000000 then
    some (.integer l.toInt h.2)
  else l.toBinary64?.map .float

/-- The floating-point value, an integer being rounded to the nearest. -/
def toBinary64 : Number → Binary64
  | .integer n _ => .ofInt n
  | .float x => x

/-- Equality as written: integers with integers, floating-point values with
floating-point values. -/
def same : Number → Number → Bool
  | .integer a _, .integer b _ => a == b
  | .float x, .float y => x.same y
  | _, _ => false

/-- The integer, if the number is one and not negative. -/
def toNat? : Number → Option Nat
  | .integer n _ => if 0 ≤ n then some n.toNat else none
  | .float _ => none

/-- A natural number below 2⁶⁴ as a JSON number, larger ones being cut off there. -/
def ofNat (n : Nat) : Number :=
  .integer (min n 0xFFFFFFFFFFFFFFFF : Nat) (by omega)

/-- The text of a number. -/
def text : Number → List Char
  | .integer n _ => (if n < 0 then ['-'] else []) ++ Nat.toDigits 10 n.natAbs
  | .float x => x.text

end Number

end DocQuery
