import DocQuery.Proofs.Comparing
import Mathlib.Algebra.Order.Field.Rat
import Mathlib.Algebra.Order.Ring.Cast
import Mathlib.Algebra.Order.GroupWithZero.Basic
import Mathlib.Tactic.NormNum
import Mathlib.Tactic.Positivity

/-!
# What a pattern denotes

The 64-bit pattern of a number has a sign, an exponent and a fraction, and
denotes a rational number (`Binary64.denoted`).  The units that numbers are
compared by count this value exactly, so two numbers compare as their values do
(`cmp_eq_compare_value`).

The key of a number is its pattern with the sign flipped, or if it is negative
with all bits flipped; both zeros have the pattern without a sign
(`orderPattern_eq_flipped`).  So the unsigned order of these patterns, the
operations of a filter and a sort agree with the order of values
(`numbers_compare_by_value`).
-/

namespace DocQuery

namespace Binary64

/-! ## Values -/

/-- The magnitude that an exponent and a fraction of 52 bits denote.  The leading
one before the fraction is not written, and at the least exponent it is missing. -/
def denotedMagnitude (exponent fraction : Nat) : ℚ :=
  if exponent = 0 then fraction / 2 ^ 52 * 2 ^ (-1022 : ℤ)
  else (1 + fraction / 2 ^ 52) * 2 ^ ((exponent : ℤ) - 1023)

/-- The rational number that a 64-bit pattern denotes: the sign is the topmost
bit, and the next eleven bits are the exponent. -/
def denoted (bits : Nat) : ℚ :=
  let magnitude := denotedMagnitude (bits / 0x10000000000000 % 0x800) (bits % 0x10000000000000)
  if bits / 0x8000000000000000 = 1 then -magnitude else magnitude

/-- The value of a number. -/
def value (x : Binary64) : ℚ := denoted x.bits

/-- A product of powers of two whose exponents add up to a natural number. -/
theorem two_zpow_mul_pow {i : ℤ} {e k : ℕ} (h : i + e = k) : (2 : ℚ) ^ i * 2 ^ e = 2 ^ k := by
  rw [← zpow_natCast, ← zpow_natCast, ← zpow_add₀ two_ne_zero, h]

/-- The magnitude of a pattern, in units. -/
theorem denotedMagnitude_mul_unitsInOne (p : Nat) :
    denotedMagnitude (p / 0x10000000000000) (p % 0x10000000000000) * unitsInOne = unitsOf p := by
  obtain ⟨e, he⟩ : ∃ e, e = 1074 := ⟨_, rfl⟩
  rw [unitsInOne_eq he, denotedMagnitude, unitsOf, Nat.cast_pow, Nat.cast_ofNat]
  split
  · have hshift : (2 : ℚ) ^ (-1022 : ℤ) * 2 ^ e = 2 ^ 52 := two_zpow_mul_pow (by omega)
    rw [mul_assoc, hshift, div_mul_cancel₀ _ (by positivity)]
  · next hexponent =>
      have hshift : (2 : ℚ) ^ (((p / 0x10000000000000 : ℕ) : ℤ) - 1023) * 2 ^ e =
          2 ^ (52 + (p / 0x10000000000000 - 1)) := two_zpow_mul_pow (by omega)
      rw [mul_assoc, hshift, pow_add, ← mul_assoc, add_mul, one_mul,
        div_mul_cancel₀ _ (by positivity), Nat.pow_eq]
      push_cast
      norm_num

/-- The value of a number is as many units as the number has. -/
theorem value_mul_unitsInOne (x : Binary64) : x.value * unitsInOne = x.units := by
  have hfinite := x.finite
  have hexponent : x.bits / 0x10000000000000 % 0x800 = x.magnitude / 0x10000000000000 := by
    unfold bits
    split <;> omega
  have hfraction : x.bits % 0x10000000000000 = x.magnitude % 0x10000000000000 := by
    unfold bits
    split <;> omega
  have hsign : x.bits / 0x8000000000000000 = 1 ↔ x.negative = true := by
    cases hneg : x.negative <;> simp [bits, hneg] <;> omega
  have hmagnitude := denotedMagnitude_mul_unitsInOne x.magnitude
  simp only [value, denoted, units, hexponent, hfraction, hsign]
  split
  · rw [neg_mul, hmagnitude]
    simp
  · rw [hmagnitude]
    simp

/-- Values are ordered as units are. -/
theorem cmp_eq_compare_value (x y : Binary64) : x.cmp y = compare x.value y.value := by
  have hpos : (0 : ℚ) < unitsInOne := Nat.cast_pos.mpr unitsInOne_pos
  have hlt : ∀ x y : Binary64, x.units < y.units ↔ x.value < y.value := by
    intro x y
    rw [← mul_lt_mul_iff_left₀ hpos, value_mul_unitsInOne, value_mul_unitsInOne, Int.cast_lt]
  rcases lt_trichotomy x.value y.value with h | h | h
  · rw [compare_lt_iff_lt.mpr h, cmp, compare_lt_iff_lt, hlt]
    exact h
  · rw [compare_eq_iff_eq.mpr h, cmp, compare_eq_iff_eq, ← Int.cast_inj (α := ℚ),
      ← value_mul_unitsInOne, ← value_mul_unitsInOne, h]
  · rw [compare_gt_iff_gt.mpr h, cmp, compare_gt_iff_gt, hlt]
    exact h

/-! ## Keys -/

/-- A pattern with its sign flipped, or if it is negative with all bits flipped. -/
def flipped (bits : UInt64) : UInt64 :=
  if bits >>> 63 = 1 then ~~~bits else bits ^^^ 0x8000000000000000

/-- The pattern of a number, zero without a sign. -/
def pattern (x : Binary64) : UInt64 := if x.isZero then 0 else .ofNat x.bits

/-- To flip a bit that is not set is to add it. -/
theorem xor_two_pow_of_lt {n k : Nat} (h : n < 2 ^ k) : n ^^^ 2 ^ k = 2 ^ k + n := by
  have hdiv : (n ^^^ 2 ^ k) / 2 ^ k = 1 := by
    rw [Nat.xor_div_two_pow, Nat.div_eq_of_lt h, Nat.div_self (Nat.two_pow_pos k), Nat.zero_xor]
  have hmod : (n ^^^ 2 ^ k) % 2 ^ k = n := by
    rw [Nat.xor_mod_two_pow, Nat.mod_eq_of_lt h, Nat.mod_self, Nat.xor_zero]
  rw [← Nat.div_add_mod (n ^^^ 2 ^ k) (2 ^ k), hdiv, hmod, Nat.mul_one]

/-- A flipped pattern as a natural number. -/
theorem toNat_flipped (bits : UInt64) : (flipped bits).toNat =
    if bits.toNat < 0x8000000000000000 then 0x8000000000000000 + bits.toNat
    else 0xFFFFFFFFFFFFFFFF - bits.toNat := by
  have hlt : bits.toNat < 2 ^ 64 := bits.toNat_lt
  have hsign : bits >>> 63 = 1 ↔ ¬ bits.toNat < 0x8000000000000000 := by
    rw [← UInt64.toNat_inj, UInt64.toNat_shiftRight, Nat.shiftRight_eq_div_pow]
    simp
    omega
  unfold flipped
  split
  · next hset =>
      rw [if_neg (hsign.mp hset), UInt64.toNat_not]
      rfl
  · next hclear =>
      have hsmall : bits.toNat < 0x8000000000000000 := by
        by_contra hlarge
        exact hclear (hsign.mpr hlarge)
      rw [if_pos hsmall, UInt64.toNat_xor]
      exact xor_two_pow_of_lt (k := 63) hsmall

/-- The key of a number is its flipped pattern. -/
theorem orderPattern_eq_flipped (x : Binary64) : x.orderPattern = flipped x.pattern := by
  have hfinite := x.finite
  rw [← UInt64.toNat_inj, toNat_orderPattern, toNat_flipped, pattern]
  by_cases hzero : x.magnitude = 0
  · simp [isZero, hzero]
  · have hbits : (UInt64.ofNat x.bits).toNat = x.bits := by
      rw [UInt64.toNat_ofNat_of_lt']
      unfold bits UInt64.size
      split <;> omega
    simp only [isZero, beq_iff_eq, hzero, if_false, hbits]
    cases hneg : x.negative with
    | false =>
        have hpositive : x.bits = x.magnitude := by simp [bits, hneg]
        rw [if_neg (by simp), hpositive, if_pos (by omega)]
    | true =>
        have hnegative : x.bits = 0x8000000000000000 + x.magnitude := by simp [bits, hneg]
        rw [if_pos ⟨rfl, hzero⟩, hnegative, if_neg (by omega)]
        omega

end Binary64

/-- **Three orders of numbers agree.**  The value of a number is the rational number
that its 64-bit pattern denotes.  Its key is that pattern flipped, and keys in
unsigned order, the operations of a filter and a sort all compare two numbers
as their values compare. -/
theorem numbers_compare_by_value {field : String} {d e : Document} {a b : Number}
    (hd : d.valueAt field = some (.number a)) (he : e.valueAt field = some (.number b)) :
    IndexKey.ofJson? (.number a) = some (.number (Binary64.flipped a.toBinary64.pattern)) ∧
      IndexKey.ofJson? (.number b) = some (.number (Binary64.flipped b.toBinary64.pattern)) ∧
      Compared field d e a b (compare a.toBinary64.value b.toBinary64.value) := by
  refine ⟨?_, ?_, ?_⟩
  · rw [IndexKey.ofJson?, Binary64.orderPattern_eq_flipped]
  · rw [IndexKey.ofJson?, Binary64.orderPattern_eq_flipped]
  · rw [← Binary64.cmp_eq_compare_value]
    exact compared_of_numbers hd he

/-- A document whose attribute is a number. -/
def numbered (n : Number) : Document := .object [("v", .number n)]

theorem valueAt_numbered (n : Number) : (numbered n).valueAt "v" = some (.number n) := rfl

/-- Zero with a sign. -/
def negativeZero : Number := .float { Binary64.zero with negative := true }

/-- The least number above zero. -/
def leastPositive : Number := .float ⟨false, 1, by decide⟩

/-- Zero with a sign is less than the least number above zero, by value, key,
operation and sort, although its pattern is larger. -/
theorem numbers_compare_by_value_leastPositive :
    leastPositive.toBinary64.bits < negativeZero.toBinary64.bits ∧
      IndexKey.ofJson? (.number negativeZero) = some (.number 0x8000000000000000) ∧
      IndexKey.ofJson? (.number leastPositive) = some (.number 0x8000000000000001) ∧
      Compared "v" (numbered negativeZero) (numbered leastPositive) negativeZero leastPositive
        .lt := by
  have hless : compare negativeZero.toBinary64.value leastPositive.toBinary64.value = .lt := by
    rw [← Binary64.cmp_eq_compare_value]
    decide
  obtain ⟨hzero, hleast, hcompared⟩ := numbers_compare_by_value (valueAt_numbered negativeZero)
    (valueAt_numbered leastPositive)
  refine ⟨by decide, hzero.trans (by decide), hleast.trans (by decide), ?_⟩
  rwa [hless] at hcompared

end DocQuery
