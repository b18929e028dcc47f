import DocQuery.Index.Key
import Mathlib.Order.Monotone.Basic

/-!
# Keys of numbers

The key of a number is its rearranged pattern.  Here is why a walk through
the keys of a field meets its numbers in order of value: both the value of a
number, in units, and its rearranged pattern grow with the signed pattern.

* `unitsOf_strictMono` — a larger pattern is a larger magnitude;
* `orderPattern_lt_iff`, `orderPattern_eq_iff` — order and equality of keys
  are order and equality of values.
-/

namespace DocQuery

namespace Binary64

/-- The magnitudes without leading one are their own patterns. -/
theorem unitsOf_small {p : Nat} (hp : p < 0x10000000000000) : unitsOf p = p := by
  have hexponent : p / 0x10000000000000 = 0 := by omega
  have hfraction : p % 0x10000000000000 = p := by omega
  simp [unitsOf, hexponent, hfraction]

/-- The magnitudes with a leading one, by exponent and fraction. -/
theorem unitsOf_normal (e f : Nat) (hf : f < 0x10000000000000) :
    unitsOf ((e + 1) * 0x10000000000000 + f) = (0x10000000000000 + f) * Nat.pow 2 e := by
  have hexponent : ((e + 1) * 0x10000000000000 + f) / 0x10000000000000 = e + 1 := by omega
  have hfraction : ((e + 1) * 0x10000000000000 + f) % 0x10000000000000 = f := by omega
  simp [unitsOf, hexponent, hfraction]

/-- The next pattern is a larger magnitude: the fraction grows, or it carries
into the exponent. -/
theorem unitsOf_lt_succ (p : Nat) : unitsOf p < unitsOf (p + 1) := by
  by_cases hsmall : p < 0x10000000000000
  · by_cases hnext : p + 1 < 0x10000000000000
    · rw [unitsOf_small hsmall, unitsOf_small hnext]
      exact Nat.lt_succ_self p
    · have hp : p + 1 = (0 + 1) * 0x10000000000000 + 0 := by omega
      rw [unitsOf_small hsmall, hp, unitsOf_normal 0 0 (by decide)]
      omega
  · obtain ⟨e, f, hf, rfl⟩ : ∃ e f, f < 0x10000000000000 ∧ p = (e + 1) * 0x10000000000000 + f :=
      ⟨p / 0x10000000000000 - 1, p % 0x10000000000000, Nat.mod_lt _ (by decide), by omega⟩
    have hpow : 0 < Nat.pow 2 e := Nat.pow_pos (by decide)
    rw [unitsOf_normal e f hf]
    by_cases hnext : f + 1 < 0x10000000000000
    · rw [Nat.add_assoc _ f 1, unitsOf_normal e (f + 1) hnext]
      exact Nat.mul_lt_mul_of_pos_right (by omega) hpow
    · have hp : (e + 1) * 0x10000000000000 + f + 1 = (e + 1 + 1) * 0x10000000000000 + 0 := by omega
      have hsucc : Nat.pow 2 (e + 1) = 2 * Nat.pow 2 e := Nat.mul_comm _ 2
      rw [hp, unitsOf_normal (e + 1) 0 (by decide), hsucc, ← Nat.mul_assoc]
      exact Nat.mul_lt_mul_of_pos_right (by omega) hpow

/-- A larger pattern is a larger magnitude. -/
theorem unitsOf_strictMono : StrictMono unitsOf := strictMono_nat_of_lt_succ unitsOf_lt_succ

/-- Only the zero pattern has no magnitude. -/
theorem unitsOf_eq_zero_iff {p : Nat} : unitsOf p = 0 ↔ p = 0 :=
  unitsOf_strictMono.injective.eq_iff' (unitsOf_small (by decide))

/-- The rearranged pattern as a natural number. -/
theorem toNat_orderPattern (x : Binary64) :
    x.orderPattern.toNat =
      if x.negative ∧ x.magnitude ≠ 0 then 0x7FFFFFFFFFFFFFFF - x.magnitude
      else 0x8000000000000000 + x.magnitude := by
  have hfinite := x.finite
  unfold orderPattern
  rw [UInt64.toNat_ofNat_of_lt']
  · cases hneg : x.negative <;> by_cases hzero : x.magnitude = 0 <;>
      simp [isZero, bits, hneg, hzero] <;> omega
  · cases hneg : x.negative <;> by_cases hzero : x.magnitude = 0 <;>
      simp [isZero, bits, hneg, hzero, UInt64.size] <;> omega

/-- A smaller value has a smaller key. -/
theorem orderPattern_lt {x y : Binary64} (h : x.units < y.units) :
    x.orderPattern < y.orderPattern := by
  have hx := x.finite
  have hy := y.finite
  have hzero : unitsOf 0 = 0 := unitsOf_small (by decide)
  have hmono : ∀ p q, unitsOf p < unitsOf q → p < q := fun p q => unitsOf_strictMono.lt_iff_lt.mp
  rw [UInt64.lt_iff_toNat_lt, toNat_orderPattern, toNat_orderPattern]
  simp only [units] at h
  cases hnx : x.negative <;> cases hny : y.negative <;>
    simp only [hnx, hny, Bool.false_eq_true, if_false, if_true, false_and, true_and] at h ⊢
  · have hlt := hmono x.magnitude y.magnitude (by omega)
    omega
  · omega
  · by_cases hm : x.magnitude = 0
    · have hlt := hmono 0 y.magnitude (by rw [hm] at h; omega)
      simp only [hm, ne_eq, not_true, if_false]
      omega
    · simp only [hm, ne_eq, not_false_eq_true, if_true]
      omega
  · have hlt := hmono y.magnitude x.magnitude (by omega)
    have hm : x.magnitude ≠ 0 := by omega
    simp only [hm, ne_eq, not_false_eq_true, if_true]
    split <;> omega

/-- Equal values have one key, the two zeros among them. -/
theorem orderPattern_eq {x y : Binary64} (h : x.units = y.units) :
    x.orderPattern = y.orderPattern := by
  have hinj : ∀ p q, unitsOf p = unitsOf q → p = q := fun p q h => unitsOf_strictMono.injective h
  rw [← UInt64.toNat_inj, toNat_orderPattern, toNat_orderPattern]
  simp only [units] at h
  cases hnx : x.negative <;> cases hny : y.negative <;>
    simp only [hnx, hny, Bool.false_eq_true, if_false, if_true, false_and, true_and] at h ⊢
  · rw [hinj x.magnitude y.magnitude (by omega)]
  · -- values of both signs are equal only at zero
    have hm : x.magnitude = 0 := unitsOf_eq_zero_iff.mp (by omega)
    have hm' : y.magnitude = 0 := unitsOf_eq_zero_iff.mp (by omega)
    simp [hm, hm']
  · have hm : x.magnitude = 0 := unitsOf_eq_zero_iff.mp (by omega)
    have hm' : y.magnitude = 0 := unitsOf_eq_zero_iff.mp (by omega)
    simp [hm, hm']
  · rw [hinj x.magnitude y.magnitude (by omega)]

/-- Keys are ordered as values are. -/
theorem orderPattern_lt_iff {x y : Binary64} :
    x.orderPattern < y.orderPattern ↔ x.units < y.units := by
  refine ⟨?_, orderPattern_lt⟩
  intro h
  by_contra hnot
  rcases Int.lt_or_eq_of_le (Int.not_lt.mp hnot) with hlt | heq
  · exact UInt64.lt_irrefl _ (UInt64.lt_trans h (orderPattern_lt hlt))
  · rw [orderPattern_eq heq] at h
    exact UInt64.lt_irrefl _ h

/-- Keys are equal when values are. -/
theorem orderPattern_eq_iff {x y : Binary64} :
    x.orderPattern = y.orderPattern ↔ x.units = y.units := by
  refine ⟨?_, orderPattern_eq⟩
  intro h
  rcases Int.lt_trichotomy x.units y.units with hlt | heq | hlt
  · exact absurd (h ▸ orderPattern_lt hlt) (UInt64.lt_irrefl _)
  · exact heq
  · exact absurd (h ▸ orderPattern_lt hlt) (UInt64.lt_irrefl _)

end Binary64

end DocQuery
