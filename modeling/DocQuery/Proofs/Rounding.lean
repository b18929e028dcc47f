import DocQuery.Proofs.NumberKeys
import Mathlib.Algebra.Group.Nat.Defs

/-!
# Rounding integers

An integer is a whole number of units, of which its 53 leading bits are kept
and the others rounded off.  Two things make the rounded values fit for
comparing integers: rounding never turns their order round, and it leaves
alone what a floating-point number can stand for.

* `nearest_unitsOf` — every pattern is the nearest one to its own magnitude;
* `nearest_mono` — to a larger magnitude no smaller pattern is nearest;
* `units_ofInt_mono`, `units_ofInt_of_exact` — the same for integers;
* `exact_of_natAbs_le` — integers of up to 53 bits, and 2⁵³, are exact;
* `units_ofInt_le`, `le_units_ofInt` — no integer is rounded past a
  floating-point number.
-/

namespace DocQuery

namespace Binary64

/-! ## The nearest natural -/

/-- A quotient is rounded down or up. -/
theorem roundHalfEven_cases (num den : Nat) :
    roundHalfEven num den = num / den ∧ 2 * (num % den) ≤ den ∨
      roundHalfEven num den = num / den + 1 ∧ den ≤ 2 * (num % den) := by
  unfold roundHalfEven
  dsimp only
  split
  · exact Or.inl ⟨rfl, by omega⟩
  · split
    · exact Or.inr ⟨rfl, by omega⟩
    · rcases Nat.mod_two_eq_zero_or_one (num / den) with heven | hodd
      · exact Or.inl ⟨by omega, by omega⟩
      · exact Or.inr ⟨by omega, by omega⟩

/-- A quotient without remainder needs no rounding. -/
theorem roundHalfEven_mul (q : Nat) {den : Nat} (hden : 0 < den) :
    roundHalfEven (q * den) den = q := by
  simp [roundHalfEven, Nat.mul_div_cancel q hden, hden]

/-- A larger quotient is not rounded to a smaller natural. -/
theorem roundHalfEven_mono {m n : Nat} (den : Nat) (h : m ≤ n) :
    roundHalfEven m den ≤ roundHalfEven n den := by
  have hdiv : m / den ≤ n / den := Nat.div_le_div_right h
  have hm := roundHalfEven_cases m den
  have hn := roundHalfEven_cases n den
  rcases Nat.lt_or_eq_of_le hdiv with hlt | heq
  · omega
  · -- between the same two naturals the one with the larger remainder is further up
    have hm' := Nat.div_add_mod m den
    have hn' := Nat.div_add_mod n den
    rw [heq] at hm'
    rcases hm with ⟨hm, _⟩ | ⟨hm, hup⟩
    · omega
    · rcases hn with ⟨_, hdown⟩ | ⟨hn, _⟩
      · have hsame : m = n := by omega
        rw [hsame]
      · omega

/-! ## The nearest pattern -/

/-- How many bits of a magnitude do not fit into 53. -/
def excess (n : Nat) : Nat := if n < 0x20000000000000 then 0 else n.log2 - 52

/-- The pattern nearest to a magnitude: its exponent counts the bits that do not
fit, and the others are what is left of it. -/
theorem nearest_one (n : Nat) :
    nearest n 1 = excess n * 0x10000000000000 + roundHalfEven n (2 ^ excess n) := by
  simp [nearest, excess, Nat.pow_eq]

/-- The bits of a magnitude are those that fit and those that do not. -/
theorem lt_excess (n : Nat) : n < 0x20000000000000 * 2 ^ excess n := by
  unfold excess
  split
  · omega
  · next hlarge =>
      have hlog : 53 ≤ n.log2 := (Nat.le_log2 (by omega)).mpr (by omega)
      have hpow : 0x20000000000000 * 2 ^ (n.log2 - 52) = 2 ^ (n.log2 + 1) := by
        rw [show (0x20000000000000 : Nat) = 2 ^ 53 from rfl, ← Nat.pow_add]
        congr 1
        omega
      rw [hpow]
      exact Nat.lt_log2_self

/-- If bits do not fit, those that fit begin with a one. -/
theorem excess_le {n : Nat} (h : excess n ≠ 0) : 0x10000000000000 * 2 ^ excess n ≤ n := by
  unfold excess at h ⊢
  split at h
  · exact absurd rfl h
  · next hlarge =>
      have hlog : 53 ≤ n.log2 := (Nat.le_log2 (by omega)).mpr (by omega)
      have hpow : 0x10000000000000 * 2 ^ (n.log2 - 52) = 2 ^ n.log2 := by
        rw [show (0x10000000000000 : Nat) = 2 ^ 52 from rfl, ← Nat.pow_add]
        congr 1
        omega
      rw [if_neg hlarge, hpow]
      exact Nat.log2_self_le (by omega)

/-- The leading bits of a magnitude say how many others there are. -/
theorem excess_eq {n e : Nat} (hle : 0x10000000000000 * 2 ^ e ≤ n)
    (hlt : n < 0x20000000000000 * 2 ^ e) : excess n = e := by
  cases e with
  | zero =>
      have hsmall : n < 0x20000000000000 := by simpa using hlt
      simp [excess, hsmall]
  | succ e =>
      have hpos : 0 < 2 ^ e := Nat.two_pow_pos e
      have hlarge : ¬ n < 0x20000000000000 := by
        rw [Nat.pow_succ] at hle
        omega
      have hlog : n.log2 = 52 + (e + 1) := by
        rw [Nat.log2_eq_iff (by omega)]
        rw [show (0x10000000000000 : Nat) = 2 ^ 52 from rfl, ← Nat.pow_add] at hle
        rw [show (0x20000000000000 : Nat) = 2 ^ 53 from rfl, ← Nat.pow_add] at hlt
        exact ⟨hle, by rwa [show 52 + (e + 1) + 1 = 53 + (e + 1) by omega]⟩
      rw [excess, if_neg hlarge, hlog]
      omega

/-- **Representable magnitudes stay.**  Every pattern is the nearest one to its
own magnitude. -/
theorem nearest_unitsOf (p : Nat) : nearest (unitsOf p) 1 = p := by
  by_cases hsmall : p < 0x10000000000000
  · have hexcess : excess p = 0 := by
      rw [excess, if_pos (by omega)]
    have hround : roundHalfEven p 1 = p := by simpa using roundHalfEven_mul p Nat.one_pos
    simp [unitsOf_small hsmall, nearest_one, hexcess, hround]
  · obtain ⟨e, f, hf, rfl⟩ : ∃ e f, f < 0x10000000000000 ∧ p = (e + 1) * 0x10000000000000 + f :=
      ⟨p / 0x10000000000000 - 1, p % 0x10000000000000, Nat.mod_lt _ (by decide), by omega⟩
    have hpow : 0 < 2 ^ e := Nat.two_pow_pos e
    rw [unitsOf_normal e f hf, Nat.pow_eq]
    have hexcess : excess ((0x10000000000000 + f) * 2 ^ e) = e :=
      excess_eq (Nat.mul_le_mul_right _ (by omega)) (Nat.mul_lt_mul_of_pos_right (by omega) hpow)
    rw [nearest_one, hexcess, roundHalfEven_mul _ hpow]
    omega

/-- **Rounding keeps the order.**  To a larger magnitude no smaller pattern is
nearest. -/
theorem nearest_mono {m n : Nat} (h : m ≤ n) : nearest m 1 ≤ nearest n 1 := by
  rw [nearest_one, nearest_one]
  have hm := lt_excess m
  rcases Nat.lt_trichotomy (excess m) (excess n) with hlt | heq | hgt
  · -- what is left of the smaller one carries at most once into the exponent
    have hupper : roundHalfEven m (2 ^ excess m) ≤ 0x20000000000000 := by
      rw [← roundHalfEven_mul 0x20000000000000 (Nat.two_pow_pos (excess m))]
      exact roundHalfEven_mono _ (Nat.le_of_lt hm)
    have hlower : 0x10000000000000 ≤ roundHalfEven n (2 ^ excess n) := by
      rw [← roundHalfEven_mul 0x10000000000000 (Nat.two_pow_pos (excess n))]
      exact roundHalfEven_mono _ (excess_le (by omega))
    omega
  · rw [heq]
    exact Nat.add_le_add_left (roundHalfEven_mono _ h) _
  · -- with fewer bits to spare the larger magnitude would be the smaller one
    have hpow : 2 ^ (excess n + 1) ≤ 2 ^ excess m := Nat.pow_le_pow_right (by decide) hgt
    have hle := excess_le (n := m) (by omega)
    have hn := lt_excess n
    rw [Nat.pow_succ] at hpow
    omega

/-! ## Integers -/

/-- How many units the nearest number to a natural has, cut off at the largest
finite one. -/
def roundedUnits (m : Nat) : Nat := unitsOf (min (nearest (m * unitsInOne) 1) maxMagnitude)

theorem units_ofInt (n : Int) :
    (ofInt n).units =
      if n < 0 then -(roundedUnits n.natAbs : Int) else roundedUnits n.natAbs := by
  by_cases hneg : n < 0 <;> simp [ofInt, ofUnits, units, roundedUnits, hneg]

theorem roundedUnits_mono {m n : Nat} (h : m ≤ n) : roundedUnits m ≤ roundedUnits n := by
  apply unitsOf_strictMono.monotone
  have hnearest := nearest_mono (Nat.mul_le_mul_right unitsInOne h)
  omega

/-- A natural that a number stands for is rounded to this number. -/
theorem roundedUnits_of_exact {m : Nat} {x : Binary64}
    (h : unitsOf x.magnitude = m * unitsInOne) : roundedUnits m = m * unitsInOne := by
  have hfinite : min x.magnitude maxMagnitude = x.magnitude := by
    have hx := x.finite
    simp only [maxMagnitude]
    omega
  rw [roundedUnits, ← h, nearest_unitsOf, hfinite]

/-- A larger integer is not rounded to a smaller value. -/
theorem units_ofInt_mono {a b : Int} (h : a ≤ b) : (ofInt a).units ≤ (ofInt b).units := by
  rw [units_ofInt, units_ofInt]
  split
  · split
    · have hmono : roundedUnits b.natAbs ≤ roundedUnits a.natAbs := roundedUnits_mono (by omega)
      omega
    · omega
  · have hmono : roundedUnits a.natAbs ≤ roundedUnits b.natAbs := roundedUnits_mono (by omega)
    rw [if_neg (by omega)]
    omega

/-- The units in one, as a power of two that is never computed. -/
theorem unitsInOne_eq {e : Nat} (he : e = 1074) : unitsInOne = 2 ^ e := by
  unfold unitsInOne
  rw [← he, Nat.pow_eq]

theorem unitsInOne_pos : 0 < unitsInOne := by
  obtain ⟨e, he⟩ : ∃ e, e = 1074 := ⟨_, rfl⟩
  rw [unitsInOne_eq he]
  exact Nat.two_pow_pos e

/-- Integers are equal if as many ones make as many units. -/
theorem eq_of_mul_unitsInOne {a b : Int} (h : a * (unitsInOne : Int) = b * unitsInOne) :
    a = b := by
  have hpos := unitsInOne_pos
  exact Int.eq_of_mul_eq_mul_right (by omega) h

/-- An integer is exact if some floating-point number has its value. -/
def Exact (n : Int) : Prop := ∃ x : Binary64, x.units = n * unitsInOne

/-- An exact integer is rounded to its own value. -/
theorem units_ofInt_of_exact {n : Int} (h : Exact n) : (ofInt n).units = n * unitsInOne := by
  obtain ⟨x, hx⟩ := h
  have hmagnitude : unitsOf x.magnitude = n.natAbs * unitsInOne := by
    have habs := congrArg Int.natAbs hx
    rw [Int.natAbs_mul, Int.natAbs_natCast] at habs
    rw [← habs, units]
    split <;> simp
  rw [units_ofInt, roundedUnits_of_exact hmagnitude, Int.natCast_mul]
  by_cases hneg : n < 0
  · rw [if_pos hneg, ← Int.neg_mul]
    congr 1
    omega
  · rw [if_neg hneg]
    congr 1
    omega

/-- A significand of 53 bits and an exponent are a number, unless it is too large. -/
theorem exists_units_eq {c e : Nat} (hle : 0x10000000000000 ≤ c) (hlt : c < 0x20000000000000)
    (he : e < 2046) : ∃ x : Binary64, x.units = (c * 2 ^ e : Nat) := by
  refine ⟨⟨false, (e + 1) * 0x10000000000000 + (c - 0x10000000000000), by omega⟩, ?_⟩
  have hsignificand : 0x10000000000000 + (c - 0x10000000000000) = c := by omega
  rw [units, if_neg (by simp), unitsOf_normal e _ (by omega), Nat.pow_eq, hsignificand]

/-- The number with the other sign has the opposite value. -/
theorem units_neg (x : Binary64) : x.neg.units = -x.units := by
  cases hx : x.negative <;> simp [units, neg, hx]

/-- Naturals of at most 53 bits are exact. -/
theorem exact_of_lt {m : Nat} (h : m < 0x20000000000000) : Exact m := by
  by_cases hzero : m = 0
  · have hunits : zero.units = 0 :=
      congrArg Int.ofNat (unitsOf_small (show 0 < 0x10000000000000 by decide))
    rw [hzero]
    exact ⟨zero, hunits.trans (Int.zero_mul _).symm⟩
  · have hlog : m.log2 < 53 := (Nat.log2_lt hzero).mpr h
    -- the significand is shifted up to 53 bits, and the exponent makes up for it
    have hsplit : m * unitsInOne = m * 2 ^ (52 - m.log2) * 2 ^ (1022 + m.log2) := by
      rw [unitsInOne_eq (show 52 - m.log2 + (1022 + m.log2) = 1074 by omega), Nat.pow_add,
        Nat.mul_assoc]
    have hle : 0x10000000000000 ≤ m * 2 ^ (52 - m.log2) := by
      have hbits := Nat.mul_le_mul_right (2 ^ (52 - m.log2)) (Nat.log2_self_le hzero)
      rwa [← Nat.pow_add, show m.log2 + (52 - m.log2) = 52 by omega] at hbits
    have hlt : m * 2 ^ (52 - m.log2) < 0x20000000000000 := by
      have hbits := Nat.mul_lt_mul_of_pos_right (Nat.lt_log2_self (n := m))
        (Nat.two_pow_pos (52 - m.log2))
      rwa [← Nat.pow_add, show m.log2 + 1 + (52 - m.log2) = 53 by omega] at hbits
    obtain ⟨x, hx⟩ := exists_units_eq hle hlt (show 1022 + m.log2 < 2046 by omega)
    exact ⟨x, by rw [hx, ← hsplit, Int.natCast_mul]⟩

/-- Integers of at most 53 bits are exact, and so is 2⁵³. -/
theorem exact_of_natAbs_le {n : Int} (h : n.natAbs ≤ 0x20000000000000) : Exact n := by
  have hnat : ∀ m : Nat, m ≤ 0x20000000000000 → Exact m := by
    intro m hm
    rcases Nat.lt_or_eq_of_le hm with hlt | rfl
    · exact exact_of_lt hlt
    · obtain ⟨e, he⟩ : ∃ e, e = 1074 := ⟨_, rfl⟩
      obtain ⟨x, hx⟩ := exists_units_eq (c := 0x10000000000000) (e := e + 1) (by decide)
        (by decide) (by omega)
      refine ⟨x, ?_⟩
      rw [hx, unitsInOne_eq he, ← Int.natCast_mul, Nat.pow_succ]
      congr 1
      omega
  obtain ⟨m, rfl | rfl⟩ := Int.eq_nat_or_neg n
  · exact hnat m (by omega)
  · obtain ⟨x, hx⟩ := hnat m (by omega)
    exact ⟨x.neg, by rw [units_neg, hx, Int.neg_mul]⟩

/-! ## Integers between floating-point numbers -/

/-- No number at least as large as a natural is below what the natural is rounded to. -/
theorem roundedUnits_le {m p : Nat} (h : m * unitsInOne ≤ unitsOf p) :
    roundedUnits m ≤ unitsOf p := by
  have hnearest : nearest (m * unitsInOne) 1 ≤ p := nearest_unitsOf p ▸ nearest_mono h
  exact unitsOf_strictMono.monotone (Nat.le_trans (Nat.min_le_left _ _) hnearest)

/-- No number at most as large as a natural is above what the natural is rounded to. -/
theorem le_roundedUnits {m : Nat} {x : Binary64} (h : unitsOf x.magnitude ≤ m * unitsInOne) :
    unitsOf x.magnitude ≤ roundedUnits m := by
  have hnearest : x.magnitude ≤ nearest (m * unitsInOne) 1 := by
    have hmono := nearest_mono h
    rwa [nearest_unitsOf] at hmono
  have hfinite : x.magnitude ≤ maxMagnitude := Nat.le_of_lt_succ x.finite
  exact unitsOf_strictMono.monotone (Nat.le_min.mpr ⟨hnearest, hfinite⟩)

theorem units_ofInt_natCast (m : Nat) : (ofInt m).units = roundedUnits m := by
  rw [units_ofInt, if_neg (by omega), Int.natAbs_natCast]

/-- Opposite integers are rounded to opposite values. -/
theorem units_ofInt_neg (n : Int) : (ofInt (-n)).units = -(ofInt n).units := by
  have hzero : roundedUnits 0 = 0 := by
    have hle : roundedUnits 0 ≤ unitsOf 0 := roundedUnits_le (by omega)
    rw [unitsOf_small (by decide)] at hle
    omega
  rw [units_ofInt, units_ofInt, Int.natAbs_neg]
  rcases Int.lt_trichotomy n 0 with hneg | rfl | hpos
  · rw [if_neg (by omega), if_pos hneg, Int.neg_neg]
  · simp [hzero]
  · rw [if_pos (by omega), if_neg (by omega)]

/-- An integer that is at most a floating-point number is not rounded past it. -/
theorem units_ofInt_le {n : Int} {x : Binary64} (h : n * unitsInOne ≤ x.units) :
    (ofInt n).units ≤ x.units := by
  obtain ⟨m, rfl | rfl⟩ := Int.eq_nat_or_neg n
  · rw [units, ← Int.natCast_mul] at h
    rw [units_ofInt_natCast, units]
    split at h
    · next hneg =>
        -- below zero there is no natural, so both are zero
        have hrounded := roundedUnits_le (m := m) (p := x.magnitude) (by omega)
        rw [if_pos hneg]
        omega
    · next hpos =>
        have hrounded := roundedUnits_le (m := m) (p := x.magnitude) (by omega)
        rw [if_neg hpos]
        omega
  · rw [Int.neg_mul, units, ← Int.natCast_mul] at h
    rw [units_ofInt_neg, units_ofInt_natCast, units]
    split at h
    · next hneg =>
        have hrounded := le_roundedUnits (m := m) (x := x) (by omega)
        rw [if_pos hneg]
        omega
    · next hpos =>
        rw [if_neg hpos]
        omega

/-- An integer that is at least a floating-point number is not rounded below it. -/
theorem le_units_ofInt {n : Int} {x : Binary64} (h : x.units ≤ n * unitsInOne) :
    x.units ≤ (ofInt n).units := by
  have hneg : (ofInt (-n)).units ≤ x.neg.units := by
    apply units_ofInt_le
    rw [units_neg, Int.neg_mul]
    exact Int.neg_le_neg h
  rw [units_ofInt_neg, units_neg] at hneg
  exact Int.le_of_neg_le_neg hneg

end Binary64

end DocQuery
