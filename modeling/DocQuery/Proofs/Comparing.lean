import DocQuery.Filter.Match
import DocQuery.Proofs.Rounding
import DocQuery.Query.Ranking

/-!
# Comparing integers

Numbers are compared in three places: by the operations of a filter, by the
keys of an index, and by a sort.  All of them go by floating-point values, so
they agree about any two numbers (`compared_of_numbers`).

For integers this is comparison after rounding.  Two of them are never
compared the wrong way round; but if both are rounded to one value, which
happens only past 53 bits, they count as equal although they are not
(`integers_compare_rounded`, `neighbours_compare_equal`).
-/

namespace DocQuery

/-- Whichever way the number `a`, the attribute of `d`, is compared with the
number `b`, the attribute of `e`, it comes out as `order`. -/
structure Compared (field : String) (d e : Document) (a b : Number) (order : Ordering) :
    Prop where
  eq : Predicate.accepts ⟨field, .eq (.number b)⟩ d = true ↔ order = .eq
  ne : Predicate.accepts ⟨field, .ne (.number b)⟩ d = true ↔ order ≠ .eq
  gt : Predicate.accepts ⟨field, .gt (.number b)⟩ d = true ↔ order = .gt
  gte : Predicate.accepts ⟨field, .gte (.number b)⟩ d = true ↔ order ≠ .lt
  lt : Predicate.accepts ⟨field, .lt (.number b)⟩ d = true ↔ order = .lt
  lte : Predicate.accepts ⟨field, .lte (.number b)⟩ d = true ↔ order ≠ .gt
  keys : ∃ k l, IndexKey.ofJson? (.number a) = some k ∧ IndexKey.ofJson? (.number b) = some l ∧
    (k < l ↔ order = .lt) ∧ (k = l ↔ order = .eq) ∧ (l < k ↔ order = .gt)
  ascending : SortBy.cmp ⟨field, .ascending⟩ d e = order
  descending : SortBy.cmp ⟨field, .descending⟩ d e = order.swap

/-- All comparisons of two numbers go by their floating-point values. -/
theorem compared_of_numbers {field : String} {d e : Document} {a b : Number}
    (hd : d.valueAt field = some (.number a)) (he : e.valueAt field = some (.number b)) :
    Compared field d e a b (a.toBinary64.cmp b.toBinary64) := by
  have hkeys : ∀ {x y : Binary64}, IndexKey.number x.orderPattern < .number y.orderPattern ↔
      x.cmp y = .lt := fun {x y} =>
    Binary64.orderPattern_lt_iff.trans compare_lt_iff_lt.symm
  constructor
  case keys =>
      refine ⟨_, _, rfl, rfl, hkeys, ?_, ?_⟩
      · rw [IndexKey.number.injEq, Binary64.orderPattern_eq_iff, Binary64.cmp, compare_eq_iff_eq]
      · rw [hkeys, Binary64.cmp, Binary64.cmp, compare_lt_iff_lt, compare_gt_iff_gt]
  case ascending | descending => simp [SortBy.cmp, Rank.of, hd, he, Rank.cmp]
  case eq | ne =>
      simp [Predicate.accepts, hd, Operation.accepts, Operation.ofAny, Operation.holdsOf,
        Json.equals, Binary64.same, Binary64.cmp]
  all_goals
    simp [Predicate.accepts, hd, Operation.accepts, Operation.ofAny, Operation.holdsOf, Json.cmp?]

/-! ## Integers -/

/-- Rounding never turns the order of two integers round. -/
theorem cmp_ofInt_cases (a b : Int) :
    (Binary64.ofInt a).cmp (.ofInt b) = compare a b ∨
      (Binary64.ofInt a).cmp (.ofInt b) = .eq := by
  rw [Binary64.cmp, compare_eq_iff_eq]
  rcases Int.lt_trichotomy a b with hlt | rfl | hgt
  · rcases Int.lt_or_eq_of_le (Binary64.units_ofInt_mono (Int.le_of_lt hlt)) with h | h
    · exact Or.inl ((compare_lt_iff_lt.mpr h).trans (compare_lt_iff_lt.mpr hlt).symm)
    · exact Or.inr h
  · exact Or.inr rfl
  · rcases Int.lt_or_eq_of_le (Binary64.units_ofInt_mono (Int.le_of_lt hgt)) with h | h
    · exact Or.inl ((compare_gt_iff_gt.mpr h).trans (compare_gt_iff_gt.mpr hgt).symm)
    · exact Or.inr h.symm

/-- Two different integers are told apart exactly if they are rounded to two values. -/
theorem cmp_ofInt_iff (a b : Int) :
    (Binary64.ofInt a).cmp (.ofInt b) = compare a b ↔
      a = b ∨ (Binary64.ofInt a).units ≠ (Binary64.ofInt b).units := by
  constructor
  · intro h
    by_cases hunits : (Binary64.ofInt a).units = (Binary64.ofInt b).units
    · rw [Binary64.cmp, compare_eq_iff_eq.mpr hunits] at h
      exact Or.inl (compare_eq_iff_eq.mp h.symm)
    · exact Or.inr hunits
  · rintro (rfl | hunits)
    · exact (compare_eq_iff_eq.mpr rfl).trans (compare_eq_iff_eq.mpr rfl).symm
    · exact (cmp_ofInt_cases a b).resolve_right fun h => hunits (compare_eq_iff_eq.mp h)

/-- Exact integers are told apart. -/
theorem cmp_ofInt_of_exact {a b : Int} (ha : Binary64.Exact a) (hb : Binary64.Exact b) :
    (Binary64.ofInt a).cmp (.ofInt b) = compare a b := by
  rw [cmp_ofInt_iff, Binary64.units_ofInt_of_exact ha, Binary64.units_ofInt_of_exact hb]
  by_cases h : a = b
  · exact Or.inl h
  · exact Or.inr fun hunits => h (Binary64.eq_of_mul_unitsInOne hunits)

/-- **Integers are compared after rounding.**  However two integers are
compared, by an operation, as keys or by a sort, it comes out the same: as
their order or as equal.  It is their order exactly if they are equal or
rounded to different values; in particular if floating-point numbers stand for
both, as they do up to 2⁵³. -/
theorem integers_compare_rounded {field : String} {d e : Document} {a b : Int}
    {ha : -0x8000000000000000 ≤ a ∧ a < 0x10000000000000000}
    {hb : -0x8000000000000000 ≤ b ∧ b < 0x10000000000000000}
    (hd : d.valueAt field = some (.number (.integer a ha)))
    (he : e.valueAt field = some (.number (.integer b hb))) :
    ∃ order, Compared field d e (.integer a ha) (.integer b hb) order ∧
      (order = compare a b ∨ order = .eq) ∧
      (order = compare a b ↔ a = b ∨ (Binary64.ofInt a).units ≠ (Binary64.ofInt b).units) ∧
      (Binary64.Exact a → Binary64.Exact b → order = compare a b) ∧
      (a.natAbs ≤ 0x20000000000000 → b.natAbs ≤ 0x20000000000000 → order = compare a b) :=
  ⟨_, compared_of_numbers hd he, cmp_ofInt_cases a b, cmp_ofInt_iff a b, cmp_ofInt_of_exact,
    fun ha hb =>
      cmp_ofInt_of_exact (Binary64.exact_of_natAbs_le ha) (Binary64.exact_of_natAbs_le hb)⟩

/-- A document whose attribute is an integer. -/
def holding (n : Int) (h : -0x8000000000000000 ≤ n ∧ n < 0x10000000000000000) : Document :=
  .object [("v", .number (.integer n h))]

theorem valueAt_holding (n : Int) (h : -0x8000000000000000 ≤ n ∧ n < 0x10000000000000000) :
    (holding n h).valueAt "v" = some (.number (.integer n h)) := rfl

/-- At 2⁵³ and its predecessor the order is that of the integers. -/
theorem integers_compare_rounded_exact :
    Compared "v" (holding 0x20000000000000 (by decide)) (holding 0x1FFFFFFFFFFFFF (by decide))
      (.integer 0x20000000000000 (by decide)) (.integer 0x1FFFFFFFFFFFFF (by decide)) .gt := by
  obtain ⟨order, hcompared, -, -, -, hsmall⟩ :=
    integers_compare_rounded (valueAt_holding 0x20000000000000 (by decide))
      (valueAt_holding 0x1FFFFFFFFFFFFF (by decide))
  have hgt : order = .gt := (hsmall (by decide) (by decide)).trans (by decide)
  exact hgt ▸ hcompared

/-- 2⁵³ and its successor are compared as equal. -/
theorem neighbours_compare_equal :
    ¬ ∀ (field : String) (d e : Document) (a b : Int)
      (ha : -0x8000000000000000 ≤ a ∧ a < 0x10000000000000000)
      (hb : -0x8000000000000000 ≤ b ∧ b < 0x10000000000000000),
      d.valueAt field = some (.number (.integer a ha)) →
        e.valueAt field = some (.number (.integer b hb)) →
          Compared field d e (.integer a ha) (.integer b hb) (compare a b) := by
  intro hall
  have hleft := valueAt_holding 0x20000000000001 (by decide)
  have hright := valueAt_holding 0x20000000000000 (by decide)
  have hequal : (Binary64.ofInt 0x20000000000001).cmp (.ofInt 0x20000000000000) = .eq := by
    decide +kernel
  have hmatches := (compared_of_numbers hleft hright).eq.mpr hequal
  exact absurd ((hall _ _ _ _ _ _ _ hleft hright).eq.mp hmatches) (by decide)

end DocQuery
