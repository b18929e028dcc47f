import DocQuery.Proofs.Spelling
import Mathlib.Data.String.Basic

/-!
# Laws of the operators

A comparison asks whether some value passes a test: the attribute itself, or an
item of it if it is an array.  Such a question distributes over alternatives
(`ofAny_or`, `ofAny_any`) and grows with its test (`ofAny_mono`), so a law that
single values obey is obeyed by arrays too, and by undefined attributes, which
meet no comparison (`accepts_or`, `accepts_mono`).  Single values are compared with a
number or a string in one way only (`equals_eq_cmp?`), from which the laws of
single values are read off.

What is stronger than an alternative does not carry over to arrays: the items
of one array may lie on both sides of a bound.  That exactly one of less, equal
and more holds is therefore a law of numbers alone.

* `units_toBinary64_mono` — rounding keeps the order of numbers, so a bound may
  be replaced by one that is less before rounding;
* `operators_lawful` — the laws, for every document and attribute.
-/

namespace DocQuery

/-- A larger number is not rounded to a smaller value. -/
theorem Number.units_toBinary64_mono {m n : Number} (h : m.units ≤ n.units) :
    m.toBinary64.units ≤ n.toBinary64.units := by
  cases m with
  | integer a ha =>
      cases n with
      | integer b hb =>
          have hpos : 0 < (Binary64.unitsInOne : Int) := Int.natCast_pos.mpr Binary64.unitsInOne_pos
          exact Binary64.units_ofInt_mono (Int.le_of_mul_le_mul_right h hpos)
      | float y => exact Binary64.units_ofInt_le h
  | float x =>
      cases n with
      | integer b hb => exact Binary64.le_units_ofInt h
      | float y => exact h

/-! ## Single values -/

namespace Json

/-- Whether a value can bound a range: it is a number or a string. -/
def isOrdered : Json → Bool
  | .number _ | .string _ => true
  | .null | .bool _ | .array _ | .object _ => false

/-- One value is less than another of its kind: of two numbers by what they
stand for before any rounding, of two strings by code point.  A value compared as
less is below the other (`below_of_cmp?`), but rounding may make it equal. -/
inductive Below : Json → Json → Prop where
  | number {m n : Number} (h : m.units < n.units) : Below (.number m) (.number n)
  | string {s t : String} (h : s < t) : Below (.string s) (.string t)

/-- Nothing is compared with a value that is neither a number nor a string. -/
theorem cmp?_eq_none {bound : Json} (h : bound.isOrdered = false) (actual : Json) :
    actual.cmp? bound = none := by
  cases bound with
  | number n | string s => cases h
  | null | bool b | array items | object members => cases actual <;> rfl

/-- To equal a number or a string is to be compared as equal. -/
theorem equals_eq_cmp? {bound : Json} (h : bound.isOrdered = true) (actual : Json) :
    actual.equals bound = (actual.cmp? bound).any (· = .eq) := by
  cases bound with
  | number n =>
      cases actual <;> simp [equals, cmp?, same, Binary64.same, Binary64.cmp, beq_eq_decide]
  | string s => cases actual <;> simp [equals, cmp?, same, beq_eq_decide]
  | null | bool b | array items | object members => cases h

/-- What is compared as less is less: rounding does not turn the order of two
numbers round. -/
theorem below_of_cmp? {v w : Json} (h : v.cmp? w = some .lt) : v.Below w := by
  cases v <;> cases w <;> simp only [cmp?, reduceCtorEq, Option.some.injEq] at h
  · next m n =>
      refine .number (Int.lt_of_not_ge fun hle => ?_)
      have hrounded := Number.units_toBinary64_mono hle
      rw [Binary64.cmp, compare_lt_iff_lt] at h
      omega
  · next s t => exact .string (compare_lt_iff_lt.mp h)

/-- Whatever is more than a value is more than the values below it. -/
theorem Below.cmp?_gt {v w actual : Json} (h : v.Below w) (hgt : actual.cmp? w = some .gt) :
    actual.cmp? v = some .gt := by
  cases h with
  | @number m n h =>
      cases actual <;> simp only [cmp?, reduceCtorEq, Option.some.injEq] at hgt ⊢
      have hrounded := Number.units_toBinary64_mono (Int.le_of_lt h)
      rw [Binary64.cmp, compare_gt_iff_gt] at hgt ⊢
      omega
  | @string s t h =>
      cases actual <;> simp only [cmp?, reduceCtorEq, Option.some.injEq] at hgt ⊢
      rw [compare_gt_iff_gt] at hgt ⊢
      exact String.lt_trans h hgt

/-- Whatever is less than a value is less than the values above it. -/
theorem Below.cmp?_lt {v w actual : Json} (h : v.Below w) (hlt : actual.cmp? v = some .lt) :
    actual.cmp? w = some .lt := by
  cases h with
  | @number m n h =>
      cases actual <;> simp only [cmp?, reduceCtorEq, Option.some.injEq] at hlt ⊢
      have hrounded := Number.units_toBinary64_mono (Int.le_of_lt h)
      rw [Binary64.cmp, compare_lt_iff_lt] at hlt ⊢
      omega
  | @string s t h =>
      cases actual <;> simp only [cmp?, reduceCtorEq, Option.some.injEq] at hlt ⊢
      rw [compare_lt_iff_lt] at hlt ⊢
      exact String.lt_trans hlt h

end Json

/-! ## Values and their items -/

namespace Operation

section Any

variable {test test' : Json → Bool} {actual : Json}

/-- No value passes a test that nothing passes. -/
theorem ofAny_eq_false (h : ∀ v, test v = false) (actual : Json) : ofAny test actual = false := by
  cases actual <;> simp [ofAny, h]

/-- A value that passes a test passes every weaker one. -/
theorem ofAny_mono (h : ∀ v, test v = true → test' v = true) (hany : ofAny test actual = true) :
    ofAny test' actual = true := by
  cases actual with
  | array items =>
      simp only [ofAny, Bool.or_eq_true, List.any_eq_true, Bool.and_eq_true] at hany ⊢
      rcases hany with hwhole | ⟨item, hmem, hnull, hitem⟩
      · exact Or.inl (h _ hwhole)
      · exact Or.inr ⟨item, hmem, hnull, h item hitem⟩
  | null | bool b | number n | string s | object members =>
      simp only [ofAny, Bool.or_false] at hany ⊢
      exact h _ hany

/-- A value passes one of two tests if it passes the first or the second. -/
theorem ofAny_or (test test' : Json → Bool) (actual : Json) :
    ofAny (fun v => test v || test' v) actual = (ofAny test actual || ofAny test' actual) := by
  rw [Bool.eq_iff_iff, Bool.or_eq_true]
  constructor
  · intro h
    cases actual with
    | array items =>
        simp only [ofAny, Bool.or_eq_true, List.any_eq_true, Bool.and_eq_true] at h ⊢
        rcases h with (hwhole | hwhole) | ⟨item, hmem, hnull, hitem | hitem⟩
        · exact Or.inl (Or.inl hwhole)
        · exact Or.inr (Or.inl hwhole)
        · exact Or.inl (Or.inr ⟨item, hmem, hnull, hitem⟩)
        · exact Or.inr (Or.inr ⟨item, hmem, hnull, hitem⟩)
    | null | bool b | number n | string s | object members => simpa [ofAny] using h
  · rintro (h | h)
    · exact ofAny_mono (fun v hv => by simp [hv]) h
    · exact ofAny_mono (fun v hv => by simp [hv]) h

/-- A value passes one of many tests if it passes some of them. -/
theorem ofAny_any {α : Type} (tests : List α) (test : α → Json → Bool) (actual : Json) :
    ofAny (fun v => tests.any fun a => test a v) actual =
      tests.any fun a => ofAny (test a) actual := by
  induction tests with
  | nil => exact ofAny_eq_false (fun _ => rfl) actual
  | cons a rest ih =>
      simp only [List.any_cons]
      rw [ofAny_or, ih]

end Any

/-! ## Comparisons of single values -/

section Holds

variable {v w : Json}

/-- At least as much is more or equal. -/
theorem holdsOf_gte (h : v.isOrdered = true) (actual : Json) :
    holdsOf (.gte v) actual = (holdsOf (.gt v) actual || holdsOf (.eq v) actual) := by
  simp only [holdsOf, Json.equals_eq_cmp? h]
  cases actual.cmp? v with
  | none => rfl
  | some order => cases order <;> rfl

/-- At most as much is less or equal. -/
theorem holdsOf_lte (h : v.isOrdered = true) (actual : Json) :
    holdsOf (.lte v) actual = (holdsOf (.lt v) actual || holdsOf (.eq v) actual) := by
  simp only [holdsOf, Json.equals_eq_cmp? h]
  cases actual.cmp? v with
  | none => rfl
  | some order => cases order <;> rfl

/-- Nothing is more or less than a value that is neither a number nor a string. -/
theorem holdsOf_unordered (h : v.isOrdered = false) {o : Operation}
    (ho : o ∈ [.gt v, .gte v, .lt v, .lte v]) (actual : Json) : o.holdsOf actual = false := by
  simp only [List.mem_cons, List.not_mem_nil, or_false] at ho
  rcases ho with rfl | rfl | rfl | rfl <;> simp [holdsOf, Json.cmp?_eq_none h]

/-- Whatever is more than a value is more than the values below it. -/
theorem holdsOf_gt_of_below (h : v.Below w) (actual : Json)
    (hgt : holdsOf (.gt w) actual = true) : holdsOf (.gt v) actual = true := by
  simp only [holdsOf, Option.any_eq_true, decide_eq_true_eq, exists_eq_right] at hgt ⊢
  exact h.cmp?_gt hgt

/-- Whatever is less than a value is less than the values above it. -/
theorem holdsOf_lt_of_below (h : v.Below w) (actual : Json)
    (hlt : holdsOf (.lt v) actual = true) : holdsOf (.lt w) actual = true := by
  simp only [holdsOf, Option.any_eq_true, decide_eq_true_eq, exists_eq_right] at hlt ⊢
  exact h.cmp?_lt hlt

end Holds

/-! ## Comparisons of attributes -/

/-- Whether an operation is a comparison of values, so that nothing undefined meets it. -/
def comparesValues : Operation → Bool
  | .eq _ | .among _ | .gte _ | .gt _ | .lte _ | .lt _ => true
  | .ne _ | .defined _ => false

section Accepts

variable {o o₁ o₂ : Operation} {v w : Json}

/-- An attribute meets a comparison if it is defined and its value, or an item of
it, does. -/
theorem accepts_eq_any (ho : o.comparesValues = true) (found : Option Json) :
    o.accepts found = found.any (ofAny o.holdsOf) := by
  cases o with
  | ne unwanted | defined required => cases ho
  | eq _ | among _ | gte _ | gt _ | lte _ | lt _ => cases found <;> rfl

/-- A comparison that no value meets is met by no attribute. -/
theorem accepts_eq_false (ho : o.comparesValues = true)
    (h : ∀ actual, o.holdsOf actual = false) (found : Option Json) : o.accepts found = false := by
  rw [accepts_eq_any ho]
  cases found with
  | none => rfl
  | some actual => exact ofAny_eq_false h actual

/-- What meets a comparison meets every weaker one. -/
theorem accepts_mono {found : Option Json} (h₁ : o₁.comparesValues = true)
    (h₂ : o₂.comparesValues = true)
    (h : ∀ actual, o₁.holdsOf actual = true → o₂.holdsOf actual = true)
    (hmet : o₁.accepts found = true) : o₂.accepts found = true := by
  rw [accepts_eq_any h₁] at hmet
  rw [accepts_eq_any h₂]
  cases found with
  | none => cases hmet
  | some actual => exact ofAny_mono h hmet

/-- A comparison that is one of two others for values is so for attributes. -/
theorem accepts_or (ho : o.comparesValues = true) (h₁ : o₁.comparesValues = true)
    (h₂ : o₂.comparesValues = true)
    (h : ∀ actual, o.holdsOf actual = (o₁.holdsOf actual || o₂.holdsOf actual))
    (found : Option Json) : o.accepts found = (o₁.accepts found || o₂.accepts found) := by
  rw [accepts_eq_any ho, accepts_eq_any h₁, accepts_eq_any h₂]
  cases found with
  | none => rfl
  | some actual =>
      rw [funext h]
      exact ofAny_or o₁.holdsOf o₂.holdsOf actual

theorem accepts_ne (v : Json) (found : Option Json) :
    accepts (.ne v) found = !accepts (.eq v) found := by
  cases found <;> rfl

theorem accepts_among (vs : List Json) (found : Option Json) :
    accepts (.among vs) found = vs.any fun v => accepts (.eq v) found := by
  cases found with
  | none => simp [accepts]
  | some actual => exact ofAny_any vs (fun v actual => actual.equals v) actual

theorem accepts_unordered (h : v.isOrdered = false) (ho : o ∈ [.gt v, .gte v, .lt v, .lte v])
    (found : Option Json) : o.accepts found = false := by
  have hcompares : o.comparesValues = true := by
    simp only [List.mem_cons, List.not_mem_nil, or_false] at ho
    rcases ho with rfl | rfl | rfl | rfl <;> rfl
  exact accepts_eq_false hcompares (holdsOf_unordered h ho) found

theorem isSome_of_accepts {found : Option Json} (ho : o.impliesDefined = true)
    (h : o.accepts found = true) : found.isSome = true := by
  cases found with
  | some actual => rfl
  | none => cases o <;> simp_all [accepts, impliesDefined]

/-- A number is less than another, equal to it or more than it, and only one of these. -/
theorem countP_accepts_number (m n : Number) :
    [Operation.lt (.number n), .eq (.number n), .gt (.number n)].countP
      (accepts · (some (.number m))) = 1 := by
  have hcmp : (Json.number m).cmp? (.number n) = some (m.toBinary64.cmp n.toBinary64) := rfl
  simp only [List.countP_cons, List.countP_nil, accepts, ofAny, holdsOf,
    Json.equals_eq_cmp? (show (Json.number n).isOrdered = true from rfl), hcmp]
  cases m.toBinary64.cmp n.toBinary64 <;> rfl

end Accepts

end Operation

/-! ## The laws -/

/-- The laws that the operations obey on one attribute of a document. -/
structure OperatorLaws (d : Document) (field : String) : Prop where
  ne : ∀ v, Predicate.accepts ⟨field, .ne v⟩ d = !Predicate.accepts ⟨field, .eq v⟩ d
  among : ∀ vs, Predicate.accepts ⟨field, .among vs⟩ d =
    vs.any fun v => Predicate.accepts ⟨field, .eq v⟩ d
  absent : Predicate.accepts ⟨field, .defined false⟩ d =
    !Predicate.accepts ⟨field, .defined true⟩ d
  gte : ∀ v : Json, v.isOrdered = true → Predicate.accepts ⟨field, .gte v⟩ d =
    (Predicate.accepts ⟨field, .gt v⟩ d || Predicate.accepts ⟨field, .eq v⟩ d)
  lte : ∀ v : Json, v.isOrdered = true → Predicate.accepts ⟨field, .lte v⟩ d =
    (Predicate.accepts ⟨field, .lt v⟩ d || Predicate.accepts ⟨field, .eq v⟩ d)
  unordered : ∀ v : Json, v.isOrdered = false →
    ∀ o ∈ [Operation.gt v, .gte v, .lt v, .lte v], Predicate.accepts ⟨field, o⟩ d = false
  defined : ∀ o : Operation, o.impliesDefined = true → Predicate.accepts ⟨field, o⟩ d = true →
    ∃ value, d.valueAt field = some value
  gt_of_below : ∀ v w : Json, v.Below w → Predicate.accepts ⟨field, .gt w⟩ d = true →
    Predicate.accepts ⟨field, .gt v⟩ d = true
  lt_of_below : ∀ v w : Json, v.Below w → Predicate.accepts ⟨field, .lt v⟩ d = true →
    Predicate.accepts ⟨field, .lt w⟩ d = true
  trichotomy : ∀ m n : Number, d.valueAt field = some (.number m) →
    [Operation.lt (.number n), .eq (.number n), .gt (.number n)].countP
      (fun o => Predicate.accepts ⟨field, o⟩ d) = 1

/-- **The operators are lawful** on every attribute of every document, whether it
is undefined, a scalar, an array or an object. -/
theorem operators_lawful (d : Document) (field : String) : OperatorLaws d field where
  ne v := Operation.accepts_ne v _
  among vs := Operation.accepts_among vs _
  absent := by
    simp only [Predicate.accepts, Operation.accepts]
    cases d.valueAt field <;> rfl
  gte _ h := Operation.accepts_or rfl rfl rfl (Operation.holdsOf_gte h) _
  lte _ h := Operation.accepts_or rfl rfl rfl (Operation.holdsOf_lte h) _
  unordered _ h _ ho := Operation.accepts_unordered h ho _
  defined _ ho h := Option.isSome_iff_exists.mp (Operation.isSome_of_accepts ho h)
  gt_of_below _ _ h := Operation.accepts_mono rfl rfl (Operation.holdsOf_gt_of_below h)
  lt_of_below _ _ h := Operation.accepts_mono rfl rfl (Operation.holdsOf_lt_of_below h)
  trichotomy m n h := by
    simp only [Predicate.accepts, h]
    exact Operation.countP_accepts_number m n

/-- The items of an array lie on both sides of a bound that is none of them. -/
example :
    [Operation.lt (.string "b"), .eq (.string "b"), .gt (.string "b")].map
      (·.accepts (some (.array [.string "a", .string "c"]))) = [true, false, true] := by
  decide

end DocQuery
