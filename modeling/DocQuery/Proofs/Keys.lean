import DocQuery.Filter.Match
import DocQuery.Index.Catalog
import DocQuery.Proofs.NumberKeys

/-!
# Keys and comparisons

An index finds documents by keys, a filter by comparing values.  The two
agree: a value that meets an operation has a key between the bounds of the
walk which the operation drives.  Only mere existence asks nothing of keys,
and a value without keys, such as an empty array, exists all the same.

* `ofJson?_of_equals`, `ofJson?_of_cmp?` — comparisons of scalars are those
  of their keys;
* `Driver.exists_key` — a walk reaches every value that meets its operation.
-/

namespace DocQuery

namespace SortedMap

variable {κ α : Type} [LT κ] [DecidableEq κ] [LinearKey κ]

/-- The keys of a map are those that are bound. -/
theorem mem_keys {m : SortedMap κ α} {key : κ} : key ∈ m.keys ↔ m.contains key = true := by
  simp [keys, contains, Option.isSome_iff_exists, mem_iff_get?]

/-- The keys of a map of bindings are the keys bound. -/
theorem mem_keys_ofList [DecidableLT κ] {bindings : List (κ × α)} {key : κ} :
    key ∈ (ofList bindings).keys ↔ key ∈ bindings.map Prod.fst := by
  have hfold : ∀ m : SortedMap κ α,
      (bindings.foldl (fun m e => m.insert e.1 e.2) m).contains key = true ↔
        m.contains key = true ∨ key ∈ bindings.map Prod.fst := by
    induction bindings with
    | nil => simp
    | cons e rest ih =>
        intro m
        rw [List.foldl_cons, ih, List.map_cons, List.mem_cons, ← or_assoc]
        have hinsert : (m.insert e.1 e.2).contains key = true ↔
            m.contains key = true ∨ key = e.1 := by
          simp only [contains, get?_insert]
          split <;> simp [*]
        rw [hinsert]
  rw [mem_keys, ofList, hfold]
  simp [contains]

omit [DecidableEq κ] in
/-- A map of bindings binds nothing else. -/
theorem mem_ofList [DecidableLT κ] {bindings : List (κ × α)} {e : κ × α}
    (h : e ∈ (ofList bindings).toList) : e ∈ bindings := by
  have hfold : ∀ (bindings : List (κ × α)) (m : SortedMap κ α),
      e ∈ (bindings.foldl (fun m e => m.insert e.1 e.2) m).toList →
        e ∈ m.toList ∨ e ∈ bindings := by
    intro bindings
    induction bindings with
    | nil => exact fun m hmem => Or.inl hmem
    | cons first rest ih =>
        intro m hmem
        rcases ih (m.insert first.1 first.2) hmem with hinsert | hrest
        · rcases mem_insertInto hinsert with heq | hmem
          · exact Or.inr (heq ▸ List.mem_cons_self)
          · exact Or.inl hmem
        · exact Or.inr (List.mem_cons_of_mem _ hrest)
  exact (hfold bindings .empty h).resolve_left List.not_mem_nil

/-- Maps in which all keys look up alike are equal. -/
theorem ext_get? {m m' : SortedMap κ α} (h : ∀ key, m.get? key = m'.get? key) : m = m' := by
  have hnodup : ∀ m : SortedMap κ α, m.toList.Nodup := fun m =>
    m.sorted.imp fun hlt heq => ne_of_lt hlt (congrArg Prod.fst heq)
  have hmem : ∀ e : κ × α, e ∈ m.toList ↔ e ∈ m'.toList := by
    intro e
    rw [mem_iff_get?, mem_iff_get?, h]
  apply SortedMap.ext
  apply ((List.perm_ext_iff_of_nodup (hnodup m) (hnodup m')).mpr hmem).eq_of_pairwise _ m.sorted
    m'.sorted
  intro a b _ _ hab hba
  exact absurd (LinearKey.trans hab hba) (LinearKey.irrefl _)

end SortedMap

namespace IndexKey

/-- Whatever equals a scalar has its key. -/
theorem ofJson?_of_equals {actual value : Json} {k : IndexKey} (hk : ofJson? value = some k)
    (h : actual.equals value = true) : ofJson? actual = some k := by
  cases value <;> simp only [ofJson?, reduceCtorEq] at hk <;> cases actual <;>
    simp_all [Json.equals, Json.same, ofJson?, Binary64.same]
  exact Binary64.orderPattern_eq h ▸ hk

/-- A value that compares with a bound has a key that compares likewise. -/
theorem ofJson?_of_cmp? {actual bound : Json} {k : IndexKey} {order : Ordering}
    (hk : ofJson? bound = some k) (h : actual.cmp? bound = some order) :
    ∃ k', ofJson? actual = some k' ∧ (order = .lt → k' < k) ∧ (order = .eq → k' = k) ∧
      (order = .gt → k < k') := by
  cases bound with
  | number b =>
      cases actual with
      | number a =>
          simp only [Json.cmp?, Option.some.injEq, Binary64.cmp] at h
          simp only [ofJson?, Option.some.injEq] at hk
          subst hk h
          refine ⟨_, rfl, ?_, ?_, ?_⟩
          · intro hlt
            exact Binary64.orderPattern_lt (Int.compare_eq_lt.mp hlt)
          · intro heq
            exact congrArg number (Binary64.orderPattern_eq (Int.compare_eq_eq.mp heq))
          · intro hgt
            exact Binary64.orderPattern_lt (Int.compare_eq_gt.mp hgt)
      | _ => simp [Json.cmp?] at h
  | string b =>
      cases actual with
      | string a =>
          simp only [Json.cmp?, Option.some.injEq] at h
          simp only [ofJson?, Option.some.injEq] at hk
          subst hk h
          have hcompare : compare a b = if a < b then .lt else if a = b then .eq else .gt := rfl
          refine ⟨_, rfl, ?_⟩
          rcases Std.lt_trichotomy a b with hlt | rfl | hgt
          · simp only [hcompare, hlt, if_true, forall_const, reduceCtorEq, false_implies, and_true]
            exact hlt
          · simp
          · have hnot : ¬ a < b := fun hlt => String.lt_irrefl a (String.lt_trans hlt hgt)
            have hne : a ≠ b := fun heq => String.lt_irrefl b (heq ▸ hgt)
            simp only [hcompare, hnot, hne, if_false, forall_const, reduceCtorEq, false_implies,
              true_and]
            exact hgt
      | _ => simp [Json.cmp?] at h
  | _ => cases actual <;> simp [Json.cmp?] at h

/-- A value that is not an array is filed under its own key. -/
theorem mem_keysOf_self {value : Json} {k : IndexKey} (h : ofJson? value = some k) :
    k ∈ keysOf value := by
  cases value <;> simp_all [keysOf, ofJson?]

/-- An array is filed under the keys of its items. -/
theorem mem_keysOf_array {items : List Json} {k : IndexKey} :
    k ∈ keysOf (.array items) ↔ ∃ item ∈ items, ofJson? item = some k := by
  simp [keysOf, SortedMap.mem_keys_ofList]

end IndexKey

namespace Driver

/-- Whether a walk with the driver visits a key. -/
def visits (d : Driver) (k : IndexKey) : Bool := d.lower.admitsAbove k && d.upper.admitsBelow k

/-- A scalar that meets an operation has a key which the walk visits. -/
theorem visits_of_holdsOf {operation : Operation} {d : Driver} {actual : Json}
    (hd : ofOperation? operation = some d) (h : operation.holdsOf actual = true) :
    ∃ k, IndexKey.ofJson? actual = some k ∧ d.visits k = true := by
  have hkey : ∀ {k : IndexKey}, ¬ k < k := LinearKey.irrefl _
  cases operation with
  | eq value =>
      obtain ⟨k, hk, rfl⟩ := Option.map_eq_some_iff.mp hd
      exact ⟨k, IndexKey.ofJson?_of_equals hk h, by simp [visits, lower, upper,
        Bound.admitsAbove, Bound.admitsBelow, hkey]⟩
  | gt bound | gte bound | lt bound | lte bound =>
      obtain ⟨k, hk, rfl⟩ := Option.map_eq_some_iff.mp hd
      simp only [Operation.holdsOf, Option.any_eq_true] at h
      obtain ⟨order, horder, hholds⟩ := h
      obtain ⟨k', hk', hlt, heq, hgt⟩ := IndexKey.ofJson?_of_cmp? hk horder
      refine ⟨k', hk', ?_⟩
      have hflip : k < k' → ¬ k' < k := fun h h' => hkey (LinearKey.trans h h')
      have hflip' : k' < k → ¬ k < k' := fun h h' => hkey (LinearKey.trans h h')
      cases order <;> simp_all [visits, lower, upper, Bound.admitsAbove, Bound.admitsBelow]
  | ne value | among values => simp [ofOperation?] at hd
  | defined required => simp [Operation.holdsOf] at h

/-- A walk reaches every value that meets the operation which drives it, as
long as mere existence is asked of values that have keys. -/
theorem exists_key {operation : Operation} {d : Driver} {value : Json}
    (hd : ofOperation? operation = some d) (h : operation.accepts (some value) = true)
    (hkeyed : d = .every → IndexKey.keysOf value ≠ []) :
    ∃ k ∈ IndexKey.keysOf value, d.visits k = true := by
  by_cases hevery : d = .every
  · obtain ⟨k, hk⟩ := List.exists_mem_of_ne_nil _ (hkeyed hevery)
    exact ⟨k, hk, by simp [hevery, visits, lower, upper, Bound.admitsAbove, Bound.admitsBelow]⟩
  · have hany : Operation.ofAny operation.holdsOf value = true := by
      cases operation with
      | defined required => cases required <;> simp_all [ofOperation?]
      | ne | among => simp [ofOperation?] at hd
      | eq | gt | gte | lt | lte => exact h
    simp only [Operation.ofAny, Bool.or_eq_true] at hany
    rcases hany with hself | hitem
    · obtain ⟨k, hk, hvisits⟩ := visits_of_holdsOf hd hself
      exact ⟨k, IndexKey.mem_keysOf_self hk, hvisits⟩
    · cases value with
      | array items =>
          simp only [List.any_eq_true, Bool.and_eq_true] at hitem
          obtain ⟨item, hmem, _, hholds⟩ := hitem
          obtain ⟨k, hk, hvisits⟩ := visits_of_holdsOf hd hholds
          exact ⟨k, IndexKey.mem_keysOf_array.mpr ⟨item, hmem, hk⟩, hvisits⟩
      | _ => simp at hitem

end Driver

end DocQuery
