import DocQuery.Proofs.Answers
import DocQuery.Proofs.Updates

/-!
# What a catalog serves

A catalog serves a request whenever some predicate admits a drive, and else
declines (`ask_eq_none_iff`).  The first of the most preferred drives decides
which postings are walked (`exists_chosen`).  An answer without a limit refers
to exactly the keys on this walk of the documents that match the filter, in
the order of the walk, and a document that matches is left out only if mere
existence drives the walk and the document has no key (`walked_accepted`).
Together this describes all answers of a catalog that has followed updates
(`catalog_serves`).
-/

namespace DocQuery

/-! ## The choice of a drive -/

namespace Drive

/-- Drives are compared by rank, and those of one rank by field. -/
theorem isBetter_iff {a b : Drive} :
    a.isBetter b = true ↔
      a.driver.rank < b.driver.rank ∨ a.driver.rank = b.driver.rank ∧ a.field < b.field := by
  simp [isBetter]

/-- Of two drives only one can be better. -/
theorem isBetter_asymm {a b : Drive} (h : a.isBetter b = true) : b.isBetter a = false := by
  rw [Bool.eq_false_iff]
  intro h'
  rw [isBetter_iff] at h h'
  rcases h with hrank | ⟨hrank, hfield⟩
  · omega
  · rcases h' with hrank' | ⟨_, hfield'⟩
    · omega
    · exact String.lt_irrefl _ (String.lt_trans hfield hfield')

/-- What is better than a drive is better than all that are not. -/
theorem isBetter_of_not {a b c : Drive} (h : a.isBetter b = true) (hc : c.isBetter b = false) :
    a.isBetter c = true := by
  rw [Bool.eq_false_iff, ne_eq, isBetter_iff, not_or, not_and] at hc
  rw [isBetter_iff] at h ⊢
  obtain ⟨hrank, hfield⟩ := hc
  rcases Nat.lt_or_ge a.driver.rank c.driver.rank with hlt | hge
  · exact Or.inl hlt
  · -- then all three are of one rank, and the fields decide
    have hab : a.driver.rank = b.driver.rank ∧ a.field < b.field := by
      rcases h with hlt | hab
      · omega
      · exact hab
    have hcb : ¬ c.field < b.field := hfield (by omega)
    refine Or.inr ⟨by omega, ?_⟩
    rcases Std.lt_trichotomy b.field c.field with hlt | heq | hgt
    · exact String.lt_trans hab.2 hlt
    · exact heq ▸ hab.2
    · exact absurd hgt hcb

/-- The most preferred drive of a longer list. -/
theorem best?_append_singleton (drives : List Drive) (e : Drive) :
    best? (drives ++ [e]) =
      some ((best? drives).elim e fun d => if e.isBetter d then e else d) := by
  cases drives with
  | nil => rfl
  | cons first rest => simp [best?, List.foldl_append]

/-- **The first of the most preferred drives is chosen**: it is better than
those before it, and none after it is better. -/
theorem exists_chosen {drives : List Drive} {d : Drive} (h : best? drives = some d) :
    ∃ before after, drives = before ++ d :: after ∧ (∀ e ∈ before, d.isBetter e = true) ∧
      ∀ e ∈ after, e.isBetter d = false := by
  induction drives using List.reverseRecOn generalizing d with
  | nil => cases h
  | append_singleton drives e ih =>
      rw [best?_append_singleton, Option.some.injEq] at h
      cases hbest : best? drives with
      | none =>
          have hnil : drives = [] := by
            cases drives with
            | nil => rfl
            | cons => cases hbest
          subst hnil
          rw [hbest, Option.elim_none] at h
          exact ⟨[], [], by simp [h]⟩
      | some b =>
          obtain ⟨before, after, rfl, hbefore, hafter⟩ := ih hbest
          rw [hbest, Option.elim_some] at h
          cases he : e.isBetter b with
          | true =>
              rw [he, if_pos rfl] at h
              subst h
              refine ⟨before ++ b :: after, [], rfl, ?_, by simp⟩
              intro x hx
              rcases List.mem_append.mp hx with hx | hx
              · exact isBetter_of_not he (isBetter_asymm (hbefore x hx))
              · rcases List.mem_cons.mp hx with rfl | hx
                · exact he
                · exact isBetter_of_not he (hafter x hx)
          | false =>
              rw [he, if_neg Bool.false_ne_true] at h
              subst h
              refine ⟨before, after ++ [e], by simp, hbefore, ?_⟩
              intro x hx
              rcases List.mem_append.mp hx with hx | hx
              · exact hafter x hx
              · exact List.mem_singleton.mp hx ▸ he

end Drive

namespace Catalog

/-- A predicate admits a drive of its field: the field is indexed, the
operation can drive a walk, and an order that is asked for is that of the
field, which is certainly defined. -/
structure Admits (fields : List String) (orderBy : Option String) (p : Predicate) (d : Drive) :
    Prop where
  field : d.field = p.field
  indexed : p.field ∈ fields
  driver : Driver.ofOperation? p.operation = some d.driver
  ordered : ∀ field, orderBy = some field →
    p.field = field ∧ p.operation.impliesDefined = true

/-- The drive of a predicate is the one it admits, if any. -/
theorem drives_eq {c : Catalog} {fields : List String} {r : Request}
    (hc : ∀ field, c.fields.contains field = true ↔ field ∈ fields) :
    ∃ drive? : Predicate → Option Drive, c.drives r = r.filter.predicates.filterMap drive? ∧
      ∀ p d, drive? p = some d ↔ Admits fields r.orderBy p d := by
  refine ⟨_, rfl, ?_⟩
  intro p d
  constructor
  · intro hdrive
    split at hdrive
    · next hadmits =>
        obtain ⟨hcontains, horder⟩ := Bool.and_eq_true_iff.mp hadmits
        obtain ⟨driver, hdriver, rfl⟩ := Option.map_eq_some_iff.mp hdrive
        refine ⟨rfl, (hc p.field).mp hcontains, hdriver, ?_⟩
        intro field hfield
        simpa [hfield] using horder
    · cases hdrive
  · intro hadmits
    obtain ⟨hfield, hindexed, hdriver, hordered⟩ := hadmits
    have horder : (r.orderBy.all fun field =>
        p.field == field && p.operation.impliesDefined) = true := by
      cases horderBy : r.orderBy with
      | none => rfl
      | some field => simpa using hordered field horderBy
    rw [if_pos (by simp [(hc p.field).mpr hindexed, horder]), hdriver, Option.map_some, ← hfield]

/-- A catalog declines exactly the requests no predicate of which admits a drive. -/
theorem ask_eq_none_iff {c : Catalog} {fields : List String} {r : Request}
    (hc : ∀ field, c.fields.contains field = true ↔ field ∈ fields) :
    c.ask r = none ↔ ∀ p ∈ r.filter.predicates, ∀ d, ¬ Admits fields r.orderBy p d := by
  obtain ⟨drive?, hdrives, hadmits⟩ := drives_eq (r := r) hc
  have hbest : Drive.best? (c.drives r) = none ↔ c.drives r = [] := by
    cases c.drives r <;> simp [Drive.best?]
  rw [ask, Option.map_eq_none_iff, hbest, hdrives, List.filterMap_eq_nil_iff]
  simp only [Option.eq_none_iff_forall_ne_some, ne_eq, hadmits]

/-- The chosen drive is that of the first predicate which admits one of the
most preferred drives. -/
theorem exists_admits {c : Catalog} {fields : List String} {r : Request} {d : Drive}
    (hc : ∀ field, c.fields.contains field = true ↔ field ∈ fields)
    (hd : Drive.best? (c.drives r) = some d) :
    ∃ before p after, r.filter.predicates = before ++ p :: after ∧ Admits fields r.orderBy p d ∧
      (∀ q ∈ before, ∀ e, Admits fields r.orderBy q e → d.isBetter e = true) ∧
      ∀ q ∈ after, ∀ e, Admits fields r.orderBy q e → e.isBetter d = false := by
  obtain ⟨drive?, hdrives, hadmits⟩ := drives_eq (r := r) hc
  obtain ⟨better, others, hchosen, hbetter, hothers⟩ := Drive.exists_chosen hd
  rw [hdrives, List.filterMap_eq_append_iff] at hchosen
  obtain ⟨front, back, hpredicates, hfront, hback⟩ := hchosen
  obtain ⟨skipped, p, after, rfl, hskipped, hp, hafter⟩ := List.filterMap_eq_cons_iff.mp hback
  refine ⟨front ++ skipped, p, after, by simp [hpredicates], (hadmits p d).mp hp, ?_, ?_⟩
  · intro q hq e he
    have hdrive := (hadmits q e).mpr he
    rcases List.mem_append.mp hq with hq | hq
    · exact hbetter e (hfront ▸ List.mem_filterMap.mpr ⟨q, hq, hdrive⟩)
    · rw [hskipped q hq] at hdrive
      cases hdrive
  · intro q hq e he
    exact hothers e (hafter ▸ List.mem_filterMap.mpr ⟨q, hq, (hadmits q e).mpr he⟩)

/-! ## The pairs referred to -/

/-- The pairs of key and id that a drive refers to for a request without a
limit: the keys on its walk of the documents that match, each once, in the
order of the walk.  Every document that matches is among them, except those
without keys when mere existence drives the walk. -/
structure Walked (c : Catalog) (r : Request) (d : Drive) (pairs : List (IndexKey × String)) :
    Prop where
  mem : ∀ key id, (key, id) ∈ pairs ↔ ∃ document value, c.bodies.get? id = some document ∧
    r.filter.accepts document = true ∧ document.valueAt d.field = some value ∧
    key ∈ IndexKey.keysOf value ∧ d.driver.visits key = true
  once : pairs.Nodup
  ordered : pairs.Pairwise (Postings.WalkedBefore r.reverse)
  complete : ∀ id document, c.bodies.get? id = some document → r.filter.accepts document = true →
    (d.driver = .every →
      ∃ value, document.valueAt d.field = some value ∧ IndexKey.keysOf value ≠ []) →
    ∃ key, (key, id) ∈ pairs

/-- The accepted pairs of a walk are those to be referred to. -/
theorem walked_accepted {c : Catalog} {fields : List String} {filed : String → Option Document}
    {r : Request} {d : Drive} {postings : Postings} (hc : c.Canonical fields filed)
    (hd : Drive.best? (c.drives r) = some d)
    (hpostings : c.fields.get? d.field = some postings) :
    c.Walked r d (c.accepted d postings r) := by
  have hmem : ∀ key id, (key, id) ∈ c.accepted d postings r ↔
      ∃ document, c.bodies.get? id = some document ∧ r.filter.accepts document = true ∧
        key ∈ keysIn d.field document ∧ d.driver.visits key = true := by
    intro key id
    simp only [mem_accepted hc.mirrors hpostings, SortedMap.mem_iff_get?]
  have hordered : (c.accepted d postings r).Pairwise (Postings.WalkedBefore r.reverse) :=
    (postings.pairwise_walk _ _ _).filter _
  refine ⟨?_, ?_, hordered, ?_⟩
  · intro key id
    rw [hmem]
    constructor
    · intro hpair
      obtain ⟨document, hbody, haccepts, hkey, hvisits⟩ := hpair
      obtain ⟨value, hvalue, hkey⟩ := mem_keysIn.mp hkey
      exact ⟨document, value, hbody, haccepts, hvalue, hkey, hvisits⟩
    · intro hpair
      obtain ⟨document, value, hbody, haccepts, hvalue, hkey, hvisits⟩ := hpair
      exact ⟨document, hbody, haccepts, mem_keysIn.mpr ⟨value, hvalue, hkey⟩, hvisits⟩
  · refine hordered.imp ?_
    rintro pair _ hbefore rfl
    exact Postings.not_walkedBefore_self _ pair hbefore
  · intro id document hbody haccepts hkeyed
    have hkept : c.misses r document = false := by
      rw [misses, hd, Option.any_some, Bool.and_eq_false_iff]
      by_cases hevery : d.driver = .every
      · obtain ⟨value, hvalue, hkeys⟩ := hkeyed hevery
        exact Or.inr (by simpa [keysIn, hvalue] using hkeys)
      · exact Or.inl (by simpa using hevery)
    obtain ⟨key, hkey, hvisits⟩ := (reached_iff hd haccepts).mpr hkept
    exact ⟨key, (hmem key id).mpr ⟨document, hbody, haccepts, hkey, hvisits⟩⟩

/-- **What a catalog serves.**  A catalog that has followed updates declines
the requests without a limit no predicate of which admits a drive.  All others
it answers by references to the pairs that the first of the most preferred
drives asks for, each of three segments: the field, the key and the id. -/
theorem catalog_serves (fields : List String) (updates : List Update) (filter : Filter)
    (reverse : Bool) (orderBy : Option String) :
    (((ofFields fields).followed updates).ask ⟨filter, none, reverse, orderBy⟩ = none ↔
      ∀ p ∈ filter.predicates, ∀ d, ¬ Admits fields orderBy p d) ∧
    ∀ answer, ((ofFields fields).followed updates).ask ⟨filter, none, reverse, orderBy⟩ =
        some answer →
      ∃ before p after d pairs, filter.predicates = before ++ p :: after ∧
        Admits fields orderBy p d ∧
        (∀ q ∈ before, ∀ e, Admits fields orderBy q e → d.isBetter e = true) ∧
        (∀ q ∈ after, ∀ e, Admits fields orderBy q e → e.isBetter d = false) ∧
        (∀ field, orderBy = some field → d.field = field) ∧
        answer = ⟨pairs.map fun e => .ok ⟨[d.field, e.1.encode, e.2]⟩, false⟩ ∧
        ((ofFields fields).followed updates).Walked ⟨filter, none, reverse, orderBy⟩ d pairs := by
  have hcanonical := canonical_followed fields updates
  refine ⟨ask_eq_none_iff hcanonical.indexed, ?_⟩
  intro answer hask
  obtain ⟨d, hd, rfl⟩ := Option.map_eq_some_iff.mp hask
  obtain ⟨hcontains, hordered, _⟩ := mem_drives (Drive.best?_mem hd)
  obtain ⟨postings, hpostings⟩ := Option.isSome_iff_exists.mp hcontains
  obtain ⟨before, p, after, hsplit, hadmits, hbefore, hafter⟩ :=
    exists_admits hcanonical.indexed hd
  refine ⟨before, p, after, d, _, hsplit, hadmits, hbefore, hafter, hordered, ?_,
    walked_accepted hcanonical hd hpostings⟩
  simp only [referred, hpostings, refer_unlimited, Option.isSome_none, accepted]

end Catalog

end DocQuery
