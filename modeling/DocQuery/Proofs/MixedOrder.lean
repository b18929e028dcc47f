import DocQuery.Proofs.SortLimit

/-!
# The order of mixed attributes

A sort puts numbers first, then other attributes, and documents without the
attribute last.  Keys go otherwise: booleans come before numbers, strings after
them, and an array is filed under the keys of its items.  A satisfied probe
hands out documents in the order of their keys (`satisfied_inKeyOrder`), which
is that of the sort exactly if no document with a number comes after one
without (`InKeyOrder.sorted_iff`).  On all other routes the sort itself
arranges the documents (`sorted_or_inKeyOrder`).
-/

namespace DocQuery

/-- Leaving repetitions out keeps the order. -/
theorem eraseDups_sublist {α : Type} [BEq α] [LawfulBEq α] (l : List α) :
    l.eraseDups.Sublist l := by
  have hfilter : ∀ (l : List α) (p : α → Bool), (l.filter p).eraseDups.Sublist (l.filter p) := by
    intro l
    induction l with
    | nil => simp
    | cons a rest ih =>
        intro p
        cases hp : p a with
        | false => simpa [List.filter_cons, hp] using ih p
        | true =>
            rw [List.filter_cons_of_pos hp, List.eraseDups_cons, List.filter_filter]
            refine ((ih _).trans ?_).cons_cons a
            exact List.monotone_filter_right rest fun b hb => (Bool.and_eq_true_iff.mp hb).2
  simpa using hfilter l fun _ => true

namespace Rank

/-- Nothing but numbers may come before a number. -/
theorem isNumber_of_cmp_ne_gt {direction : Direction} {a b : Rank} (h : cmp direction a b ≠ .gt)
    (hb : b.isNumber = true) : a.isNumber = true := by
  obtain ⟨x, rfl⟩ := isNumber_iff.mp hb
  cases a <;> simp_all [cmp_ne_gt_iff, place, isNumber]

/-- Where numbers come first and in order, all that is defined is in order. -/
theorem cmp_ne_gt_of_isNumber {direction : Direction} {a b : Rank} (ha : a ≠ .undefined)
    (hfirst : b.isNumber = true → a.isNumber = true)
    (hnumbers : a.isNumber = true → b.isNumber = true → cmp direction a b ≠ .gt) :
    cmp direction a b ≠ .gt := by
  cases a with
  | undefined => exact absurd rfl ha
  | number x =>
      cases b with
      | number y => exact hnumbers rfl rfl
      | other | undefined => simp [cmp_ne_gt_iff, place]
  | other =>
      cases b with
      | number y => exact absurd (hfirst rfl) (by simp [isNumber])
      | other | undefined => simp [cmp_ne_gt_iff, place, level]

end Rank

/-- Documents in the order of their keys: so many pairs of a walk through the
field of a sort, each of a matching document and one of its keys, name them in
this order. -/
def InKeyOrder (s : Store) (filter : Filter) (sort : SortBy) (limit : Nat)
    (found : List Document) : Prop :=
  ∃ (pairs : List (IndexKey × String)) (chosen : List (String × Document)),
    pairs.length = limit ∧
    pairs.Pairwise (Postings.WalkedBefore sort.isReverse) ∧
    (∀ pair ∈ pairs, ∃ document, (pair.2, document) ∈ s.matching filter ∧
      pair.1 ∈ Catalog.keysIn sort.field document) ∧
    (∀ e ∈ chosen, e ∈ s.matching filter) ∧
    chosen.map Prod.fst = (pairs.map Prod.snd).eraseDups ∧ found = chosen.map Prod.snd

section InKeyOrder

variable {s : Store} {filter : Filter} {sort : SortBy} {limit : Nat} {found : List Document}

/-- No id has two matching documents. -/
theorem matching_unique {id : String} {a b : Document} (ha : (id, a) ∈ s.matching filter)
    (hb : (id, b) ∈ s.matching filter) : a = b := by
  exact Option.some.inj ((Store.get?_of_mem_matching ha).symm.trans (Store.get?_of_mem_matching hb))

/-- Documents in the order of their keys have the attribute. -/
theorem InKeyOrder.defined (h : InKeyOrder s filter sort limit found) :
    ∀ document ∈ found, Rank.of sort.field document ≠ .undefined := by
  obtain ⟨pairs, chosen, _, _, hpairs, hchosen, hmap, rfl⟩ := h
  intro document hdocument
  obtain ⟨e, he, rfl⟩ := List.mem_map.mp hdocument
  have hid : e.1 ∈ pairs.map Prod.snd := by
    rw [← List.mem_eraseDups, ← hmap]
    exact List.mem_map_of_mem he
  obtain ⟨⟨key, _⟩, hpair, rfl⟩ := List.mem_map.mp hid
  obtain ⟨named, hmatching, hkey⟩ := hpairs _ hpair
  obtain ⟨value, hvalue, _⟩ := Catalog.mem_keysIn.mp hkey
  rw [ne_eq, Rank.of_eq_undefined_iff, ← matching_unique hmatching (hchosen e he), hvalue]
  exact Option.some_ne_none value

/-- Of documents in the order of their keys those with numbers are in the order
of the sort. -/
theorem InKeyOrder.numbers_in_order (h : InKeyOrder s filter sort limit found) :
    found.Pairwise fun a b => (Rank.of sort.field a).isNumber = true →
      (Rank.of sort.field b).isNumber = true → sort.cmp a b ≠ .gt := by
  obtain ⟨pairs, chosen, _, horder, hpairs, hchosen, hmap, rfl⟩ := h
  -- each document is named by the first of its pairs
  obtain ⟨firsts, hfirsts, hids⟩ := List.sublist_map_iff.mp (eraseDups_sublist (pairs.map Prod.snd))
  have hinorder := precedes_of_walk (horder.sublist hfirsts) fun pair hpair =>
    (hpairs pair (hfirsts.subset hpair)).imp fun _ hnamed =>
      ⟨Store.get?_of_mem_matching hnamed.1, hnamed.2⟩
  rw [← hids, ← hmap] at hinorder
  refine List.pairwise_map.mpr ?_
  apply (List.pairwise_map.mp hinorder).imp_of_mem
  intro a b ha hb hprecedes hnumber hnumber'
  exact (hprecedes a.2 b.2 (Store.get?_of_mem_matching (hchosen a ha))
    (Store.get?_of_mem_matching (hchosen b hb)) hnumber hnumber').1

/-- **Documents in the order of their keys are in the order of the sort** exactly
if those with numbers come first. -/
theorem InKeyOrder.sorted_iff (h : InKeyOrder s filter sort limit found) :
    (found.Pairwise fun a b => sort.cmp a b ≠ .gt) ↔
      found.Pairwise fun a b => (Rank.of sort.field b).isNumber = true →
        (Rank.of sort.field a).isNumber = true := by
  constructor
  · exact fun hsorted => hsorted.imp fun hcmp => Rank.isNumber_of_cmp_ne_gt hcmp
  · intro hfirst
    apply (hfirst.and h.numbers_in_order).imp_of_mem
    intro a b ha _ horder
    exact Rank.cmp_ne_gt_of_isNumber (h.defined a ha) horder.1 horder.2

end InKeyOrder

/-- The documents that a satisfied probe names are in the order of their keys. -/
theorem satisfied_inKeyOrder {c : Catalog} {s : Store} (hc : c.Mirrors s.live) {filter : Filter}
    {sort : SortBy} {limit : Nat} {references : List Reference}
    (hprobe : Probe.run c.index filter sort limit = .ok (.satisfied references))
    {chosen : List (String × Document)} (hchosen : ∀ e ∈ chosen, e ∈ s.matching filter)
    (hmap : chosen.map Prod.fst = (references.filterMap Reference.documentId?).eraseDups) :
    InKeyOrder s filter sort limit (chosen.map Prod.snd) := by
  obtain ⟨d, postings, _, hfield, hpostings, hlength, _, hids⟩ := satisfied_cases hprobe
  refine ⟨(c.accepted d postings (Probe.request filter sort limit)).take limit, chosen, ?_, ?_, ?_,
    hchosen, ?_, rfl⟩
  · exact List.length_take_of_le hlength
  · exact ((postings.pairwise_walk _ _ _).filter _).sublist (List.take_sublist _ _)
  · intro pair hpair
    obtain ⟨document, hmatching, hkey⟩ :=
      matching_of_mem_accepted hc hpostings (List.mem_of_mem_take hpair)
    rw [Probe.request, s.matching_requiring] at hmatching
    exact ⟨document, (List.mem_filter.mp hmatching).1, hfield ▸ hkey⟩
  · rw [hmap, hids, List.map_take]

/-- **Sorted queries are in order except after a satisfied probe.**  On every
other route the documents handed out are in the order of the sort, whatever
the attribute holds.  A satisfied probe hands out as many references as the
limit asks for in the order of their keys; all documents have the attribute,
and they are in the order of the sort exactly if none with a number comes
after one without. -/
theorem sorted_or_inKeyOrder (c : Catalog) (s : Store) (filter : Filter) (sort : SortBy)
    (limit : Option Nat) :
    ∃ c', c.rebuild (s.view.scan .everything) = .ok (c', s.live.length) ∧
      ∃ plan found, (Plan.choose c'.index s.view filter ⟨some sort, limit⟩).outcome = .ok plan ∧
        (∀ window, Setting.Delivers ⟨c'.index, s.view, window⟩ filter ⟨some sort, limit⟩
          (· = found)) ∧
        (plan.route ≠ .probeSatisfied → found.Pairwise fun a b => sort.cmp a b ≠ .gt) ∧
        (plan.route = .probeSatisfied → ∃ n, limit = some n ∧
          InKeyOrder s filter sort n found ∧
          (∀ document ∈ found, Rank.of sort.field document ≠ .undefined) ∧
          ((found.Pairwise fun a b => sort.cmp a b ≠ .gt) ↔
            found.Pairwise fun a b => (Rank.of sort.field b).isNumber = true →
              (Rank.of sort.field a).isNumber = true)) := by
  obtain ⟨c', hrebuild, hc, _⟩ := c.exists_rebuild s
  refine ⟨c', hrebuild, ?_⟩
  rcases choose_sorted c'.index_faultless s.view filter sort limit with
    ⟨n, references, rfl, hprobe, hplan⟩ | ⟨route, hroute, hplan⟩
  · obtain ⟨chosen, hchosen, hmap, hdelivers⟩ := delivers_satisfied hc hprobe hplan
    have hkeys := satisfied_inKeyOrder hc hprobe hchosen hmap
    exact ⟨_, _, hplan, hdelivers, fun hroute => absurd rfl hroute,
      fun _ => ⟨n, rfl, hkeys, hkeys.defined, hkeys.sorted_iff⟩⟩
  · obtain ⟨reached, _, _, hdelivers⟩ := delivers_general hc limit hplan rfl
    refine ⟨_, _, hplan, hdelivers, fun _ => ?_, fun hsatisfied => absurd hsatisfied hroute⟩
    have hsorted := sort.pairwise_apply (reached.map Prod.snd)
    cases limit with
    | none => exact hsorted
    | some n => exact hsorted.sublist (List.take_sublist n _)

/-- Two documents, the first with a boolean for an attribute and the second with
a number. -/
def boolAndNumber : Store :=
  .ofDocuments [("a", .object [("v", .bool true)]), ("b", .object [("v", .number (.ofNat 1))])]

/-- A satisfied probe hands out the boolean before the number. -/
theorem satisfied_probe_boolFirst :
    ¬ ∀ (c : Catalog) (s : Store) (filter : Filter) (sort : SortBy) (limit : Option Nat),
      ∃ c', c.rebuild (s.view.scan .everything) = .ok (c', s.live.length) ∧
        ∀ window, Setting.Delivers ⟨c'.index, s.view, window⟩ filter ⟨some sort, limit⟩
          fun found => found.IsChain fun a b => sort.cmp a b ≠ .gt := by
  intro hall
  obtain ⟨c', hrebuild, hsorted⟩ :=
    hall (.ofFields ["v"]) boolAndNumber .all ⟨"v", .ascending⟩ (some 2)
  obtain ⟨_, hrebuild', hc, _⟩ := (Catalog.ofFields ["v"]).exists_rebuild boolAndNumber
  cases hrebuild.symm.trans hrebuild'
  have hprobe : Probe.run c'.index .all ⟨"v", .ascending⟩ 2 =
      .ok (.satisfied [⟨["v", (IndexKey.bool true).encode, "a"]⟩,
        ⟨["v", (IndexKey.number (Number.ofNat 1).toBinary64.orderPattern).encode, "b"]⟩]) := by
    cases hrebuild
    rfl
  have hplan : (Plan.choose c'.index boolAndNumber.view .all
      ⟨some ⟨"v", .ascending⟩, some 2⟩).outcome =
      .ok (.ofProbe [⟨["v", (IndexKey.bool true).encode, "a"]⟩,
        ⟨["v", (IndexKey.number (Number.ofNat 1).toBinary64.orderPattern).encode, "b"]⟩]) := by
    simp only [Plan.choose, hprobe]
  obtain ⟨chosen, hchosen, hmap, hdelivers⟩ := delivers_satisfied hc hprobe hplan
  obtain ⟨_, hchain, rfl⟩ := (hsorted 1).exists_both (hdelivers 1)
  have hfound : chosen.map Prod.snd =
      [.object [("v", .bool true)], .object [("v", .number (.ofNat 1))]] := by
    rw [← Store.filterMap_get? fun e he => (Store.mem_matching.mp (hchosen e he)).1, hmap]
    rfl
  rw [hfound, List.isChain_cons_cons] at hchain
  exact hchain.1 rfl

end DocQuery
