import DocQuery.Proofs.IndexPath
import DocQuery.Proofs.Ties

/-!
# Satisfied probes

A satisfied probe names the first accepted pairs of a walk through the field
of the sort (`satisfied_cases`).  Where the sort attribute of every matching
document is a number or undefined, such a document has one key, the pairs
name distinct documents, and the order of keys is the order of the sort, ties
in the order of their ids (`precedes_of_walk`, `accepted_in_order`).  So the
documents named, then those without the attribute, are all that match, in
order (`probe_ranked`).
-/

namespace DocQuery

/-- A filter that requires an attribute accepts what has it. -/
theorem Filter.accepts_requiring (filter : Filter) (field : String) (document : Document) :
    (filter.requiring field).accepts document =
      (filter.accepts document && (document.valueAt field).isSome) := by
  simp [Filter.accepts, Filter.requiring, Predicate.accepts, Operation.accepts]

/-- A document whose attribute is a number or undefined has no other key than
that of the number. -/
theorem number_of_mem_keysIn {field : String} {document : Document} {key : IndexKey}
    (hkey : key ∈ Catalog.keysIn field document) (hrank : Rank.of field document ≠ .other) :
    ∃ x, Rank.of field document = .number x ∧ key = .number x.orderPattern := by
  unfold Catalog.keysIn at hkey
  unfold Rank.of at hrank ⊢
  cases hvalue : document.valueAt field with
  | none => simp [hvalue] at hkey
  | some value =>
      cases value with
      | number n =>
          refine ⟨n.toBinary64, rfl, ?_⟩
          simpa [hvalue, IndexKey.keysOf, IndexKey.ofJson?] using hkey
      | null | bool | string | array | object => simp [hvalue] at hrank

/-- A document ranks as undefined exactly if it does not have the attribute. -/
theorem Rank.of_eq_undefined_iff {field : String} {document : Document} :
    Rank.of field document = .undefined ↔ document.valueAt field = none := by
  unfold Rank.of
  cases hvalue : document.valueAt field with
  | none => simp
  | some value => cases value <;> simp

/-- Nothing comes after a document without the attribute. -/
theorem SortBy.cmp_ne_gt_undefined {sort : SortBy} {a b : Document}
    (h : b.valueAt sort.field = none) : sort.cmp a b ≠ .gt := by
  rw [SortBy.cmp, Rank.of_eq_undefined_iff.mpr h, Rank.cmp_ne_gt_iff]
  cases Rank.of sort.field a <;> simp [Rank.place, Rank.level]

/-- A document that has the attribute precedes those that do not. -/
theorem SortBy.precedes_undefined {sort : SortBy} {a b : String × Document}
    (ha : a.2.valueAt sort.field ≠ none) (hb : b.2.valueAt sort.field = none) :
    sort.Precedes a b := by
  refine ⟨SortBy.cmp_ne_gt_undefined hb, fun htied => ?_⟩
  have hplace := congrArg Prod.fst (SortBy.cmp_eq_iff_gradeOf.mp htied)
  rw [SortBy.gradeOf, SortBy.gradeOf, Rank.of_eq_undefined_iff.mpr hb] at hplace
  rw [ne_eq, ← Rank.of_eq_undefined_iff] at ha
  cases hrank : Rank.of sort.field a.2 <;> simp_all [Rank.place]

/-- Pairs of a walk in the direction of a sort are entries in its order, if the
keys are those of their numbers. -/
theorem precedes_of_keys {sort : SortBy} {a b : String × Document} {x y : Binary64}
    (ha : Rank.of sort.field a.2 = .number x) (hb : Rank.of sort.field b.2 = .number y)
    (h : Postings.WalkedBefore sort.isReverse (.number x.orderPattern, a.1)
      (.number y.orderPattern, b.1)) :
    sort.Precedes a b := by
  have hlt : ∀ {x y : Binary64}, IndexKey.number x.orderPattern < .number y.orderPattern →
      x.units < y.units := fun h => Binary64.orderPattern_lt_iff.mp h
  rw [SortBy.Precedes, SortBy.cmp_eq_iff_gradeOf, SortBy.gradeOf, SortBy.gradeOf, SortBy.cmp,
    ha, hb, Rank.cmp_ne_gt_iff]
  rcases h with ⟨heq, hid⟩ | hafter
  · have hunits := Binary64.orderPattern_eq_iff.mp (IndexKey.number.inj heq)
    refine ⟨Or.inr ⟨rfl, ?_⟩, fun _ => hid⟩
    cases sort.direction <;> simp [Rank.level, hunits]
  · -- the levels differ, so the documents are not tied
    have hlevel : (Rank.number x).level sort.direction < (Rank.number y).level sort.direction := by
      cases hdirection : sort.direction with
      | ascending =>
          rw [if_neg (by simp [SortBy.isReverse, hdirection])] at hafter
          exact hlt hafter
      | descending =>
          rw [if_pos (by simp [SortBy.isReverse, hdirection])] at hafter
          exact Int.neg_lt_neg (hlt hafter)
    refine ⟨Or.inr ⟨rfl, Int.le_of_lt hlevel⟩, fun hgrades => ?_⟩
    rw [Prod.mk.injEq] at hgrades
    omega

/-- The stored documents that match and define an attribute. -/
theorem Store.matching_requiring (s : Store) (filter : Filter) (field : String) :
    s.matching (filter.requiring field) =
      (s.matching filter).filter fun e => (e.2.valueAt field).isSome := by
  simp only [Store.matching, List.filter_filter, Filter.accepts_requiring, Bool.and_comm]

section Satisfied

variable {c : Catalog} {s : Store} {filter : Filter} {sort : SortBy} {limit : Nat}
  {references : List Reference}

/-- The references of a satisfied probe: the first accepted pairs, as many as
the limit allows, of a walk through the field of the sort. -/
theorem satisfied_cases (h : Probe.run c.index filter sort limit = .ok (.satisfied references)) :
    ∃ d postings, Drive.best? (c.drives (Probe.request filter sort limit)) = some d ∧
      d.field = sort.field ∧ c.fields.get? d.field = some postings ∧
      limit ≤ (c.accepted d postings (Probe.request filter sort limit)).length ∧
      references.length = limit ∧
      references.filterMap Reference.documentId? =
        ((c.accepted d postings (Probe.request filter sort limit)).map Prod.snd).take limit := by
  unfold Probe.run Probe.judge at h
  split at h
  · simp at h
  · next answer hask =>
      obtain ⟨d, postings, pairs, hd, hpostings, rfl, ⟨rest, hpairs⟩, _⟩ := Catalog.ask_cases hask
      obtain ⟨_, horder, _⟩ := Catalog.mem_drives (Drive.best?_mem hd)
      have hgather : gather ((pairs.map fun e =>
          (.ok ⟨[d.field, e.1.encode, e.2]⟩ : Except Fault Reference)).take limit) =
          .ok ((pairs.take limit).map fun e => ⟨[d.field, e.1.encode, e.2]⟩) := by
        rw [gather_eq_ok_iff, ← List.map_take, List.map_map]
        rfl
      rw [hgather] at h
      simp only [Except.ok.injEq] at h
      split at h
      · next hlength =>
          cases h
          have hlong : limit ≤ pairs.length := by
            rw [List.length_map, List.length_take] at hlength
            omega
          refine ⟨d, postings, hd, horder _ rfl, hpostings, ?_, ?_, ?_⟩
          · rw [← hpairs, List.length_append]
            omega
          · rw [List.length_map, List.length_take]
            omega
          · rw [← hpairs, ← List.map_take, List.take_append_of_le_length hlong, List.filterMap_map]
            simp [Function.comp_def, Reference.documentId?]
      · cases h

section Ranked

variable {r : Request} {d : Drive} {postings : Postings}

/-- An accepted pair names a matching document by one of its keys. -/
theorem matching_of_mem_accepted (hc : c.Mirrors s.live)
    (hpostings : c.fields.get? d.field = some postings) {key : IndexKey} {id : String}
    (hpair : (key, id) ∈ c.accepted d postings r) :
    ∃ document, (id, document) ∈ s.matching r.filter ∧ key ∈ Catalog.keysIn d.field document := by
  obtain ⟨document, hlive, haccepts, hkey, _⟩ := (Catalog.mem_accepted hc hpostings).mp hpair
  exact ⟨document, Store.mem_matching.mpr ⟨hlive, haccepts⟩, hkey⟩

/-- **Pairs of a walk in the direction of a sort** name the documents that have
a number in the order of the sort. -/
theorem precedes_of_walk {pairs : List (IndexKey × String)}
    (horder : pairs.Pairwise (Postings.WalkedBefore sort.isReverse))
    (hpairs : ∀ pair ∈ pairs, ∃ document, s.get? pair.2 = some document ∧
      pair.1 ∈ Catalog.keysIn sort.field document) :
    (pairs.map Prod.snd).Pairwise fun id id' => ∀ a b, s.get? id = some a → s.get? id' = some b →
      (Rank.of sort.field a).isNumber = true → (Rank.of sort.field b).isNumber = true →
        sort.Precedes (id, a) (id', b) := by
  -- a number has no other key than its own
  have hkey : ∀ pair ∈ pairs, ∀ document x, s.get? pair.2 = some document →
      Rank.of sort.field document = .number x → pair.1 = .number x.orderPattern := by
    intro pair hpair document x hget hrank
    obtain ⟨named, hnamed, hkey⟩ := hpairs pair hpair
    cases hnamed.symm.trans hget
    obtain ⟨y, hrank', hkey⟩ := number_of_mem_keysIn hkey (by simp [hrank])
    rw [hrank, Rank.number.injEq] at hrank'
    rw [hkey, hrank']
  refine List.pairwise_map.mpr ?_
  apply horder.imp_of_mem
  intro pair pair' hpair hpair' hbefore a b ha hb hnumber hnumber'
  obtain ⟨x, hx⟩ := Rank.isNumber_iff.mp hnumber
  obtain ⟨y, hy⟩ := Rank.isNumber_iff.mp hnumber'
  have hpair_eq : pair = (.number x.orderPattern, pair.2) :=
    Prod.ext (hkey pair hpair a x ha hx) rfl
  have hpair_eq' : pair' = (.number y.orderPattern, pair'.2) :=
    Prod.ext (hkey pair' hpair' b y hb hy) rfl
  rw [hpair_eq, hpair_eq'] at hbefore
  exact precedes_of_keys hx hy hbefore

/-- Where the sort attribute of matching documents is a number or undefined, the
accepted pairs name distinct documents, in the order of the sort. -/
theorem accepted_in_order (hc : c.Mirrors s.live) (hreverse : r.reverse = sort.isReverse)
    (hnumeric : ∀ e ∈ s.matching r.filter, Rank.of sort.field e.2 ≠ .other)
    (hfield : d.field = sort.field) (hpostings : c.fields.get? d.field = some postings) :
    ((c.accepted d postings r).map Prod.snd).Nodup ∧
      ((c.accepted d postings r).map Prod.snd).Pairwise fun id id' => ∀ a b,
        s.get? id = some a → s.get? id' = some b → sort.Precedes (id, a) (id', b) := by
  have hnamed : ∀ pair ∈ c.accepted d postings r, ∃ document, s.get? pair.2 = some document ∧
      pair.1 ∈ Catalog.keysIn sort.field document ∧
      (Rank.of sort.field document).isNumber = true := by
    intro pair hpair
    obtain ⟨document, hmatching, hkey⟩ := matching_of_mem_accepted hc hpostings hpair
    rw [hfield] at hkey
    obtain ⟨x, hrank, _⟩ := number_of_mem_keysIn hkey (hnumeric (pair.2, document) hmatching)
    have hnumber : (Rank.of sort.field document).isNumber = true := by
      rw [hrank]
      rfl
    exact ⟨document, Store.get?_of_mem_matching hmatching, hkey, hnumber⟩
  have hnumber : ∀ id ∈ (c.accepted d postings r).map Prod.snd, ∃ document,
      s.get? id = some document ∧ (Rank.of sort.field document).isNumber = true := by
    intro id hid
    obtain ⟨pair, hpair, rfl⟩ := List.mem_map.mp hid
    obtain ⟨document, hget, _, hnumber⟩ := hnamed pair hpair
    exact ⟨document, hget, hnumber⟩
  have hwalk : (c.accepted d postings r).Pairwise (Postings.WalkedBefore sort.isReverse) :=
    hreverse ▸ (postings.pairwise_walk _ _ _).filter _
  have hprecedes : ((c.accepted d postings r).map Prod.snd).Pairwise fun id id' => ∀ a b,
      s.get? id = some a → s.get? id' = some b → sort.Precedes (id, a) (id', b) := by
    have hwalked := precedes_of_walk hwalk fun pair hpair =>
      (hnamed pair hpair).imp fun _ hdocument => ⟨hdocument.1, hdocument.2.1⟩
    apply hwalked.imp_of_mem
    intro id id' hid hid' horder a b ha hb
    obtain ⟨_, hget, hnumbered⟩ := hnumber id hid
    obtain ⟨_, hget', hnumbered'⟩ := hnumber id' hid'
    cases hget.symm.trans ha
    cases hget'.symm.trans hb
    exact horder a b ha hb hnumbered hnumbered'
  refine ⟨?_, hprecedes⟩
  apply hprecedes.imp_of_mem
  rintro id _ hid _ horder rfl
  obtain ⟨document, hget, _⟩ := hnumber id hid
  have hself := horder document document hget hget
  exact hself.asymm hself

/-- **The walk of a probe is ranked.**  Where the sort attribute of matching
documents is a number or undefined, the accepted pairs of the walk name the
first of all matching documents in order. -/
theorem probe_ranked (hc : c.Mirrors s.live) (hkeyed : c.Keyed s)
    (hnumeric : ∀ e ∈ s.matching filter, Rank.of sort.field e.2 ≠ .other)
    (hd : Drive.best? (c.drives (Probe.request filter sort limit)) = some d)
    (hfield : d.field = sort.field) (hpostings : c.fields.get? d.field = some postings) :
    ∃ named rest : List (String × Document), (named ++ rest).Perm (s.matching filter) ∧
      (c.accepted d postings (Probe.request filter sort limit)).map Prod.snd =
        named.map Prod.fst ∧
      (named.map Prod.fst).Nodup ∧ (named ++ rest).Pairwise sort.Precedes := by
  have hrequired : s.matching (Probe.request filter sort limit).filter =
      (s.matching filter).filter fun e => (e.2.valueAt sort.field).isSome :=
    s.matching_requiring filter sort.field
  obtain ⟨hnodup, hpairwise⟩ := accepted_in_order (r := Probe.request filter sort limit) hc rfl
    (fun e he => hnumeric e (List.mem_filter.mp (hrequired ▸ he)).1) hfield hpostings
  have hdistinct := distinct_reached hc hd hpostings
  rw [eraseDups_of_nodup hnodup, reached_of_keyed hkeyed, hrequired] at hdistinct
  obtain ⟨named, hids, hnamed⟩ := exists_map_of_perm hdistinct
  have hlive : ∀ e ∈ named, s.get? e.1 = some e.2 := fun e he =>
    Store.get?_of_mem_matching (List.mem_filter.mp (hnamed.mem_iff.mp he)).1
  refine ⟨named, (s.matching filter).filter fun e => !(e.2.valueAt sort.field).isSome, ?_, hids,
    hids ▸ hnodup, ?_⟩
  · exact (List.Perm.append_right _ hnamed).trans (List.filter_append_perm _ _)
  · refine List.pairwise_append.mpr ⟨?_, ?_, ?_⟩
    · rw [hids] at hpairwise
      apply (List.pairwise_map.mp hpairwise).imp_of_mem
      intro a b ha hb horder
      exact horder _ _ (hlive a ha) (hlive b hb)
    · -- documents without the attribute are tied, and in the order of their ids
      apply ((s.pairwise_matching filter).filter _).imp_of_mem
      intro a b _ hb hlt
      have hnone : b.2.valueAt sort.field = none := by simpa using (List.mem_filter.mp hb).2
      exact ⟨SortBy.cmp_ne_gt_undefined hnone, fun _ => hlt⟩
    · -- documents without the attribute come after all others
      intro a ha b hb
      have hnone : b.2.valueAt sort.field = none := by simpa using (List.mem_filter.mp hb).2
      have hsome : (a.2.valueAt sort.field).isSome = true :=
        (List.mem_filter.mp (hnamed.mem_iff.mp ha)).2
      exact SortBy.precedes_undefined (by simp [← Option.isSome_iff_ne_none, hsome]) hnone

end Ranked

end Satisfied

end DocQuery
