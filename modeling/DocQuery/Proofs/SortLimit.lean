import DocQuery.Proofs.Probing

/-!
# Sorted and limited queries over a rebuilt catalog

Suppose that every stored attribute of an indexed field has a key.  Then the
index misses nothing, and a query with a sort hands out the top documents on
every route, provided that the sort attribute of every matching document is
a number or undefined (`sorted_delivers`).

A query with a limit hands out as many documents as the limit asks for, or
all that match (`limited_delivers`).  There is one exception, which a probe
accepts: it counts references, so where the first references that come back
name a document twice, their distinct documents are all that is handed out.
-/

namespace DocQuery

section Routes

variable {c : Catalog} {s : Store} {filter : Filter} {sort : SortBy}

/-- A plan with the candidates of the general route for a sort, which owes the
sort and a limit, delivers the documents reached, sorted and cut off. -/
theorem delivers_general (hc : c.Mirrors s.live) {options : Options} {plan : Plan} {route : Route}
    (limit : Option Nat)
    (hplan : (Plan.choose c.index s.view filter options).outcome = .ok plan)
    (hgeneral : plan = { Plan.general c.index s.view filter (some sort) none with
      route := route, postLimit := limit }) :
    ∃ reached, reached.Perm (c.reached s (Plan.generalRequest filter (some sort) none)) ∧
      c.Arranged s (Plan.generalRequest filter (some sort) none) reached ∧
      ∀ window, Setting.Delivers ⟨c.index, s.view, window⟩ filter options
        (· = takeUpTo limit (sort.apply (reached.map Prod.snd))) := by
  obtain ⟨hstands, hkeeps⟩ :=
    general_standsFor c.index_faultless s.view_steady filter (some sort) none
  obtain ⟨hsort, reached, hperm, harranged, hcases⟩ :=
    general_arranged hc filter (some sort) none rfl
  have hcandidates : (Plan.general c.index s.view filter (some sort) none).candidatesIn s filter =
      reached.map Prod.snd := hcases.elim And.left And.left
  have hstands' : plan.StandsFor s.get?
      ((Plan.general c.index s.view filter (some sort) none).subjects s.get?
        (s.scan .everything)) := by
    rw [hgeneral]
    exact hstands
  refine ⟨reached, hperm, harranged, ?_⟩
  intro window
  apply delivers_of_plan (s := ⟨c.index, s.view, window⟩) hplan rfl hstands'
  intro arrived harrived
  have hinorder : plan.keepsOrder = true := by
    rw [hgeneral]
    exact hkeeps rfl
  rw [hinorder] at harrived
  cases (show _ = arrived from harrived)
  have hbatch : ∀ documents, plan.batch filter.accepts documents =
      takeUpTo limit (sort.apply (documents.filter filter.accepts)) := by
    intro documents
    rw [hgeneral, Plan.batch]
    simp only [hsort]
  rw [show c.index.accepts filter = filter.accepts from rfl, hbatch, ← Plan.candidatesIn,
    hcandidates]

/-- If no document that matches is missed, such a plan delivers the first
matching documents in order. -/
theorem delivers_sorted (hc : c.Mirrors s.live) (hkeyed : c.Keyed s) {options : Options}
    {plan : Plan} {route : Route} (limit : Option Nat) (window : Nat)
    (hplan : (Plan.choose c.index s.view filter options).outcome = .ok plan)
    (hgeneral : plan = { Plan.general c.index s.view filter (some sort) none with
      route := route, postLimit := limit }) :
    Setting.Delivers ⟨c.index, s.view, window⟩ filter options
      (FirstRanked sort limit (s.matching filter)) := by
  obtain ⟨reached, hperm, _, hdelivers⟩ := delivers_general hc limit hplan hgeneral
  rw [reached_of_keyed hkeyed] at hperm
  exact (hdelivers window).imp fun _ heq => heq ▸ firstRanked_apply sort limit (hperm.map Prod.snd)

/-- A satisfied probe delivers the distinct matching documents that its
references name, in the order first named. -/
theorem delivers_satisfied (hc : c.Mirrors s.live) {limit : Nat} {references : List Reference}
    (hprobe : Probe.run c.index filter sort limit = .ok (.satisfied references))
    {options : Options}
    (hplan : (Plan.choose c.index s.view filter options).outcome = .ok (.ofProbe references)) :
    ∃ chosen : List (String × Document), (∀ e ∈ chosen, e ∈ s.matching filter) ∧
      chosen.map Prod.fst = (references.filterMap Reference.documentId?).eraseDups ∧
      ∀ window, Setting.Delivers ⟨c.index, s.view, window⟩ filter options
        (· = chosen.map Prod.snd) := by
  obtain ⟨d, postings, _, _, hpostings, _, _, hids⟩ := satisfied_cases hprobe
  have hnamed : ∀ id ∈ (references.filterMap Reference.documentId?).eraseDups,
      ∃ e ∈ s.matching filter, e.1 = id := by
    intro id hid
    rw [List.mem_eraseDups, hids] at hid
    obtain ⟨⟨key, _⟩, hpair, rfl⟩ := List.mem_map.mp (List.mem_of_mem_take hid)
    obtain ⟨document, hmatching, _⟩ := matching_of_mem_accepted hc hpostings hpair
    rw [Probe.request, s.matching_requiring] at hmatching
    exact ⟨_, (List.mem_filter.mp hmatching).1, rfl⟩
  obtain ⟨chosen, hchosen, hmap⟩ := exists_map_of_forall hnamed
  refine ⟨chosen, hchosen, hmap, ?_⟩
  intro window
  apply delivers_of_plan (s := ⟨c.index, s.view, window⟩) hplan rfl
    (Or.inr ⟨references, rfl, rfl⟩)
  intro arrived harrived
  have hfound : chosen.map Prod.snd = arrived := by
    rw [← Store.filterMap_get? fun e he => (Store.mem_matching.mp (hchosen e he)).1, hmap]
    exact harrived
  rw [← hfound, show c.index.accepts filter = filter.accepts from rfl]
  apply List.filter_eq_self.mpr
  intro document hdocument
  obtain ⟨e, he, rfl⟩ := List.mem_map.mp hdocument
  exact (Store.mem_matching.mp (hchosen e he)).2

/-- Where the sort attribute of every matching document is a number or undefined,
the documents that a satisfied probe names are the first matching ones by id. -/
theorem satisfied_firstById (hc : c.Mirrors s.live) (hkeyed : c.Keyed s)
    (hnumeric : ∀ e ∈ s.matching filter, Rank.of sort.field e.2 ≠ .other) {limit : Nat}
    {references : List Reference}
    (hprobe : Probe.run c.index filter sort limit = .ok (.satisfied references))
    {chosen : List (String × Document)} (hchosen : ∀ e ∈ chosen, e ∈ s.matching filter)
    (hmap : chosen.map Prod.fst = (references.filterMap Reference.documentId?).eraseDups) :
    FirstById sort (some limit) (s.matching filter) (chosen.map Prod.snd) := by
  obtain ⟨d, postings, hd, hfield, hpostings, hlength, _, hids⟩ := satisfied_cases hprobe
  obtain ⟨named, rest, hperm, hnamed, hnodup, hpairwise⟩ :=
    probe_ranked hc hkeyed hnumeric hd hfield hpostings
  have hlong : limit ≤ named.length := by
    rw [← List.length_map (f := Prod.fst), ← hnamed, List.length_map]
    exact hlength
  have hfirst : takeUpTo (some limit) (named ++ rest) = named.take limit :=
    List.take_append_of_le_length hlong
  -- the ids of the first documents are distinct, so deduplication leaves them alone
  have hsame : chosen.map Prod.fst = (named.take limit).map Prod.fst := by
    rw [hmap, hids, hnamed, ← List.map_take,
      eraseDups_of_nodup (hnodup.sublist ((List.take_sublist limit named).map Prod.fst))]
  have hlive : ∀ e ∈ named.take limit, e ∈ s.live := by
    intro e he
    have hmatching := hperm.mem_iff.mp (List.mem_append_left rest (List.mem_of_mem_take he))
    exact (Store.mem_matching.mp hmatching).1
  refine ⟨named ++ rest, hperm, hpairwise, ?_⟩
  rw [hfirst, ← Store.filterMap_get? hlive, ← hsame,
    Store.filterMap_get? fun e he => (Store.mem_matching.mp (hchosen e he)).1]

/-- Where the sort attribute of every matching document is a number or undefined,
a satisfied probe delivers the first matching documents in order. -/
theorem delivers_satisfied_ranked (hc : c.Mirrors s.live) (hkeyed : c.Keyed s)
    (hnumeric : ∀ e ∈ s.matching filter, Rank.of sort.field e.2 ≠ .other) {limit : Nat}
    {references : List Reference}
    (hprobe : Probe.run c.index filter sort limit = .ok (.satisfied references))
    {options : Options} (window : Nat)
    (hplan : (Plan.choose c.index s.view filter options).outcome = .ok (.ofProbe references)) :
    Setting.Delivers ⟨c.index, s.view, window⟩ filter options
      (FirstRanked sort (some limit) (s.matching filter)) := by
  obtain ⟨chosen, hchosen, hmap, hdelivers⟩ := delivers_satisfied hc hprobe hplan
  have hfirst := satisfied_firstById hc hkeyed hnumeric hprobe hchosen hmap
  exact (hdelivers window).imp fun _ heq => heq ▸ hfirst.firstRanked

end Routes

/-- **Sorted queries hand out the top documents** on every route, if every
stored attribute of an indexed field has a key and the sort attribute of every
matching document is a number or undefined. -/
theorem sorted_delivers (c : Catalog) (s : Store) (filter : Filter) (sort : SortBy)
    (limit : Option Nat) (hkeyed : c.Keyed s)
    (hnumeric : ∀ e ∈ s.matching filter, Rank.of sort.field e.2 ≠ .other) :
    ∃ c', c.rebuild (s.view.scan .everything) = .ok (c', s.live.length) ∧
      ∀ window, Setting.Delivers ⟨c'.index, s.view, window⟩ filter ⟨some sort, limit⟩
        (TopRanked sort limit (s.matching filter)) := by
  obtain ⟨c', hrebuild, hc, hfields⟩ := c.exists_rebuild s
  have hkeyed' := hkeyed.of_fields hfields
  refine ⟨c', hrebuild, ?_⟩
  intro window
  have hfirst : Setting.Delivers ⟨c'.index, s.view, window⟩ filter ⟨some sort, limit⟩
      (FirstRanked sort limit (s.matching filter)) := by
    cases limit with
    | none =>
        obtain ⟨_, _, _, hcases⟩ := general_cases hc filter (some sort) none rfl
        have hpost := hcases.elim And.right And.right
        exact delivers_sorted hc hkeyed' none window rfl
          (congrArg (fun l => { Plan.general c'.index s.view filter (some sort) none with
            postLimit := l }) hpost)
    | some n =>
        rcases choose_probing c'.index_faultless s.view filter sort n with
          ⟨references, hprobe, hplan⟩ | hplan
        · exact delivers_satisfied_ranked hc hkeyed' hnumeric hprobe window hplan
        · exact delivers_sorted hc hkeyed' (some n) window hplan rfl
  exact hfirst.imp fun _ hdocuments => hdocuments.topRanked

/-- Two documents with a number for an attribute. -/
def twoNumbered : Store :=
  .ofDocuments [("a", .object [("n", .number (.ofNat 2))]), ("b", .object [("n", .number (.ofNat 1))])]

/-- The one of two documents with the smaller number is handed out. -/
theorem sorted_delivers_twoNumbered :
    (Catalog.ofFields ["n"]).Keyed twoNumbered ∧
      (∀ e ∈ twoNumbered.matching .all, Rank.of "n" e.2 ≠ .other) ∧
      ∃ c', (Catalog.ofFields ["n"]).rebuild (twoNumbered.view.scan .everything) = .ok (c', 2) ∧
        ∀ window, Setting.Delivers ⟨c'.index, twoNumbered.view, window⟩ .all
          ⟨some ⟨"n", .ascending⟩, some 1⟩
          (TopRanked ⟨"n", .ascending⟩ (some 1) (twoNumbered.matching .all)) := by
  have hkeyed : (Catalog.ofFields ["n"]).Keyed twoNumbered := by
    intro field hfield
    cases List.mem_singleton.mp (Catalog.contains_ofFields.mp hfield)
    exact List.forall_mem_cons.mpr ⟨fun _ => List.cons_ne_nil _ _,
      List.forall_mem_singleton.mpr fun _ => List.cons_ne_nil _ _⟩
  have hnumeric : ∀ e ∈ twoNumbered.matching .all, Rank.of "n" e.2 ≠ .other :=
    List.forall_mem_cons.mpr ⟨nofun, List.forall_mem_singleton.mpr nofun⟩
  exact ⟨hkeyed, hnumeric, sorted_delivers _ twoNumbered .all ⟨"n", .ascending⟩ (some 1) hkeyed hnumeric⟩

/-! ## Limits -/

/-- So many documents, those of distinct entries. -/
def PickedFrom (entries : List (String × Document)) (count : Nat) (found : List Document) : Prop :=
  ∃ chosen : List (String × Document), chosen.Subperm entries ∧ found = chosen.map Prod.snd ∧
    found.length = count

/-- The first documents of rearranged entries are picked from them. -/
theorem pickedFrom_takeUpTo {entries rearranged : List (String × Document)} {n : Nat}
    {found : List Document} (hperm : rearranged.Perm entries)
    (hfound : found.Perm ((takeUpTo (some n) rearranged).map Prod.snd)) :
    PickedFrom entries (min n entries.length) found := by
  obtain ⟨chosen, rfl, hchosen⟩ := exists_map_of_perm hfound
  refine ⟨chosen, ?_, rfl, ?_⟩
  · exact (hchosen.subperm.trans (List.take_sublist n rearranged).subperm).trans hperm.subperm
  · rw [List.length_map, hchosen.length_eq, length_takeUpTo, hperm.length_eq]
    rfl

/-- The general route is no probe. -/
theorem general_route_ne (index : Index) (store : StoreView) (filter : Filter)
    (sort : Option SortBy) (limit : Option Nat) :
    (Plan.general index store filter sort limit).route ≠ .probeSatisfied := by
  unfold Plan.general
  cases index.ask (Plan.generalRequest filter sort limit) <;> simp

/-- A probe in vain is not satisfied. -/
theorem afterProbe_route_ne (index : Index) (store : StoreView) (filter : Filter) (sort : SortBy)
    (limit : Nat) : (Plan.afterProbe index store filter sort limit).route ≠ .probeSatisfied := by
  simp only [Plan.afterProbe, Route.afterProbe]
  split <;> simp

/-- With a sort a satisfied probe answers, or else the candidates of the general
route, which are owed the sort and the limit. -/
theorem choose_sorted {index : Index} (hindex : index.Faultless) (store : StoreView)
    (filter : Filter) (sort : SortBy) (limit : Option Nat) :
    (∃ n references, limit = some n ∧ Probe.run index filter sort n = .ok (.satisfied references) ∧
        (Plan.choose index store filter ⟨some sort, limit⟩).outcome = .ok (.ofProbe references)) ∨
      ∃ route, route ≠ .probeSatisfied ∧
        (Plan.choose index store filter ⟨some sort, limit⟩).outcome =
          .ok { Plan.general index store filter (some sort) none with
            route := route, postLimit := limit } := by
  cases limit with
  | none =>
      refine Or.inr ⟨_, general_route_ne index store filter (some sort) none, ?_⟩
      have hpost : (Plan.general index store filter (some sort) none).postLimit = none := by
        unfold Plan.general
        cases index.ask (Plan.generalRequest filter (some sort) none) <;> simp
      exact congrArg (fun l => Except.ok { Plan.general index store filter (some sort) none with
        postLimit := l }) hpost
  | some n =>
      rcases choose_probing hindex store filter sort n with ⟨references, hprobe, hplan⟩ | hplan
      · exact Or.inl ⟨n, references, rfl, hprobe, hplan⟩
      · exact Or.inr ⟨_, afterProbe_route_ne index store filter sort n, hplan⟩

/-- A satisfied probe has as many references as the limit asks for, and delivers the
distinct matching documents that these name, in the order first named: no fewer than
the limit allows if they name none twice. -/
theorem delivers_satisfied_named {c : Catalog} {s : Store} (hc : c.Mirrors s.live)
    {filter : Filter} {sort : SortBy} {limit : Nat} {references : List Reference}
    (hprobe : Probe.run c.index filter sort limit = .ok (.satisfied references))
    {options : Options}
    (hplan : (Plan.choose c.index s.view filter options).outcome = .ok (.ofProbe references)) :
    references.length = limit ∧
      ∃ chosen : List (String × Document), chosen.Subperm (s.matching filter) ∧
        chosen.map Prod.fst = (references.filterMap Reference.documentId?).eraseDups ∧
        (∀ window, Setting.Delivers ⟨c.index, s.view, window⟩ filter options
          (· = chosen.map Prod.snd)) ∧
        ((references.filterMap Reference.documentId?).Nodup →
          chosen.length = min limit (s.matching filter).length) := by
  obtain ⟨_, _, _, _, _, hlong, hlength, hids⟩ := satisfied_cases hprobe
  obtain ⟨chosen, hchosen, hmap, hdelivers⟩ := delivers_satisfied hc hprobe hplan
  have hnodup : (chosen.map Prod.fst).Nodup := hmap ▸ nodup_eraseDups _
  have hsub : chosen.Subperm (s.matching filter) :=
    List.subperm_of_subset (List.Nodup.of_map Prod.fst hnodup) hchosen
  refine ⟨hlength, chosen, hsub, hmap, hdelivers, fun hdistinct => ?_⟩
  have hcount : chosen.length = (references.filterMap Reference.documentId?).length := by
    rw [← eraseDups_of_nodup hdistinct, ← hmap, List.length_map]
  have hall : (references.filterMap Reference.documentId?).length = limit := by
    rw [hids, List.length_take, List.length_map]
    omega
  have hle := hsub.length_le
  omega

/-- **Limits are filled** on every route but one, if every stored attribute of an
indexed field has a key: as many distinct matching documents are handed out as
the limit asks for, or all of them.  A satisfied probe has as many references
as the limit asks for, and exactly the distinct documents that these name are
handed out, in the order first named: as many again if they name no document
twice. -/
theorem limited_delivers (c : Catalog) (s : Store) (filter : Filter) (sort : Option SortBy)
    (limit : Nat) (hkeyed : c.Keyed s) :
    ∃ c', c.rebuild (s.view.scan .everything) = .ok (c', s.live.length) ∧
      ∃ plan, (Plan.choose c'.index s.view filter ⟨sort, some limit⟩).outcome = .ok plan ∧
        (plan.route ≠ .probeSatisfied → ∀ window,
          Setting.Delivers ⟨c'.index, s.view, window⟩ filter ⟨sort, some limit⟩
            (PickedFrom (s.matching filter) (min limit (s.matching filter).length))) ∧
        (plan.route = .probeSatisfied → ∃ references : List Reference,
          plan.candidates = .references (references.map .ok) ∧ references.length = limit ∧
          ∃ chosen : List (String × Document), chosen.Subperm (s.matching filter) ∧
            chosen.map Prod.fst = (references.filterMap Reference.documentId?).eraseDups ∧
            (∀ window, Setting.Delivers ⟨c'.index, s.view, window⟩ filter ⟨sort, some limit⟩
              (· = chosen.map Prod.snd)) ∧
            ((references.filterMap Reference.documentId?).Nodup →
              chosen.length = min limit (s.matching filter).length)) := by
  obtain ⟨c', hrebuild, hc, hfields⟩ := c.exists_rebuild s
  have hkeyed' := hkeyed.of_fields hfields
  refine ⟨c', hrebuild, ?_⟩
  cases sort with
  | none =>
      refine ⟨_, rfl, ?_, fun hroute => absurd hroute (general_route_ne _ _ _ _ _)⟩
      intro _ window
      apply (delivers_unsorted hc filter (some limit) window).imp
      intro documents hdocuments
      obtain ⟨reached, hperm, hfound⟩ := hdocuments
      rw [reached_of_keyed hkeyed'] at hperm
      exact pickedFrom_takeUpTo hperm hfound
  | some sort =>
      rcases choose_probing c'.index_faultless s.view filter sort limit with
        ⟨references, hprobe, hplan⟩ | hplan
      · exact ⟨_, hplan, fun hroute => absurd rfl hroute,
          fun _ => ⟨references, rfl, delivers_satisfied_named hc hprobe hplan⟩⟩
      · refine ⟨_, hplan, ?_, fun hroute => absurd hroute (afterProbe_route_ne _ _ _ _ _)⟩
        intro _ window
        apply (delivers_sorted hc hkeyed' (some limit) window hplan rfl).imp
        intro documents hdocuments
        obtain ⟨ranked, hperm, _, rfl⟩ := hdocuments
        exact pickedFrom_takeUpTo hperm (List.Perm.refl _)

/-- Two documents, the first with two values for an attribute. -/
def twoTagged : Store :=
  .ofDocuments [("d1", .object [("tags", .array [.string "a", .string "b"])]),
    ("d2", .object [("tags", .array [.string "c"])])]

theorem keyed_twoTagged : (Catalog.ofFields ["tags"]).Keyed twoTagged := by
  intro field hfield
  cases List.mem_singleton.mp (Catalog.contains_ofFields.mp hfield)
  exact List.forall_mem_cons.mpr ⟨fun _ => List.cons_ne_nil _ _,
    List.forall_mem_singleton.mpr fun _ => List.cons_ne_nil _ _⟩

/-- A probe for two of the two documents comes back with two references, both of which
name the first. -/
theorem probe_twoTagged {c' : Catalog} {n : Nat}
    (hrebuild : (Catalog.ofFields ["tags"]).rebuild (twoTagged.view.scan .everything) =
      .ok (c', n)) :
    Probe.run c'.index .all ⟨"tags", .ascending⟩ 2 =
        .ok (.satisfied [⟨["tags", "s:a", "d1"]⟩, ⟨["tags", "s:b", "d1"]⟩]) ∧
      (Plan.choose c'.index twoTagged.view .all ⟨some ⟨"tags", .ascending⟩, some 2⟩).outcome =
        .ok (.ofProbe [⟨["tags", "s:a", "d1"]⟩, ⟨["tags", "s:b", "d1"]⟩]) := by
  have hfiled : c' = ((Catalog.ofFields ["tags"]).file "d1"
      (.object [("tags", .array [.string "a", .string "b"])])).file "d2"
        (.object [("tags", .array [.string "c"])]) := by
    cases hrebuild
    rfl
  have hprobe : Probe.run c'.index .all ⟨"tags", .ascending⟩ 2 =
      .ok (.satisfied [⟨["tags", "s:a", "d1"]⟩, ⟨["tags", "s:b", "d1"]⟩]) := by
    rw [hfiled]
    rfl
  exact ⟨hprobe, by simp only [Plan.choose, hprobe]⟩

/-- A limit of one document is filled with one of two.  With a sort, two references of a
probe name the first document, and this one alone is handed out. -/
theorem limited_delivers_twoTagged :
    (Catalog.ofFields ["tags"]).Keyed twoTagged ∧
      ∃ c', (Catalog.ofFields ["tags"]).rebuild (twoTagged.view.scan .everything) = .ok (c', 2) ∧
        (∀ window, Setting.Delivers ⟨c'.index, twoTagged.view, window⟩ .all ⟨none, some 1⟩
          (PickedFrom (twoTagged.matching .all) 1)) ∧
        ∀ window, Setting.Delivers ⟨c'.index, twoTagged.view, window⟩ .all
          ⟨some ⟨"tags", .ascending⟩, some 2⟩
          (· = [.object [("tags", .array [.string "a", .string "b"])]]) := by
  obtain ⟨c', hrebuild, plan, hplan, hfilled, _⟩ :=
    limited_delivers (.ofFields ["tags"]) twoTagged .all none 1 keyed_twoTagged
  obtain ⟨_, hrebuild', plan', hplan', _, hsatisfied⟩ := limited_delivers (.ofFields ["tags"])
    twoTagged .all (some ⟨"tags", .ascending⟩) 2 keyed_twoTagged
  cases hrebuild.symm.trans hrebuild'
  refine ⟨keyed_twoTagged, c', hrebuild, hfilled ?_, ?_⟩
  · cases hplan
    exact general_route_ne _ _ _ _ _
  · cases hplan'.symm.trans (probe_twoTagged hrebuild).2
    obtain ⟨references, hreferences, _, chosen, hchosen, hids, hdelivers, _⟩ := hsatisfied rfl
    obtain rfl : [⟨["tags", "s:a", "d1"]⟩, ⟨["tags", "s:b", "d1"]⟩] = references :=
      List.map_injective_iff.mpr (fun _ _ => Except.ok.inj) (Candidates.references.inj hreferences)
    have hone : chosen.map Prod.fst = ["d1"] := hids
    obtain ⟨e, rfl, hid⟩ := List.map_eq_singleton_iff.mp hone
    have hstored : e ∈ [("d1", Json.object [("tags", .array [.string "a", .string "b"])]),
        ("d2", .object [("tags", .array [.string "c"])])] :=
      hchosen.subset (List.mem_singleton.mpr rfl)
    obtain rfl : e = ("d1", .object [("tags", .array [.string "a", .string "b"])]) := by
      rcases List.mem_cons.mp hstored with hfirst | hsecond
      · exact hfirst
      · rw [List.mem_singleton.mp hsecond] at hid
        exact absurd hid (by decide)
    exact hdelivers

/-- Two references of a probe name the document with two values, so a limit of
two documents is not filled. -/
theorem satisfied_probe_falls_short :
    ¬ ∀ (c : Catalog) (s : Store) (filter : Filter) (sort : Option SortBy) (limit : Nat),
      c.Keyed s → ∃ c', c.rebuild (s.view.scan .everything) = .ok (c', s.live.length) ∧
        ∀ window, Setting.Delivers ⟨c'.index, s.view, window⟩ filter ⟨sort, some limit⟩
          fun found => found.length = min limit (s.matching filter).length := by
  intro hall
  obtain ⟨c', hrebuild, hfilled⟩ := hall (.ofFields ["tags"]) twoTagged .all
    (some ⟨"tags", .ascending⟩) 2 keyed_twoTagged
  obtain ⟨_, hrebuild', hc, _⟩ := (Catalog.ofFields ["tags"]).exists_rebuild twoTagged
  cases hrebuild.symm.trans hrebuild'
  obtain ⟨hprobe, hplan⟩ := probe_twoTagged hrebuild
  obtain ⟨chosen, _, hmap, hdelivers⟩ := delivers_satisfied hc hprobe hplan
  obtain ⟨_, hlength, rfl⟩ := (hfilled 1).exists_both (hdelivers 1)
  have hone : chosen.length = 1 := by
    rw [← List.length_map (f := Prod.fst), hmap]
    rfl
  have htwo : (twoTagged.matching .all).length = 2 := rfl
  rw [List.length_map, hone, htwo] at hlength
  exact absurd hlength (by decide)

end DocQuery
