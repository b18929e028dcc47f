import DocQuery.Proofs.SortLimit

/-!
# One store, two catalogs

Where the sort attribute of every matching document is a number or undefined
and every stored attribute of an indexed field has a key, a sorted query hands
out a list that is determined up to ties, whatever fields are indexed.  Tied
documents come in the order of their ids if a satisfied probe answers, if the
general route scans, and if it walks the field of the sort or a single key
(`exists_found`).  A walk of several keys of another field brings them in the
order of those keys instead, so two catalogs may disagree about ties
(`catalogs_agree`, `catalogs_disagree_oneTied`).
-/

namespace DocQuery

/-- Tied documents are certain to come in the order of their ids: a satisfied
probe answers, or the general route scans the store, walks the field of the
sort, or walks a single key. -/
def Catalog.TiesById (c : Catalog) (s : Store) (filter : Filter) (sort : SortBy)
    (limit : Option Nat) : Prop :=
  (∃ plan, (Plan.choose c.index s.view filter ⟨some sort, limit⟩).outcome = .ok plan ∧
    plan.route = .probeSatisfied) ∨
  ∀ d, Drive.best? (c.drives (Plan.generalRequest filter (some sort) none)) = some d →
    d.field = sort.field ∨ ∃ key, d.driver = .key key

section Routes

variable {c : Catalog} {s : Store} {filter : Filter} {sort : SortBy}

/-- A walk of a single key names documents in the order of their ids. -/
theorem pairwise_single_key {r : Request} {d : Drive} {postings : Postings} {key : IndexKey}
    (hd : d.driver = .key key) :
    ((c.accepted d postings r).map Prod.snd).Pairwise (· < ·) := by
  have hkey : ∀ e ∈ c.accepted d postings r, e.1 = key := by
    intro e he
    have hvisits := (Postings.mem_walk.mp (List.mem_filter.mp he).1).1
    rw [hd] at hvisits
    simp only [Driver.lower, Driver.upper, Bound.admitsAbove, Bound.admitsBelow,
      Bool.and_eq_true, Bool.not_eq_true', decide_eq_false_iff_not] at hvisits
    exact SortedMap.eq_of_not_lt hvisits.1 hvisits.2
  refine List.pairwise_map.mpr ?_
  apply ((postings.pairwise_walk d.driver.lower d.driver.upper r.reverse).filter _).imp_of_mem
  intro a b ha hb horder
  rcases horder with ⟨_, hid⟩ | hafter
  · exact hid
  · rw [hkey a ha, hkey b hb] at hafter
    exact absurd hafter (by simpa using LinearKey.irrefl key)

/-- Arranged by such a walk or by a scan, tied documents are in the order of their ids. -/
theorem ties_arranged (hc : c.Mirrors s.live)
    (hnumeric : ∀ e ∈ s.matching filter, Rank.of sort.field e.2 ≠ .other)
    {reached : List (String × Document)}
    (hperm : reached.Perm (c.reached s (Plan.generalRequest filter (some sort) none)))
    (harranged : c.Arranged s (Plan.generalRequest filter (some sort) none) reached)
    (hdrive : ∀ d, Drive.best? (c.drives (Plan.generalRequest filter (some sort) none)) = some d →
      d.field = sort.field ∨ ∃ key, d.driver = .key key) :
    reached.Pairwise fun a b => sort.cmp a.2 b.2 = .eq → a.1 < b.1 := by
  have hlive : ∀ e ∈ reached, s.get? e.1 = some e.2 := fun e he =>
    Store.mem_live.mp (mem_live_of_mem_reached (hperm.mem_iff.mp he)).1
  unfold Catalog.Arranged at harranged
  cases hd : Drive.best? (c.drives (Plan.generalRequest filter (some sort) none)) with
  | none =>
      rw [hd] at harranged
      subst harranged
      apply (s.pairwise_matching filter).imp
      intro a b hlt _
      exact hlt
  | some d =>
      rw [hd] at harranged
      obtain ⟨postings, hpostings, hids⟩ := harranged
      rcases hdrive d hd with hfield | ⟨key, hkey⟩
      · have hreverse : (Plan.generalRequest filter (some sort) none).reverse =
            sort.isReverse := rfl
        obtain ⟨hnodup, hpairwise⟩ := accepted_in_order hc hreverse hnumeric hfield hpostings
        rw [← eraseDups_of_nodup hnodup, ← hids] at hpairwise
        apply (List.pairwise_map.mp hpairwise).imp_of_mem
        intro a b ha hb horder
        exact (horder _ _ (hlive a ha) (hlive b hb)).2
      · have hpairwise : ((c.accepted d postings (Plan.generalRequest filter (some sort) none)).map
            Prod.snd).Pairwise (· < ·) := pairwise_single_key hkey
        have hnodup := hpairwise.imp fun hlt => SortedMap.ne_of_lt hlt
        rw [← eraseDups_of_nodup hnodup, ← hids] at hpairwise
        apply (List.pairwise_map.mp hpairwise).imp
        intro a b hlt _
        exact hlt

/-- **What a sorted query hands out** is a list of first documents, the same for
every window and order of completion, and by id where ties are certain to be. -/
theorem exists_found (hc : c.Mirrors s.live) (hkeyed : c.Keyed s)
    (hnumeric : ∀ e ∈ s.matching filter, Rank.of sort.field e.2 ≠ .other)
    (limit : Option Nat) :
    ∃ found, (∀ window, Setting.Delivers ⟨c.index, s.view, window⟩ filter ⟨some sort, limit⟩
        (· = found)) ∧
      FirstRanked sort limit (s.matching filter) found ∧
      (c.TiesById s filter sort limit → FirstById sort limit (s.matching filter) found) := by
  rcases choose_sorted c.index_faultless s.view filter sort limit with
    ⟨n, references, rfl, hprobe, hplan⟩ | ⟨route, hroute, hplan⟩
  · obtain ⟨chosen, hchosen, hmap, hdelivers⟩ := delivers_satisfied hc hprobe hplan
    have hfirst := satisfied_firstById hc hkeyed hnumeric hprobe hchosen hmap
    exact ⟨_, hdelivers, hfirst.firstRanked, fun _ => hfirst⟩
  · obtain ⟨reached, hperm, harranged, hdelivers⟩ := delivers_general hc limit hplan rfl
    have hmatching : reached.Perm (s.matching filter) := by
      rwa [reached_of_keyed hkeyed] at hperm
    refine ⟨_, hdelivers, firstRanked_apply sort limit (hmatching.map Prod.snd), ?_⟩
    intro hties
    rcases hties with ⟨plan, hplan', hsatisfied⟩ | hdrive
    · cases hplan.symm.trans hplan'
      exact absurd hsatisfied hroute
    · exact firstById_apply hmatching (ties_arranged hc hnumeric hperm harranged hdrive)

end Routes

/-- **Catalogs agree up to ties.**  Where the sort attribute of every matching
document is a number or undefined, a sorted query hands out equally long lists
over catalogs of any two lists of fields, rebuilt from one store, with tied
documents at each position.  The lists are equal if in both catalogs tied
documents are certain to come in the order of their ids. -/
theorem catalogs_agree (c₁ c₂ : Catalog) (s : Store) (filter : Filter) (sort : SortBy)
    (limit : Option Nat) (hkeyed₁ : c₁.Keyed s) (hkeyed₂ : c₂.Keyed s)
    (hnumeric : ∀ e ∈ s.matching filter, Rank.of sort.field e.2 ≠ .other) :
    ∃ c₁' c₂', c₁.rebuild (s.view.scan .everything) = .ok (c₁', s.live.length) ∧
      c₂.rebuild (s.view.scan .everything) = .ok (c₂', s.live.length) ∧
      ∃ found₁ found₂,
        (∀ window, Setting.Delivers ⟨c₁'.index, s.view, window⟩ filter ⟨some sort, limit⟩
          (· = found₁)) ∧
        (∀ window, Setting.Delivers ⟨c₂'.index, s.view, window⟩ filter ⟨some sort, limit⟩
          (· = found₂)) ∧
        List.Forall₂ (fun a b => sort.cmp a b = .eq) found₁ found₂ ∧
        (c₁'.TiesById s filter sort limit → c₂'.TiesById s filter sort limit →
          found₁ = found₂) := by
  obtain ⟨c₁', hrebuild₁, hc₁, hfields₁⟩ := c₁.exists_rebuild s
  obtain ⟨c₂', hrebuild₂, hc₂, hfields₂⟩ := c₂.exists_rebuild s
  obtain ⟨found₁, hdelivers₁, hranked₁, hbyId₁⟩ :=
    exists_found hc₁ (hkeyed₁.of_fields hfields₁) hnumeric limit
  obtain ⟨found₂, hdelivers₂, hranked₂, hbyId₂⟩ :=
    exists_found hc₂ (hkeyed₂.of_fields hfields₂) hnumeric limit
  exact ⟨c₁', c₂', hrebuild₁, hrebuild₂, found₁, found₂, hdelivers₁, hdelivers₂,
    hranked₁.tied hranked₂, fun hties₁ hties₂ => (hbyId₁ hties₁).unique (hbyId₂ hties₂)⟩

/-- Two documents with one number for one attribute and two strings for another. -/
def oneTied : Store :=
  .ofDocuments [("a", .object [("n", .number (.ofNat 1)), ("v", .string "y")]),
    ("b", .object [("n", .number (.ofNat 1)), ("v", .string "x")])]

theorem keyed_oneTied {field : String} (hfield : field = "n" ∨ field = "v") :
    (Catalog.ofFields [field]).Keyed oneTied := by
  intro other hother
  cases List.mem_singleton.mp (Catalog.contains_ofFields.mp hother)
  rcases hfield with rfl | rfl <;>
    exact List.forall_mem_cons.mpr ⟨fun _ => List.cons_ne_nil _ _,
      List.forall_mem_singleton.mpr fun _ => List.cons_ne_nil _ _⟩

/-- Without fields nothing needs a key. -/
theorem keyed_ofFields_nil (s : Store) : (Catalog.ofFields []).Keyed s :=
  fun _ hfield => absurd (Catalog.contains_ofFields.mp hfield) List.not_mem_nil

theorem numeric_oneTied (filter : Filter) :
    ∀ e ∈ oneTied.matching filter, Rank.of "n" e.2 ≠ .other := by
  have hlive : ∀ e ∈ oneTied.live, Rank.of "n" e.2 ≠ .other :=
    List.forall_mem_cons.mpr ⟨nofun, List.forall_mem_singleton.mpr nofun⟩
  exact fun e he => hlive e (Store.mem_matching.mp he).1

/-- With and without an index of the attribute that the sort goes by, the two
documents are handed out in the same order. -/
theorem catalogs_agree_oneTied :
    (Catalog.ofFields ["n"]).Keyed oneTied ∧ (Catalog.ofFields []).Keyed oneTied ∧
      (∀ e ∈ oneTied.matching ⟨[⟨"n", .defined true⟩]⟩, Rank.of "n" e.2 ≠ .other) ∧
      ∃ c₁' c₂', (Catalog.ofFields ["n"]).rebuild (oneTied.view.scan .everything) = .ok (c₁', 2) ∧
        (Catalog.ofFields []).rebuild (oneTied.view.scan .everything) = .ok (c₂', 2) ∧
        ∃ found,
          (∀ window, Setting.Delivers ⟨c₁'.index, oneTied.view, window⟩ ⟨[⟨"n", .defined true⟩]⟩
            ⟨some ⟨"n", .ascending⟩, none⟩ (· = found)) ∧
          ∀ window, Setting.Delivers ⟨c₂'.index, oneTied.view, window⟩ ⟨[⟨"n", .defined true⟩]⟩
            ⟨some ⟨"n", .ascending⟩, none⟩ (· = found) := by
  have hkeyed₁ := keyed_oneTied (Or.inl rfl)
  have hkeyed₂ := keyed_ofFields_nil oneTied
  have hnumeric := numeric_oneTied ⟨[⟨"n", .defined true⟩]⟩
  obtain ⟨c₁', c₂', hrebuild₁, hrebuild₂, found₁, found₂, hdelivers₁, hdelivers₂, _, hsame⟩ :=
    catalogs_agree (.ofFields ["n"]) (.ofFields []) oneTied ⟨[⟨"n", .defined true⟩]⟩
      ⟨"n", .ascending⟩ none hkeyed₁ hkeyed₂ hnumeric
  have hfound : found₁ = found₂ := by
    -- every drive is that of the only predicate, which is on the field of the sort
    have hties : ∀ c : Catalog,
        c.TiesById oneTied ⟨[⟨"n", .defined true⟩]⟩ ⟨"n", .ascending⟩ none := by
      intro c
      refine Or.inr fun d hd => Or.inl ?_
      obtain ⟨_, _, p, hp, hfield, _⟩ := Catalog.mem_drives (Drive.best?_mem hd)
      cases List.mem_singleton.mp hp
      exact hfield.symm
    exact hsame (hties c₁') (hties c₂')
  exact ⟨hkeyed₁, hkeyed₂, hnumeric, c₁', c₂', hrebuild₁, hrebuild₂, found₁, hdelivers₁,
    hfound ▸ hdelivers₂⟩

/-- Tied documents stay as they are. -/
theorem SortBy.apply_tied {sort : SortBy} {a b : Document} (h : sort.gradeOf a = sort.gradeOf b) :
    sort.apply [a, b] = [a, b] :=
  List.mergeSort_of_pairwise (by simp [SortBy.admits, SortBy.cmp_eq_iff_gradeOf.mpr h])

/-- A sorted query without a limit hands out the candidates that match, sorted. -/
theorem delivers_candidates (c : Catalog) (s : Store) (filter : Filter) (sort : SortBy)
    (window : Nat) :
    Setting.Delivers ⟨c.index, s.view, window⟩ filter ⟨some sort, none⟩
      (· = sort.apply ((Plan.general c.index s.view filter (some sort) none).candidatesIn s
        filter)) := by
  obtain ⟨plan, hplan, _, hbatch⟩ :=
    streams_batch c.index_faultless s.view_steady filter ⟨some sort, none⟩
  cases hplan
  have howed : (Plan.general c.index s.view filter (some sort) none).sort = some sort ∧
      (Plan.general c.index s.view filter (some sort) none).postLimit = none := by
    unfold Plan.general
    cases c.index.ask (Plan.generalRequest filter (some sort) none) <;> simp
  have hsorted := hbatch rfl window
  simp only [Plan.batch, howed, takeUpTo] at hsorted
  exact hsorted

/-- A walk through the other attribute brings the two documents the other way
round, and they are tied: with an index of it the answer is another. -/
theorem catalogs_disagree_oneTied :
    ¬ ∀ (c₁ c₂ : Catalog) (s : Store) (filter : Filter) (sort : SortBy) (limit : Option Nat),
      c₁.Keyed s → c₂.Keyed s → (∀ e ∈ s.matching filter, Rank.of sort.field e.2 ≠ .other) →
        ∃ c₁' c₂', c₁.rebuild (s.view.scan .everything) = .ok (c₁', s.live.length) ∧
          c₂.rebuild (s.view.scan .everything) = .ok (c₂', s.live.length) ∧
          ∃ found,
            (∀ window, Setting.Delivers ⟨c₁'.index, s.view, window⟩ filter ⟨some sort, limit⟩
              (· = found)) ∧
            ∀ window, Setting.Delivers ⟨c₂'.index, s.view, window⟩ filter ⟨some sort, limit⟩
              (· = found) := by
  intro hall
  obtain ⟨c₁', c₂', hrebuild₁, hrebuild₂, found, hdelivers₁, hdelivers₂⟩ :=
    hall (.ofFields ["v"]) (.ofFields []) oneTied ⟨[⟨"v", .gte (.string "")⟩]⟩ ⟨"n", .ascending⟩
      none (keyed_oneTied (Or.inr rfl)) (keyed_ofFields_nil oneTied) (numeric_oneTied _)
  have hfound : ∀ c : Catalog, (∀ window, Setting.Delivers ⟨c.index, oneTied.view, window⟩
      ⟨[⟨"v", .gte (.string "")⟩]⟩ ⟨some ⟨"n", .ascending⟩, none⟩ (· = found)) →
        found = SortBy.apply ⟨"n", .ascending⟩ ((Plan.general c.index oneTied.view
          ⟨[⟨"v", .gte (.string "")⟩]⟩ (some ⟨"n", .ascending⟩) none).candidatesIn oneTied
            ⟨[⟨"v", .gte (.string "")⟩]⟩) := by
    intro c hdelivers
    obtain ⟨_, rfl, hsorted⟩ := (hdelivers 1).exists_both (delivers_candidates c _ _ _ 1)
    exact hsorted
  have hwalked : found = SortBy.apply ⟨"n", .ascending⟩
      [.object [("n", .number (.ofNat 1)), ("v", .string "x")],
        .object [("n", .number (.ofNat 1)), ("v", .string "y")]] := by
    refine (hfound c₁' hdelivers₁).trans ?_
    cases hrebuild₁
    rfl
  have hscanned : found = SortBy.apply ⟨"n", .ascending⟩
      [.object [("n", .number (.ofNat 1)), ("v", .string "y")],
        .object [("n", .number (.ofNat 1)), ("v", .string "x")]] := by
    refine (hfound c₂' hdelivers₂).trans ?_
    cases hrebuild₂
    rfl
  have hsame := (hwalked.trans (SortBy.apply_tied rfl)).symm.trans
    (hscanned.trans (SortBy.apply_tied rfl))
  exact absurd hsame (by simp)

end DocQuery
