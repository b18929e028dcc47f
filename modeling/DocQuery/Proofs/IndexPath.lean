import DocQuery.Proofs.Answers
import DocQuery.Proofs.Batch

/-!
# Queries over a rebuilt catalog

After a rebuild a catalog answers for the documents of the store.  On the
general route the candidates that match are those stored documents that
match and that the catalog does not miss, be it that it is asked or that it
declines and the store is scanned (`general_cases`); they come in the order of
the walk or the scan (`general_arranged`).

So a query without a sort hands out stored documents that match, each at most
once, and without a limit all but those missed (`delivers_unsorted`).  An
attribute can exist without a key, as an empty array, an object, or an array
of such values does, and then a walk that existence drives does not come by.
A query gives what a scan would give exactly when no matching document is
missed (`rebuilt_catalog_delivers`).
-/

namespace DocQuery

/-- The stored documents that match a filter, with their ids. -/
def Store.matching (s : Store) (filter : Filter) : List (String × Document) :=
  s.live.filter fun e => filter.accepts e.2

/-- The stored documents that match a request and are not missed. -/
def Catalog.reached (c : Catalog) (s : Store) (r : Request) : List (String × Document) :=
  (s.matching r.filter).filter fun e => !c.misses r e.2

theorem Store.mem_matching {s : Store} {filter : Filter} {e : String × Document} :
    e ∈ s.matching filter ↔ e ∈ s.live ∧ filter.accepts e.2 = true :=
  List.mem_filter

/-- Looking up the id of a document that matches finds it. -/
theorem Store.get?_of_mem_matching {s : Store} {filter : Filter} {id : String}
    {document : Document} (h : (id, document) ∈ s.matching filter) : s.get? id = some document :=
  Store.mem_live.mp (Store.mem_matching.mp h).1

/-- The documents that match are in the order of their ids. -/
theorem Store.pairwise_matching (s : Store) (filter : Filter) :
    (s.matching filter).Pairwise fun a b => a.1 < b.1 :=
  (List.pairwise_map.mp s.pairwise_live).filter _

/-- Looking up ids of stored documents finds these. -/
theorem Store.filterMap_get? {s : Store} {entries : List (String × Document)}
    (h : ∀ e ∈ entries, e ∈ s.live) :
    (entries.map Prod.fst).filterMap s.get? = entries.map Prod.snd := by
  induction entries with
  | nil => rfl
  | cons e rest ih =>
      obtain ⟨he, hrest⟩ := List.forall_mem_cons.mp h
      simp [Store.mem_live.mp he, ih hrest]

/-- A catalog whose answers hold no faults. -/
theorem Catalog.index_faultless (c : Catalog) : c.index.Faultless := by
  intro request answer hask
  obtain ⟨d, _, pairs, _, _, rfl, _, _⟩ := Catalog.ask_cases hask
  exact ⟨pairs.map fun e => ⟨[d.field, e.1.encode, e.2]⟩, by simp⟩

section Mirror

variable {c : Catalog} {s : Store}

theorem mem_live_of_mem_reached {r : Request} {e : String × Document} (h : e ∈ c.reached s r) :
    e ∈ s.live ∧ r.filter.accepts e.2 = true :=
  Store.mem_matching.mp (List.mem_filter.mp h).1

/-- The distinct ids of a walk are those of the documents reached. -/
theorem distinct_reached (hc : c.Mirrors s.live) {r : Request} {d : Drive} {postings : Postings}
    (hd : Drive.best? (c.drives r) = some d)
    (hpostings : c.fields.get? d.field = some postings) :
    (((c.accepted d postings r).map Prod.snd).eraseDups).Perm
      ((c.reached s r).map Prod.fst) := by
  have hreached : c.reached s r =
      s.live.filter fun e => r.filter.accepts e.2 && !c.misses r e.2 := by
    rw [Catalog.reached, Store.matching, List.filter_filter]
    simp only [Bool.and_comm]
  rw [hreached]
  exact Catalog.distinct_perm hc s.nodup_live hd hpostings

/-- The order in which the documents reached arrive: that in which a walk first
names them, or without a walk the ascending order of their ids. -/
def Catalog.Arranged (c : Catalog) (s : Store) (r : Request)
    (reached : List (String × Document)) : Prop :=
  match Drive.best? (c.drives r) with
  | none => reached = s.matching r.filter
  | some d => ∃ postings, c.fields.get? d.field = some postings ∧
      reached.map Prod.fst = ((c.accepted d postings r).map Prod.snd).eraseDups

/-- The documents that an answer names are the first of those reached, as the
walk arranges them. -/
theorem subjects_answer (hc : c.Mirrors s.live) {r : Request} {answer : Answer}
    (hask : c.ask r = some answer) (plan : Plan)
    (hplan : plan.candidates = .references answer.references) (entries : List Entry) :
    ∃ reached, reached.Perm (c.reached s r) ∧ c.Arranged s r reached ∧
      plan.subjects s.get? entries = (takeUpTo r.limit reached).map Prod.snd ∧
      answer.limitApplied = r.limit.isSome := by
  obtain ⟨d, postings, pairs, hd, hpostings, rfl, _, hids⟩ := Catalog.ask_cases hask
  -- the ids are a rearrangement of those reached, so the entries can be rearranged likewise
  obtain ⟨reached, hids', hperm⟩ := exists_map_of_perm (distinct_reached hc hd hpostings)
  have harranged : c.Arranged s r reached := by
    rw [Catalog.Arranged, hd]
    exact ⟨postings, hpostings, hids'.symm⟩
  refine ⟨reached, hperm, harranged, ?_, rfl⟩
  have hnamed : (pairs.map Prod.snd).eraseDups = (takeUpTo r.limit reached).map Prod.fst := by
    rw [hids, hids', map_takeUpTo]
  have hlive : ∀ e ∈ takeUpTo r.limit reached, e ∈ s.live := by
    intro e he
    exact (mem_live_of_mem_reached (hperm.mem_iff.mp (mem_of_mem_takeUpTo he))).1
  rw [Plan.subjects, hplan]
  simp only [List.filterMap_map, Function.comp_def, Reference.documentId?]
  rw [← Store.filterMap_get? hlive, ← hnamed]
  simp

/-- Where a catalog declines, none of the documents that match is missed. -/
theorem reached_of_declined {r : Request} (hask : c.ask r = none) :
    c.reached s r = s.matching r.filter := by
  have hdrives : Drive.best? (c.drives r) = none := Option.map_eq_none_iff.mp hask
  exact List.filter_eq_self.mpr fun e _ => by simp [Catalog.misses, hdrives]

/-- A scan gives all stored documents. -/
theorem subjects_scan {r : Request} (hask : c.ask r = none) (plan : Plan)
    (hplan : plan.candidates = .documents (Plan.scanned s.view)) :
    (plan.subjects s.get? (s.scan .everything)).filter r.filter.accepts =
      (c.reached s r).map Prod.snd := by
  have hlive : (s.scan .everything).filterMap Entry.document = s.live.map Prod.snd := by
    simp only [Store.scan, ScanRequest.everything, takeUpTo, Store.live, Bool.false_eq_true, if_false,
      List.filterMap_map, List.map_filterMap, Function.comp_def]
    apply List.filterMap_congr
    intro e _
    cases e.2 <;> rfl
  rw [Plan.subjects, hplan, reached_of_declined hask, Store.matching, hlive, List.filter_map]
  rfl

/-- The candidates of a plan over a store that match a filter. -/
def Plan.candidatesIn (plan : Plan) (s : Store) (filter : Filter) : List Document :=
  (plan.subjects s.get? (s.scan .everything)).filter filter.accepts

/-- **The general route.**  The matching candidates are the documents reached,
in the order of the walk or the scan; the limit has been applied to them, or
is owed. -/
theorem general_arranged (hc : c.Mirrors s.live) (filter : Filter) (sort : Option SortBy)
    (limit : Option Nat) {plan : Plan}
    (hplan : plan = Plan.general c.index s.view filter sort limit) :
    plan.sort = sort ∧ ∃ reached,
      reached.Perm (c.reached s (Plan.generalRequest filter sort limit)) ∧
      c.Arranged s (Plan.generalRequest filter sort limit) reached ∧
      (plan.candidatesIn s filter = (takeUpTo limit reached).map Prod.snd ∧ plan.postLimit = none ∨
        plan.candidatesIn s filter = reached.map Prod.snd ∧ plan.postLimit = limit) := by
  have haskeq : c.index.ask (Plan.generalRequest filter sort limit) =
      c.ask (Plan.generalRequest filter sort limit) := rfl
  unfold Plan.general at hplan
  cases hask : c.ask (Plan.generalRequest filter sort limit) with
  | none =>
      simp only [haskeq, hask] at hplan
      subst hplan
      have harranged : c.Arranged s (Plan.generalRequest filter sort limit)
          (c.reached s (Plan.generalRequest filter sort limit)) := by
        rw [Catalog.Arranged, show Drive.best? _ = none from Option.map_eq_none_iff.mp hask]
        exact reached_of_declined hask
      exact ⟨rfl, _, List.Perm.refl _, harranged, Or.inr ⟨subjects_scan hask _ rfl, rfl⟩⟩
  | some answer =>
      simp only [haskeq, hask] at hplan
      obtain ⟨reached, hperm, harranged, hsubjects, happlied⟩ :=
        subjects_answer hc hask plan (by rw [hplan]) (s.scan .everything)
      have hmatching : ∀ document ∈ (takeUpTo limit reached).map Prod.snd,
          filter.accepts document = true := by
        intro document hdocument
        obtain ⟨e, he, rfl⟩ := List.mem_map.mp hdocument
        exact (mem_live_of_mem_reached (hperm.mem_iff.mp (mem_of_mem_takeUpTo he))).2
      refine ⟨by rw [hplan], reached, hperm, harranged, Or.inl ⟨?_, ?_⟩⟩
      · rw [Plan.candidatesIn, hsubjects]
        exact List.filter_eq_self.mpr hmatching
      · rw [hplan, happlied]
        cases limit <;> rfl

/-- The matching candidates of the general route, whatever their order. -/
theorem general_cases (hc : c.Mirrors s.live) (filter : Filter) (sort : Option SortBy)
    (limit : Option Nat) {plan : Plan}
    (hplan : plan = Plan.general c.index s.view filter sort limit) :
    plan.sort = sort ∧ ∃ reached,
      reached.Perm (c.reached s (Plan.generalRequest filter sort limit)) ∧
      (plan.candidatesIn s filter = (takeUpTo limit reached).map Prod.snd ∧ plan.postLimit = none ∨
        plan.candidatesIn s filter = reached.map Prod.snd ∧ plan.postLimit = limit) := by
  obtain ⟨hsort, reached, hperm, _, hcases⟩ := general_arranged hc filter sort limit hplan
  exact ⟨hsort, reached, hperm, hcases⟩

/-- Every stored attribute of an indexed field has a key. -/
def Catalog.Keyed (c : Catalog) (s : Store) : Prop :=
  ∀ field, c.fields.contains field = true → ∀ e ∈ s.live,
    (e.2.valueAt field).isSome = true → Catalog.keysIn field e.2 ≠ []

/-- Where every attribute has a key, no document that matches is missed. -/
theorem reached_of_keyed (hkeyed : c.Keyed s) (r : Request) :
    c.reached s r = s.matching r.filter := by
  apply List.filter_eq_self.mpr
  intro e he
  obtain ⟨hlive, haccepts⟩ := Store.mem_matching.mp he
  cases hd : Drive.best? (c.drives r) with
  | none => simp [Catalog.misses, hd]
  | some d =>
      obtain ⟨hfield, _, p, hp, hpfield, hdriver⟩ := Catalog.mem_drives (Drive.best?_mem hd)
      have hholds : p.operation.accepts (e.2.valueAt p.field) = true :=
        List.all_eq_true.mp haccepts p hp
      obtain ⟨value, hvalue⟩ := Driver.exists_of_accepts hdriver hholds
      have hkeys := hkeyed d.field hfield e hlive (by rw [← hpfield, hvalue]; rfl)
      simp [Catalog.misses, hd, hkeys]

/-- Fields that two catalogs have in common are keyed in both. -/
theorem Catalog.Keyed.of_fields {c' : Catalog} (h : c.Keyed s)
    (hfields : ∀ field, c'.fields.contains field = c.fields.contains field) : c'.Keyed s :=
  fun field hfield => h field (hfields field ▸ hfield)

/-- Without a sort as many of the documents reached are handed out as a limit
allows, in some order. -/
theorem delivers_unsorted (hc : c.Mirrors s.live) (filter : Filter) (limit : Option Nat)
    (window : Nat) :
    Setting.Delivers ⟨c.index, s.view, window⟩ filter ⟨none, limit⟩ fun documents =>
      ∃ reached, reached.Perm (c.reached s (Plan.generalRequest filter none limit)) ∧
        documents.Perm ((takeUpTo limit reached).map Prod.snd) := by
  obtain ⟨hstands, _⟩ := general_standsFor c.index_faultless s.view_steady filter none limit
  obtain ⟨hsort, reached, hperm, hcases⟩ := general_cases hc filter none limit rfl
  apply delivers_of_plan (s := ⟨c.index, s.view, window⟩) rfl rfl hstands
  intro arrived harrived
  have hfiltered := (harrived.filter filter.accepts).perm
  rw [Plan.batch, hsort]
  rcases hcases with ⟨hcandidates, hpost⟩ | ⟨hcandidates, hpost⟩
  · -- the index has applied the limit
    rw [hpost]
    exact ⟨reached, hperm, hfiltered.symm.trans (List.Perm.of_eq hcandidates)⟩
  · -- the limit is owed, and cuts off what arrives
    rw [hpost]
    obtain ⟨came, hcame, hrearranged⟩ :=
      exists_map_of_perm (hfiltered.symm.trans (List.Perm.of_eq hcandidates))
    refine ⟨came, hrearranged.trans hperm, List.Perm.of_eq ?_⟩
    rw [map_takeUpTo, ← hcame]
    rfl

end Mirror

/-- **Queries over a rebuilt catalog.**  Each stored document that matches and
is not missed is handed out once, whatever was filed before the rebuild and
whatever the window and the order of completion.  These are all that match
exactly when no document that matches is missed. -/
theorem rebuilt_catalog_delivers (c : Catalog) (s : Store) (filter : Filter) :
    ∃ c', c.rebuild (s.view.scan .everything) = .ok (c', s.live.length) ∧
      (∀ window, Setting.Delivers ⟨c'.index, s.view, window⟩ filter ⟨none, none⟩
        (·.Perm ((c'.reached s (Plan.generalRequest filter none none)).map Prod.snd))) ∧
      ((∀ window, Setting.Delivers ⟨c'.index, s.view, window⟩ filter ⟨none, none⟩
          (·.Perm ((s.matching filter).map Prod.snd))) ↔
        ∀ e ∈ s.matching filter,
          c'.misses (Plan.generalRequest filter none none) e.2 = false) := by
  obtain ⟨c', hrebuild, hmirrors, _⟩ := c.exists_rebuild s
  have hreached : ∀ window, Setting.Delivers ⟨c'.index, s.view, window⟩ filter ⟨none, none⟩
      (·.Perm ((c'.reached s (Plan.generalRequest filter none none)).map Prod.snd)) := by
    intro window
    exact (delivers_unsorted hmirrors filter none window).imp fun documents hdocuments =>
      hdocuments.elim fun reached h => h.2.trans (h.1.map Prod.snd)
  refine ⟨c', hrebuild, hreached, ?_, ?_⟩
  · intro hall e he
    obtain ⟨documents, hmatching, hfound⟩ := (hall 1).exists_both (hreached 1)
    have hlength := (hfound.symm.trans hmatching).length_eq
    rw [List.length_map, List.length_map] at hlength
    have hkept := List.length_filter_eq_length_iff.mp hlength e he
    simpa using hkept
  · intro hnone window
    have heq : c'.reached s (Plan.generalRequest filter none none) = s.matching filter :=
      List.filter_eq_self.mpr fun e he => by simp [hnone e he]
    exact heq ▸ hreached window

/-- A document with an empty array for an attribute. -/
def emptyArray : Store := .ofDocuments [("d1", .object [("tags", .array [])])]

/-- The filter that asks for the attribute. -/
def tagsDefined : Filter := ⟨[⟨"tags", .defined true⟩]⟩

/-- An empty array is defined and matches, but has no key: a catalog of its
attribute misses it. -/
theorem rebuilt_catalog_misses_emptyArray :
    ¬ ∀ (c : Catalog) (s : Store) (filter : Filter), ∃ c',
      c.rebuild (s.view.scan .everything) = .ok (c', s.live.length) ∧
        ∀ window, Setting.Delivers ⟨c'.index, s.view, window⟩ filter ⟨none, none⟩
          (·.Perm ((s.matching filter).map Prod.snd)) := by
  intro hall
  obtain ⟨c', hrebuild, hdelivers⟩ := hall (.ofFields ["tags"]) emptyArray tagsDefined
  obtain ⟨_, hrebuild', hmirrors, _⟩ := (Catalog.ofFields ["tags"]).exists_rebuild emptyArray
  cases hrebuild.symm.trans hrebuild'
  obtain ⟨documents, hmatching, reached, hreached, hfound⟩ :=
    (hdelivers 1).exists_both (delivers_unsorted hmirrors tagsDefined none 1)
  have hfiled : c' = (Catalog.ofFields ["tags"]).file "d1" (.object [("tags", .array [])]) := by
    cases hrebuild
    rfl
  have hmissed : c'.reached emptyArray (Plan.generalRequest tagsDefined none none) = [] := by
    rw [hfiled]
    rfl
  have hone : (emptyArray.matching tagsDefined).length = 1 := rfl
  have hlength := (hmatching.symm.trans (hfound.trans (hreached.map Prod.snd))).length_eq
  rw [List.length_map, List.length_map, hmissed, hone] at hlength
  exact absurd hlength (by decide)

end DocQuery
