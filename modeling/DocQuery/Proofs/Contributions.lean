import DocQuery.Proofs.Histories
import DocQuery.Proofs.Probing

/-!
# What a query contributes

Over a store and an index without faults a plan works on the documents of the
store, or on references without faults.  So a query whose lookups met no fault
hands out documents, each under an id of its own: those of the store at its
first poll if it scans, and otherwise those that its lookups found.

* `choose_sourced` — what a plan without faults works on;
* `Told.contributions` — what a query hands out comes from there.
-/

namespace DocQuery

/-! ## What a plan works on -/

/-- A probe in vain changes nothing about where the candidates come from. -/
theorem Route.isFullScan_afterProbe (r : Route) : r.afterProbe.isFullScan = r.isFullScan := by
  cases r <;> rfl

/-- What a plan over a store without faults works on: the documents of the
store, if it scans, or references without faults.  The limit is owed, or no
more documents are named than it allows. -/
inductive Plan.Sourced (s : Store) (limit : Option Nat) (plan : Plan) : Prop
  | scan (hroute : plan.route.isFullScan = true)
      (hcandidates : plan.candidates = .documents (s.live.map fun e => .ok e.2))
      (hlimit : plan.postLimit = limit)
  | references (references : List Reference) (hroute : plan.route.isFullScan = false)
      (hcandidates : plan.candidates = .references (references.map .ok))
      (hlimit : plan.postLimit = limit ∨ ∃ n, limit = some n ∧
        (references.filterMap Reference.documentId?).eraseDups.length ≤ n)

section Choose

variable (c : Catalog) (s : Store) (filter : Filter)

/-- A scan of a store lists its documents. -/
theorem scanned_view : Plan.scanned s.view = s.live.map fun e => .ok e.2 := by
  simp [Plan.scanned, Store.view, Store.scan, ScanRequest.everything, takeUpTo, Store.live,
    List.filterMap_map, List.map_filterMap, Function.comp_def]

/-- The general route is limited by its index or owes the limit. -/
theorem general_sourced (sort : Option SortBy) (limit : Option Nat) :
    (Plan.general c.index s.view filter sort limit).Sourced s limit := by
  unfold Plan.general
  cases hask : c.index.ask (Plan.generalRequest filter sort limit) with
  | none => exact .scan rfl (congrArg Candidates.documents (scanned_view s)) rfl
  | some answer =>
      obtain ⟨d, _, pairs, _, _, rfl, _, hnamed⟩ := Catalog.ask_cases hask
      refine .references (pairs.map fun e => ⟨[d.field, e.1.encode, e.2]⟩) rfl (by simp) ?_
      have hids : (pairs.map fun e => (⟨[d.field, e.1.encode, e.2]⟩ : Reference)).filterMap
          Reference.documentId? = pairs.map Prod.snd := by
        simp [List.filterMap_map, Function.comp_def, Reference.documentId?]
      cases limit with
      | none => exact .inl rfl
      | some n =>
          refine .inr ⟨n, rfl, ?_⟩
          rw [hids, hnamed]
          exact List.length_take_le _ _

/-- Without faults a plan is chosen, and it works on the documents of the store
or on references without faults. -/
theorem choose_sourced (options : Options) :
    ∃ plan, (Plan.choose c.index s.view filter options).outcome = .ok plan ∧
      plan.Sourced s options.limit := by
  obtain ⟨sort, limit⟩ := options
  rcases sort with _ | sort
  · exact ⟨_, rfl, general_sourced c s filter none limit⟩
  rcases limit with _ | limit
  · exact ⟨_, rfl, general_sourced c s filter (some sort) none⟩
  rcases choose_probing c.index_faultless s.view filter sort limit with
    ⟨references, hprobe, hplan⟩ | hplan
  · obtain ⟨_, _, _, _, _, _, hlength, _⟩ := satisfied_cases hprobe
    refine ⟨_, hplan, .references references rfl rfl (.inr ⟨limit, rfl, ?_⟩)⟩
    have hsub : (references.filterMap Reference.documentId?).eraseDups.Subperm
        (references.filterMap Reference.documentId?) :=
      List.subperm_of_subset (nodup_eraseDups _) fun id hid => List.mem_eraseDups.mp hid
    exact hsub.length_le.trans ((List.length_filterMap_le _ _).trans hlength.le)
  · refine ⟨_, hplan, ?_⟩
    rcases general_sourced c s filter (some sort) none with
      ⟨hroute, hcandidates, _⟩ | ⟨references, hroute, hcandidates, _⟩
    · exact .scan ((Route.isFullScan_afterProbe _).trans hroute) hcandidates rfl
    · exact .references references ((Route.isFullScan_afterProbe _).trans hroute) hcandidates
        (.inl rfl)

end Choose

/-! ## What a query hands out -/

/-- Names that are among those of some items come from as many of the items. -/
theorem exists_map_of_subperm {α β : Type} {f : α → β} {l : List α} {names : List β}
    (h : names.Subperm (l.map f)) :
    ∃ chosen : List α, chosen.Subperm l ∧ names = chosen.map f := by
  obtain ⟨kept, hkept, hsub⟩ := h
  obtain ⟨picked, hpicked, rfl⟩ := List.sublist_map_iff.mp hsub
  obtain ⟨chosen, rfl, hchosen⟩ := exists_map_of_perm hkept.symm
  exact ⟨chosen, hchosen.subperm.trans hpicked.subperm, rfl⟩

/-- Some items of a list without repeated names have no repeated names. -/
theorem nodup_of_subperm {α β : Type} {f : α → β} {chosen l : List α} (h : chosen.Subperm l)
    (hl : (l.map f).Nodup) : (chosen.map f).Nodup := by
  obtain ⟨kept, hkept, hsub⟩ := h
  exact (hkept.map f).nodup_iff.mp (hl.sublist (hsub.map f))

namespace Lookup

/-- The document that a lookup found, with its id. -/
def pair? (l : Lookup) : Option (String × Document) :=
  match l.found with
  | .ok found => found.map (l.id, ·)
  | .error _ => none

/-- Such a pair says all about the lookup. -/
theorem eq_of_pair? {l : Lookup} {e : String × Document} (h : l.pair? = some e) :
    l = ⟨e.1, .ok (some e.2)⟩ := by
  obtain ⟨id, fault | _ | document⟩ := l <;> simp only [pair?, Option.map_none, Option.map_some,
    reduceCtorEq, Option.some.injEq] at h
  rw [← h]

/-- What lookups hand out that met no fault. -/
theorem items_of_found {lookups : List Lookup}
    (hfound : ∀ l ∈ lookups, ∀ fault, l.found ≠ .error fault) :
    lookups.filterMap item? = (lookups.filterMap pair?).map (.ok ·.2) := by
  rw [List.map_filterMap]
  refine List.filterMap_congr fun l hl => ?_
  have hnot := hfound l hl
  obtain ⟨id, fault | _ | document⟩ := l
  · exact absurd rfl (hnot fault)
  · rfl
  · rfl

/-- The ids of the documents found are among those looked up, in their order. -/
theorem entries_sublist (lookups : List Lookup) :
    ((lookups.filterMap pair?).map Prod.fst).Sublist (lookups.map Lookup.id) := by
  induction lookups with
  | nil => exact List.Sublist.refl _
  | cons l rest ih =>
      cases hpair : l.pair? with
      | none =>
          rw [List.filterMap_cons_none hpair]
          exact ih.cons _
      | some e =>
          rw [List.filterMap_cons_some hpair, eq_of_pair? hpair]
          exact ih.cons_cons _

end Lookup

namespace Pipeline

/-- The stages of a new plan hold nothing back. -/
theorem held_ofPlan (plan : Plan) (window : Nat) (accepts : Document → Bool) :
    (ofPlan plan window accepts).held = [] := by
  cases hsort : plan.sort <;> simp [ofPlan, held, hsort]

section Fresh

variable {p₀ p : Pipeline} {lookups : List Lookup} {came out : List (Except Fault Document)}

/-- What stages have handed out that held nothing back at first passed their
filter, and came out of their source. -/
theorem Progress.handedOut_subperm (h : p₀.Progress p lookups came out) (hheld : p₀.held = []) :
    out.Subperm (p₀.source.stock ++ lookups.filterMap Lookup.item?) ∧
      ∀ item ∈ out, passes p₀.accepts item = true := by
  have hkept := h.kept
  rw [hheld, List.nil_append] at hkept
  have hout := (List.sublist_append_left out p.held).subperm.trans hkept
  refine ⟨?_, fun item hitem => (List.mem_filter.mp (hout.subset hitem)).2⟩
  have hcame : came.Subperm (came ++ p.source.stock) := (List.sublist_append_left _ _).subperm
  exact (hout.trans List.filter_sublist.subperm).trans (hcame.trans h.source.flow.symm.subperm)

/-- A limit that stages owe is kept. -/
theorem Progress.length_le {n : Nat} (h : p₀.Progress p lookups came out)
    (hlimit : p₀.remaining = some n) : out.length ≤ n := by
  have hremaining : some n = p.remaining.map (· + out.length) := hlimit ▸ h.limit
  obtain ⟨left, _, hleft⟩ := Option.map_eq_some_iff.mp hremaining.symm
  omega

/-- Stages over a snapshot look nothing up and hand out what is in it. -/
theorem Progress.of_snapshot (h : p₀.Progress p lookups came out) (hheld : p₀.held = [])
    {rest : List (Except Fault Document)} (hsource : p₀.source = .snapshot rest) :
    lookups = [] ∧ out.Subperm rest := by
  have hstarted := h.source.started
  have hleading := p.source.started_prefix_named
  rw [h.source.named, hstarted, hsource] at hleading
  have hnone : lookups = [] := by
    simpa [Source.started, Source.named] using hleading
  have hsub := (h.handedOut_subperm hheld).1
  rw [hsource, hnone, List.filterMap_nil, List.append_nil] at hsub
  exact ⟨hnone, hsub⟩

/-- Stages that resolve ids look up the first of them and hand out what was
found. -/
theorem Progress.of_ids (h : p₀.Progress p lookups came out) (hheld : p₀.held = [])
    {ordered : Bool} {window : Nat} {ids : List String}
    (hsource : p₀.source = .resolution (.ofIds ordered window (ids.map .ok))) :
    lookups.map Lookup.id <+: ids ∧ out.Subperm (lookups.filterMap Lookup.item?) := by
  have hnamed : p₀.source.named = ids := by
    simp [hsource, Source.named, Resolution.ofIds, Resolution.idle, List.filterMap_map,
      Function.comp_def, Except.toOption]
  have hstock : p₀.source.stock = [] := by
    simp [hsource, Source.stock, Resolution.ofIds, Resolution.idle, Resolution.outstanding,
      faultItem?, List.filterMap_map, Function.comp_def]
  have hstarted := h.source.started
  have hleading := p.source.started_prefix_named
  rw [h.source.named, hnamed, hstarted, hsource] at hleading
  have hsub := (h.handedOut_subperm hheld).1
  rw [hstock, List.nil_append] at hsub
  exact ⟨hleading, hsub⟩

end Fresh

end Pipeline

namespace Query.History

/-- The documents that a query hands out, with their ids: each id contributes
once, every document matches the filter, and the limit is kept. -/
structure Contributes (h : History) (contributions : List (String × Document)) : Prop where
  items : handedOut h.answers = contributions.map (.ok ·.2)
  distinct : (contributions.map Prod.fst).Nodup
  accepted : ∀ e ∈ contributions, h.query.filter.accepts e.2 = true
  limited : ∀ n, h.query.options.limit = some n → contributions.length ≤ n

section Contributions

variable {filter : Filter} {options : Options} {id : String} {now : Nat} {h : History}

/-- A query that was first polled over a catalog and a store without faults has
a plan, and what it handed out flowed out of the stages of the plan. -/
theorem Told.planned (ht : h.Told filter options id now) {c : Catalog} {s : Store}
    {held : String → Bool} {window time : Nat}
    (hfirst : h.first = some ⟨c.index, s.view, held, window, time⟩) :
    ∃ plan p came, plan.Sourced s options.limit ∧ h.route? = some plan.route ∧
      (Pipeline.ofPlan plan window filter.accepts).Progress p h.lookups came
        (handedOut h.answers) := by
  have hbegun : h.query.stage ≠ .unpolled := fun hstage => by simp [(ht.fresh hstage).1] at hfirst
  obtain ⟨w, p, came, hw, _, hflow⟩ := ht.begun hbegun
  obtain rfl : w = ⟨c.index, s.view, held, window, time⟩ := by simpa [hw] using hfirst
  obtain ⟨plan, hplan, hsourced⟩ := choose_sourced c s filter options
  have hstages : Setting.pipeline ⟨c.index, s.view, window⟩ filter options =
      .ofPlan plan window filter.accepts := by
    simp only [Setting.pipeline, hplan]
    rfl
  refine ⟨plan, p, came, hsourced, ?_, hstages ▸ hflow⟩
  rw [route?, hfirst, ht.query]
  simp [World.route?, hplan]

/-- Documents under ids of their own that flowed out of the stages of a plan are
contributions, if the limit is owed or there are no more of them. -/
theorem Told.contributes (ht : h.Told filter options id now) {plan : Plan} {window : Nat}
    {p : Pipeline} {came : List (Except Fault Document)}
    (hflow : (Pipeline.ofPlan plan window filter.accepts).Progress p h.lookups came
      (handedOut h.answers)) {contributions : List (String × Document)}
    (hitems : handedOut h.answers = contributions.map (.ok ·.2))
    (hdistinct : (contributions.map Prod.fst).Nodup)
    (hlimit : plan.postLimit = options.limit ∨
      ∃ n, options.limit = some n ∧ contributions.length ≤ n) : h.Contributes contributions := by
  have hquery : h.query.filter = filter ∧ h.query.options = options := by
    rw [ht.query]
    exact ⟨rfl, rfl⟩
  refine ⟨hitems, hdistinct, fun e he => ?_, fun n hn => ?_⟩
  · rw [hquery.1]
    exact (hflow.handedOut_subperm (Pipeline.held_ofPlan plan window filter.accepts)).2 (.ok e.2)
      (hitems ▸ List.mem_map_of_mem he)
  · rw [hquery.2] at hn
    rcases hlimit with howed | ⟨m, hm, hle⟩
    · simpa [hitems] using hflow.length_le (howed.trans hn)
    · obtain rfl : m = n := by simpa [hm] using hn
      exact hle

/-- A query that was first polled over a catalog and a store without faults, and
whose lookups met none, hands out documents of the store if it scans, and
documents that its lookups found otherwise. -/
theorem Told.contributions (ht : h.Told filter options id now) {c : Catalog} {s : Store}
    {held : String → Bool} {window time : Nat}
    (hfirst : h.first = some ⟨c.index, s.view, held, window, time⟩)
    (hfound : ∀ l ∈ h.lookups, ∀ fault, l.found ≠ .error fault) :
    ∃ contributions, h.Contributes contributions ∧ ∃ route, h.route? = some route ∧
      ∀ e ∈ contributions, if route.isFullScan then s.get? e.1 = some e.2
        else ⟨e.1, .ok (some e.2)⟩ ∈ h.lookups := by
  obtain ⟨plan, p, came, hsourced, hroute, hflow⟩ := ht.planned hfirst
  have hheld := Pipeline.held_ofPlan plan window filter.accepts
  rcases hsourced with ⟨hscan, hcandidates, hlimit⟩ | ⟨references, hscan, hcandidates, hlimit⟩
  · have hsource : (Pipeline.ofPlan plan window filter.accepts).source =
        .snapshot (s.live.map fun e => .ok e.2) := by
      simp [Pipeline.ofPlan, hcandidates]
    obtain ⟨_, hsub⟩ := hflow.of_snapshot hheld hsource
    obtain ⟨contributions, hcontributions, hitems⟩ := exists_map_of_subperm hsub
    have hdistinct := nodup_of_subperm hcontributions s.nodup_live
    refine ⟨contributions, ht.contributes hflow hitems hdistinct (.inl hlimit), _, hroute,
      fun e he => ?_⟩
    rw [if_pos hscan]
    exact Store.mem_live.mp (hcontributions.subset he)
  · have hsource : (Pipeline.ofPlan plan window filter.accepts).source =
        .resolution (.ofIds plan.preserveOrder window
          ((references.filterMap Reference.documentId?).eraseDups.map .ok)) := by
      simp [Pipeline.ofPlan, hcandidates, distinctIds_map_ok]
    obtain ⟨hleading, hsub⟩ := hflow.of_ids hheld hsource
    rw [Lookup.items_of_found hfound] at hsub
    obtain ⟨contributions, hcontributions, hitems⟩ := exists_map_of_subperm hsub
    -- No id was looked up twice, so none has found two documents.
    have hdistinct := nodup_of_subperm hcontributions
      (((nodup_eraseDups _).sublist hleading.sublist).sublist (Lookup.entries_sublist h.lookups))
    have hfewer : contributions.length ≤
        (references.filterMap Reference.documentId?).eraseDups.length :=
      calc contributions.length ≤ (h.lookups.filterMap Lookup.pair?).length :=
            hcontributions.length_le
        _ ≤ h.lookups.length := List.length_filterMap_le _ _
        _ = (h.lookups.map Lookup.id).length := (List.length_map _).symm
        _ ≤ (references.filterMap Reference.documentId?).eraseDups.length := hleading.length_le
    have hkept : plan.postLimit = options.limit ∨
        ∃ n, options.limit = some n ∧ contributions.length ≤ n := by
      rcases hlimit with hlimit | ⟨n, hn, hle⟩
      · exact .inl hlimit
      · exact .inr ⟨n, hn, hfewer.trans hle⟩
    refine ⟨contributions, ht.contributes hflow hitems hdistinct hkept, _, hroute, fun e he => ?_⟩
    rw [if_neg (by simp [hscan])]
    obtain ⟨l, hl, hpair⟩ := List.mem_filterMap.mp (hcontributions.subset he)
    exact Lookup.eq_of_pair? hpair ▸ hl

end Contributions

end Query.History

end DocQuery
