import DocQuery.Index.Scripted
import DocQuery.Proofs.Sightings
import DocQuery.Proofs.Turns

/-!
# The stream and the batch

A query could be answered at once: look up every document that the
candidates of its plan name, keep those that the index accepts, sort them,
and cut the rest off.  `Plan.batch` says so.  The stream does the same by
windows of lookups that finish in any order, and hands out nothing else
(`streams_batch`); with a sort the order of completion does not show.

* `Plan.StandsFor` — the documents that the candidates of a plan stand for;
* `concludes_of_plan` — a query concludes with the batch over some arrival
  of these documents, in their order if the plan keeps it.
-/

namespace DocQuery

/-! ## What a plan makes of its candidates -/

namespace Plan

/-- What a plan calls for at once: the accepted documents, sorted if a sort is
owed, and as many of them as a limit that is owed allows. -/
def batch (plan : Plan) (accepts : Document → Bool) (documents : List Document) : List Document :=
  takeUpTo plan.postLimit <|
    match plan.sort with
    | some sort => sort.apply (documents.filter accepts)
    | none => documents.filter accepts

/-- The documents that candidates stand for: those of the scan, or those found
under the distinct ids that the references name, in the order first named. -/
def StandsFor (find : String → Option Document) (plan : Plan) (documents : List Document) : Prop :=
  plan.candidates = .documents (documents.map .ok) ∨
    ∃ references : List Reference, plan.candidates = .references (references.map .ok) ∧
      documents = ((references.filterMap Reference.documentId?).eraseDups).filterMap find

/-- Whether the documents of a plan arrive in the order of its candidates. -/
def keepsOrder (plan : Plan) : Bool :=
  match plan.candidates with
  | .documents _ => true
  | .references _ => plan.preserveOrder

end Plan

section Batch

variable {find : String → Option Document} {accepts : Document → Bool} {plan : Plan}
  {documents : List Document}

/-- The source of a plan without faults may go on. -/
theorem sound_ofPlan (h : plan.StandsFor find documents) (window : Nat) :
    (Pipeline.ofPlan plan window accepts).source.Sound plan.keepsOrder := by
  obtain hplan | ⟨references, hplan, _⟩ := h
  · simp [Pipeline.ofPlan, hplan, Source.Sound]
  · simp only [Pipeline.ofPlan, Plan.keepsOrder, hplan]
    refine ⟨Resolution.sound_ofIds fun horder => ⟨horder, ?_⟩, rfl⟩
    rw [distinctIds_map_ok]
    exact List.forall_mem_map.mpr fun id _ => ⟨id, rfl⟩

/-- The source of a plan owes the documents that its candidates stand for. -/
theorem awaited_ofPlan (h : plan.StandsFor find documents) (window : Nat) :
    (Pipeline.ofPlan plan window accepts).awaited (fun id => .ok (find id)) =
      (documents.filter accepts).map .ok := by
  have hpasses : (documents.map .ok).filter (passes accepts) =
      (documents.filter accepts).map .ok := by
    rw [List.filter_map]
    rfl
  obtain hplan | ⟨references, hplan, rfl⟩ := h
  · simpa [Pipeline.awaited, Pipeline.ofPlan, hplan, Source.awaited, Source.owed] using hpasses
  · rw [← hpasses]
    simp only [Pipeline.awaited, Pipeline.ofPlan, hplan, Source.awaited, Source.owed,
      Resolution.owed, Resolution.ofIds, Resolution.idle, distinctIds_map_ok]
    congr 1
    simp [List.filterMap_map, List.map_filterMap, Resolution.outcomeOf, delivered,
      Function.comp_def]

/-- Without faults the stages of a plan make of what arrives what the batch does. -/
theorem evaluate_ofPlan (window : Nat) (arrived : List Document) :
    (Pipeline.ofPlan plan window accepts).evaluate ((arrived.filter accepts).map .ok) =
      (plan.batch accepts arrived).map .ok := by
  cases hsort : plan.sort with
  | none => simp [Pipeline.evaluate, Pipeline.ofPlan, hsort, Sorting.outcome, untilFault_map_ok,
      map_takeUpTo, Plan.batch]
  | some sort => simp [Pipeline.evaluate, Pipeline.ofPlan, hsort, Sorting.outcome, gather_map_ok,
      map_takeUpTo, Plan.batch]

/-- What the stages of a plan owe is the batch over some arrival. -/
theorem owes_ofPlan (h : plan.StandsFor find documents) {window : Nat}
    {items : List (Except Fault Document)}
    (howes : (Pipeline.ofPlan plan window accepts).Owes plan.keepsOrder
      (fun id => .ok (find id)) items) :
    ∃ arrived, Arrives plan.keepsOrder documents arrived ∧
      items = (plan.batch accepts arrived).map .ok := by
  obtain ⟨outcomes, harrives, rfl⟩ := howes
  rw [awaited_ofPlan h] at harrives
  obtain ⟨came, hcame, rfl⟩ := harrives.exists_map (g := Except.toOption) fun _ => rfl
  obtain ⟨arrived, harrived, rfl⟩ := hcame.exists_filter
  exact ⟨arrived, harrived, evaluate_ofPlan window arrived⟩

/-- A query delivers the batch over some arrival of the documents that its
plan's candidates stand for. -/
theorem delivers_of_plan {s : Setting} {filter : Filter} {options : Options}
    {post : List Document → Prop}
    (hplan : (Plan.choose s.index s.store filter options).outcome = .ok plan)
    (hlookup : s.store.lookup = fun id => .ok (find id)) (h : plan.StandsFor find documents)
    (hpost : ∀ arrived, Arrives plan.keepsOrder documents arrived →
      post (plan.batch (s.index.accepts filter) arrived)) :
    s.Delivers filter options post := by
  have hpipeline : s.pipeline filter options =
      .ofPlan plan s.window (s.index.accepts filter) := by
    rw [Setting.pipeline, hplan]
  apply Setting.concludes_of_owes (hpipeline ▸ sound_ofPlan h s.window)
  intro items howes
  rw [hpipeline, hlookup] at howes
  obtain ⟨arrived, harrived, rfl⟩ := owes_ofPlan h howes
  exact ⟨_, rfl, hpost arrived harrived⟩

end Batch

/-! ## Indexes and stores without faults -/

/-- An index whose answers hold no faults. -/
def Index.Faultless (index : Index) : Prop :=
  ∀ request answer, index.ask request = some answer →
    ∃ references : List Reference, answer.references = references.map .ok

/-- A store without faults: what is found under each id, and the entries of a
scan in ascending order. -/
structure StoreView.Steady (store : StoreView) (find : String → Option Document)
    (entries : List Entry) : Prop where
  lookups : store.lookup = fun id => .ok (find id)
  scans : store.scan .everything = entries.map .ok
  ascending : entries.Pairwise fun a b => a.id < b.id

/-- The stored documents meet no fault. -/
theorem Store.view_steady (s : Store) : s.view.Steady s.get? (s.scan .everything) where
  lookups := rfl
  scans := rfl
  ascending := List.pairwise_map.mpr s.entries.sorted

/-- The documents that a plan is about: on a scan those that are not deleted,
in ascending order of their ids, and otherwise those found by looking up each
id that the references end in once, in the order first named. -/
def Plan.subjects (find : String → Option Document) (entries : List Entry) (plan : Plan) :
    List Document :=
  match plan.candidates with
  | .documents _ => entries.filterMap Entry.document
  | .references references =>
    (references.filterMap fun
      | .ok reference => reference.documentId?
      | .error _ => none).eraseDups.filterMap find

section Choose

variable {index : Index} {store : StoreView} {find : String → Option Document}
  {entries : List Entry}

/-- References without faults stand for the documents they name. -/
theorem standsFor_references {plan : Plan} {references : List Reference}
    (h : plan.candidates = .references (references.map .ok)) :
    plan.StandsFor find (plan.subjects find entries) := by
  refine Or.inr ⟨references, h, ?_⟩
  simp [Plan.subjects, h, List.filterMap_map]

/-- A scan without faults stands for the documents that are not deleted. -/
theorem standsFor_scanned (hstore : store.Steady find entries) {plan : Plan}
    (h : plan.candidates = .documents (Plan.scanned store)) :
    plan.StandsFor find (plan.subjects find entries) := by
  have hscanned : Plan.scanned store = (entries.filterMap Entry.document).map .ok := by
    simp [Plan.scanned, hstore.scans, List.filterMap_map, List.map_filterMap]
  refine Or.inl ?_
  rw [h, hscanned]
  simp [Plan.subjects, h]

/-- The general route chooses a plan for documents, in their order if a sort is owed. -/
theorem general_standsFor (hindex : index.Faultless) (hstore : store.Steady find entries)
    (filter : Filter) (sort : Option SortBy) (limit : Option Nat) :
    (Plan.general index store filter sort limit).StandsFor find
        ((Plan.general index store filter sort limit).subjects find entries) ∧
      (sort.isSome = true → (Plan.general index store filter sort limit).keepsOrder = true) := by
  unfold Plan.general
  cases hask : index.ask (Plan.generalRequest filter sort limit) with
  | none => exact ⟨standsFor_scanned hstore rfl, fun _ => rfl⟩
  | some answer =>
      obtain ⟨references, hreferences⟩ := hindex _ _ hask
      exact ⟨standsFor_references (congrArg Candidates.references hreferences), fun hsort => hsort⟩

/-- With a sort and a limit the references of a satisfied probe are the
candidates, or else those of the general route without the limit. -/
theorem choose_probing (hindex : index.Faultless) (store : StoreView) (filter : Filter)
    (sort : SortBy) (limit : Nat) :
    (∃ references, Probe.run index filter sort limit = .ok (.satisfied references) ∧
        (Plan.choose index store filter ⟨some sort, some limit⟩).outcome =
          .ok (.ofProbe references)) ∨
      (Plan.choose index store filter ⟨some sort, some limit⟩).outcome =
        .ok (.afterProbe index store filter sort limit) := by
  obtain ⟨probe, hprobe⟩ : ∃ probe, Probe.run index filter sort limit = .ok probe := by
    unfold Probe.run
    cases hask : index.ask (Probe.request filter sort limit) with
    | none => exact ⟨_, rfl⟩
    | some answer =>
        obtain ⟨references, hreferences⟩ := hindex _ _ hask
        simp [Probe.judge, hreferences, ← List.map_take, gather_map_ok]
  cases probe with
  | satisfied references => exact Or.inl ⟨references, hprobe, by simp [Plan.choose, hprobe]⟩
  | insufficient found => exact Or.inr (by simp [Plan.choose, hprobe])
  | notApplicable => exact Or.inr (by simp [Plan.choose, hprobe])

/-- Without faults a plan is chosen, and its candidates stand for documents, in
their order if the query sorts. -/
theorem exists_plan (hindex : index.Faultless) (hstore : store.Steady find entries)
    (filter : Filter) (options : Options) :
    ∃ plan, (Plan.choose index store filter options).outcome = .ok plan ∧
      plan.StandsFor find (plan.subjects find entries) ∧
      (options.sort.isSome = true → plan.keepsOrder = true) := by
  obtain ⟨sort, limit⟩ := options
  rcases sort with _ | sort
  · exact ⟨_, rfl, general_standsFor hindex hstore filter none limit⟩
  rcases limit with _ | limit
  · exact ⟨_, rfl, general_standsFor hindex hstore filter (some sort) none⟩
  rcases choose_probing hindex store filter sort limit with ⟨references, _, hplan⟩ | hplan
  · exact ⟨_, hplan, standsFor_references rfl, fun _ => rfl⟩
  · exact ⟨_, hplan, general_standsFor hindex hstore filter (some sort) none⟩

/-- **The stream refines the batch.**  Whatever an index answers and matches,
over a store that stays as it is, every query that is polled to its end hands
out the batch of its plan over the documents the plan is about, in their order
or, for references without a sort, in some order.  So the documents of a query
with a sort depend neither on the window nor on the order of completion. -/
theorem streams_batch (hindex : index.Faultless) (hstore : store.Steady find entries)
    (filter : Filter) (options : Options) :
    ∃ plan, (Plan.choose index store filter options).outcome = .ok plan ∧
      (∀ window, Setting.Delivers ⟨index, store, window⟩ filter options fun documents =>
        ∃ arrived, Arrives plan.keepsOrder (plan.subjects find entries) arrived ∧
          documents = plan.batch (index.accepts filter) arrived) ∧
      (options.sort.isSome = true → ∀ window,
        Setting.Delivers ⟨index, store, window⟩ filter options
          (· = plan.batch (index.accepts filter) (plan.subjects find entries))) := by
  obtain ⟨plan, hplan, hstands, hsorted⟩ := exists_plan hindex hstore filter options
  refine ⟨plan, hplan, ?_, ?_⟩
  · intro window
    exact delivers_of_plan (s := ⟨index, store, window⟩) hplan hstore.lookups hstands
      fun arrived harrived => ⟨arrived, harrived, rfl⟩
  · intro hsort window
    apply delivers_of_plan (s := ⟨index, store, window⟩) hplan hstore.lookups hstands
    intro arrived harrived
    rw [hsorted hsort] at harrived
    exact (congrArg (plan.batch _) harrived).symm

end Choose

/-- An index that names the second of two documents twice. -/
def twiceNaming : Scripted :=
  ⟨.nothing, [.ok ⟨["x", "b"]⟩, .ok ⟨["a"]⟩, .ok ⟨["y", "b"]⟩], false, .all⟩

/-- Two documents. -/
def twoBooleans : Store := .ofDocuments [("a", .bool true), ("b", .bool false)]

/-- A document named twice is handed out once. -/
theorem streams_batch_twiceNaming :
    twiceNaming.index.Faultless ∧
      twoBooleans.view.Steady twoBooleans.get? (twoBooleans.scan .everything) ∧
      ∀ window, Setting.Delivers ⟨twiceNaming.index, twoBooleans.view, window⟩ .all ⟨none, none⟩
        (·.Perm [.bool false, .bool true]) := by
  have hindex : twiceNaming.index.Faultless := by
    intro request answer hask
    cases hask
    exact ⟨[⟨["x", "b"]⟩, ⟨["a"]⟩, ⟨["y", "b"]⟩], rfl⟩
  have hstore := twoBooleans.view_steady
  refine ⟨hindex, hstore, ?_⟩
  intro window
  obtain ⟨plan, hplan, hdelivers, _⟩ := streams_batch hindex hstore .all ⟨none, none⟩
  cases hplan
  apply (hdelivers window).imp
  intro documents hdocuments
  obtain ⟨arrived, harrived, rfl⟩ := hdocuments
  have hall : arrived.filter (twiceNaming.index.accepts .all) = arrived :=
    List.filter_eq_self.mpr fun _ _ => rfl
  have hperm : [Json.bool false, .bool true].Perm arrived := harrived
  exact (hall ▸ hperm.symm :)

end DocQuery
