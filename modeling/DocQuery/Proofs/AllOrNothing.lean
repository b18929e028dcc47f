import DocQuery.Proofs.Batch
import DocQuery.Proofs.Planning

/-!
# Sorted results are all or nothing

A sort hands nothing out before its source has ended, so a fault that draining
the candidates meets comes before every document, and is then the only item.
Candidates come from an index, a scan and lookups, and each of them can hold
faults (`Plan.MeetsFault`); without any the candidates come to a list of
documents (`Plan.found`).

* `Plan.mem_drained_error` — the faults among what a plan drains;
* `Plan.drained_eq` — without faults it drains what its candidates come to;
* `owes_fault` — with a fault the stages of a sort owe one fault and nothing else;
* `sorted_all_or_nothing` — so a query with a sort owed hands out either one fault
  or the whole of its result.
-/

namespace DocQuery

/-! ## What a plan drains -/

namespace Plan

variable {lookup : String → Except Fault (Option Document)} {plan : Plan}

/-- A fault that draining the candidates of a plan may meet: in place of a scanned
document, in place of a reference, or found by the lookup of an id that a
reference names. -/
inductive MeetsFault (lookup : String → Except Fault (Option Document)) (plan : Plan)
    (fault : Fault) : Prop
  | scanned {documents : List (Except Fault Document)}
      (hcandidates : plan.candidates = .documents documents) (hfault : .error fault ∈ documents)
  | listed {references : List (Except Fault Reference)}
      (hcandidates : plan.candidates = .references references)
      (hfault : .error fault ∈ references)
  | looked {references : List (Except Fault Reference)} {reference : Reference} {id : String}
      (hcandidates : plan.candidates = .references references)
      (hreference : .ok reference ∈ references) (hid : reference.documentId? = some id)
      (hfault : lookup id = .error fault)

/-- The documents that the candidates of a plan come to: those scanned, or those
found under the ids that the references name, each looked up once. -/
def found (lookup : String → Except Fault (Option Document)) (plan : Plan) : List Document :=
  match plan.candidates with
  | .documents documents => documents.filterMap Except.toOption
  | .references references =>
    (references.filterMap fun
      | .ok reference => reference.documentId?
      | .error _ => none).eraseDups.filterMap fun id => (lookup id).toOption.join

/-- The items that the candidates of a plan come to, faults included. -/
def drained (lookup : String → Except Fault (Option Document)) (plan : Plan) :
    List (Except Fault Document) :=
  match plan.candidates with
  | .documents documents => documents
  | .references references =>
    (distinctIds references).filterMap fun a => delivered (Resolution.outcomeOf lookup a)

theorem mem_drained_error {fault : Fault} :
    .error fault ∈ plan.drained lookup ↔ plan.MeetsFault lookup fault := by
  have hdelivered : ∀ outcome, delivered outcome = some (.error fault) ↔
      outcome = .error fault := by
    rintro (f | _ | document) <;> simp [delivered]
  unfold drained
  constructor
  · intro h
    cases hcandidates : plan.candidates with
    | documents documents =>
        rw [hcandidates] at h
        exact .scanned hcandidates h
    | references references =>
        rw [hcandidates] at h
        obtain ⟨named, hnamed, houtcome⟩ := List.mem_filterMap.mp h
        rw [hdelivered] at houtcome
        cases named with
        | error f =>
            cases houtcome
            exact .listed hcandidates (mem_distinctIds_error.mp hnamed)
        | ok id =>
            obtain ⟨reference, hreference, hid⟩ := mem_distinctIds_ok.mp hnamed
            exact .looked hcandidates hreference hid houtcome
  · rintro (⟨hcandidates, hfault⟩ | ⟨hcandidates, hfault⟩ | ⟨hcandidates, hreference, hid, hfault⟩)
    all_goals rw [hcandidates]
    · exact hfault
    · exact List.mem_filterMap.mpr
        ⟨.error fault, mem_distinctIds_error.mpr hfault, (hdelivered _).mpr rfl⟩
    · exact List.mem_filterMap.mpr
        ⟨.ok _, mem_distinctIds_ok.mpr ⟨_, hreference, hid⟩, (hdelivered _).mpr hfault⟩

/-- Documents are all kept. -/
theorem filterMap_toOption (documents : List Document) :
    (documents.map (.ok : Document → Except Fault Document)).filterMap Except.toOption =
      documents := by
  rw [List.filterMap_map]
  exact List.filterMap_some

/-- Without faults the candidates stand for the documents that they come to. -/
theorem standsFor_found (h : ∀ fault, ¬ plan.MeetsFault lookup fault) :
    plan.StandsFor (fun id => (lookup id).toOption.join) (plan.found lookup) := by
  unfold StandsFor found
  cases hcandidates : plan.candidates with
  | documents documents =>
      obtain ⟨values, rfl⟩ :=
        exists_map_ok fun fault hfault => h fault (.scanned hcandidates hfault)
      exact Or.inl (by simp only [filterMap_toOption])
  | references references =>
      obtain ⟨values, rfl⟩ :=
        exists_map_ok fun fault hfault => h fault (.listed hcandidates hfault)
      exact Or.inr ⟨values, rfl, by simp [List.filterMap_map]⟩

/-- Without faults a plan drains the documents that its candidates come to. -/
theorem drained_eq (h : ∀ fault, ¬ plan.MeetsFault lookup fault) :
    plan.drained lookup = (plan.found lookup).map .ok := by
  obtain hdocuments | ⟨references, hreferences, hfound⟩ := standsFor_found h
  · unfold drained
    rw [hdocuments]
  · unfold drained
    rw [hreferences, hfound]
    dsimp only
    rw [distinctIds_map_ok, List.filterMap_map, List.map_filterMap]
    refine List.filterMap_congr fun id hid => ?_
    obtain ⟨reference, hreference, hnamed⟩ := List.mem_filterMap.mp (List.mem_eraseDups.mp hid)
    cases hlookup : lookup id with
    | error fault =>
        exact absurd (.looked hreferences (List.mem_map_of_mem hreference) hnamed hlookup) (h fault)
    | ok found => cases found <;> simp [Resolution.outcomeOf, delivered, hlookup, Except.toOption]

end Plan

/-! ## What the stages of a sort owe -/

section Stages

variable {lookup : String → Except Fault (Option Document)} {accepts : Document → Bool}
  {plan : Plan} {window : Nat}

/-- The stages of a plan await what it drains and the filter lets through. -/
theorem awaited_drained : (Pipeline.ofPlan plan window accepts).awaited lookup =
    (plan.drained lookup).filter (passes accepts) := by
  cases hcandidates : plan.candidates with
  | documents documents =>
      simp [Pipeline.awaited, Pipeline.ofPlan, Plan.drained, hcandidates, Source.awaited,
        Source.owed]
  | references references =>
      simp [Pipeline.awaited, Pipeline.ofPlan, Plan.drained, hcandidates, Source.awaited,
        Source.owed, Resolution.owed, Resolution.ofIds, Resolution.idle, List.filterMap_map]

/-- Whatever the candidates of a plan are, its source may go on. -/
theorem sound_unordered : (Pipeline.ofPlan plan window accepts).source.Sound false := by
  cases hcandidates : plan.candidates with
  | documents documents => simp [Pipeline.ofPlan, hcandidates, Source.Sound]
  | references references =>
      simp only [Pipeline.ofPlan, hcandidates]
      exact ⟨Resolution.sound_ofIds fun h => absurd h Bool.false_ne_true, rfl⟩

/-- **A fault alone.**  If draining the candidates meets a fault, the stages of a sort
owe one such fault and nothing else, in whatever order items arrive. -/
theorem owes_fault {sort : SortBy} (hsort : plan.sort = some sort)
    (hlimit : plan.postLimit ≠ some 0) (hfault : ∃ fault, plan.MeetsFault lookup fault)
    {items : List (Except Fault Document)}
    (howes : (Pipeline.ofPlan plan window accepts).Owes false lookup items) :
    ∃ fault, plan.MeetsFault lookup fault ∧ items = [.error fault] := by
  obtain ⟨arrived, harrives, rfl⟩ := howes
  rw [awaited_drained] at harrives
  have hmem : ∀ fault, .error fault ∈ arrived ↔ plan.MeetsFault lookup fault := by
    intro fault
    rw [← harrives.perm.mem_iff, ← Plan.mem_drained_error]
    simp [passes]
  cases hgather : gather arrived with
  | ok documents =>
      obtain ⟨fault, hfault⟩ := hfault
      have hnone := (hmem fault).mpr hfault
      simp [gather_eq_ok_iff.mp hgather] at hnone
  | error fault =>
      obtain ⟨before, after, harrived⟩ := gather_eq_error_iff.mp hgather
      refine ⟨fault, (hmem fault).mp (by simp [harrived]), ?_⟩
      simp only [Pipeline.evaluate, Pipeline.ofPlan, hsort, Sorting.outcome, hgather]
      cases hpost : plan.postLimit with
      | none => rfl
      | some limit =>
          cases limit with
          | zero => exact absurd hpost hlimit
          | succ limit => simp [takeUpTo]

/-- Without faults the stages of a plan owe the batch, if items arrive in order. -/
theorem owes_found (h : ∀ fault, ¬ plan.MeetsFault lookup fault)
    {items : List (Except Fault Document)}
    (howes : (Pipeline.ofPlan plan window accepts).Owes true lookup items) :
    items = (plan.batch accepts (plan.found lookup)).map .ok := by
  obtain ⟨arrived, harrives, rfl⟩ := howes
  have hpasses : ((plan.found lookup).map .ok).filter (passes accepts) =
      ((plan.found lookup).filter accepts).map .ok := by
    rw [List.filter_map]
    rfl
  rw [awaited_drained, Plan.drained_eq h, hpasses] at harrives
  have harrived : _ = arrived := harrives
  rw [← harrived, evaluate_ofPlan]

end Stages

/-! ## Queries -/

/-- A plan that owes a sort owes it to the query, keeps the order of its candidates, and
owes the limit. -/
theorem Plan.owes_of_sort {index : Index} {store : StoreView} {filter : Filter}
    {options : Options} {plan : Plan} {sort : SortBy}
    (hplan : (Plan.choose index store filter options).outcome = .ok plan)
    (hsort : plan.sort = some sort) :
    options.sort = some sort ∧ plan.postLimit = options.limit ∧ plan.keepsOrder = true := by
  have hobliged := obliged_of_choose index store filter options hplan
  have hroute : plan.route ≠ .probeSatisfied := by
    intro hroute
    obtain ⟨references, hprobed, hlimit⟩ := hobliged.satisfied_iff.mp hroute
    have hnone := (hobliged.satisfied references hprobed hlimit).2.1
    rw [hsort] at hnone
    cases hnone
  have hasked : options.sort = some sort := (hobliged.sort hroute).symm.trans hsort
  refine ⟨hasked, ?_, ?_⟩
  · rcases hobliged.limit hroute with ⟨hlimit, _⟩ | ⟨_, hnone, _⟩
    · exact hlimit
    · rw [hasked] at hnone
      cases hnone
  · unfold keepsOrder
    cases hcandidates : plan.candidates with
    | documents documents => rfl
    | references references =>
        simpa [hasked] using hobliged.preserveOrder references hcandidates

/-- **Sorted results are all or nothing.**  Let the plan of a query owe a sort, and the
limit be absent or at least one.  If draining the candidates meets a fault, in
place of a reference or of a scanned document or in a lookup, the query hands out
one such fault and nothing else, and no document at any time, whatever the
schedule of polls and the order of completion.  Otherwise it hands out all
documents that the candidates come to and the index accepts, sorted and cut off
at the limit. -/
theorem sorted_all_or_nothing {s : Setting} {filter : Filter} {options : Options} {plan : Plan}
    {sort : SortBy} (hplan : (Plan.choose s.index s.store filter options).outcome = .ok plan)
    (hsort : plan.sort = some sort) (hlimit : options.limit ≠ some 0) :
    options.sort = some sort ∧
      ((∃ fault, plan.MeetsFault s.store.lookup fault) →
        s.Concludes filter options
            (fun items => ∃ fault, plan.MeetsFault s.store.lookup fault ∧ items = [.error fault]) ∧
          ∀ id now j turns document,
            .ok document ∉ handedOut (s.answers filter options id now j turns)) ∧
      ((∀ fault, ¬ plan.MeetsFault s.store.lookup fault) →
        s.Delivers filter options (· = takeUpTo options.limit
          (sort.apply ((plan.found s.store.lookup).filter (s.index.accepts filter))))) := by
  obtain ⟨hasked, hpost, hkept⟩ := Plan.owes_of_sort hplan hsort
  have hpipeline : s.pipeline filter options =
      .ofPlan plan s.window (s.index.accepts filter) := by
    rw [Setting.pipeline, hplan]
  refine ⟨hasked, fun hfault => ?_, fun hnone => ?_⟩
  · have hconcludes : s.Concludes filter options
        (fun items => ∃ fault, plan.MeetsFault s.store.lookup fault ∧ items = [.error fault]) := by
      apply Setting.concludes_of_owes (hpipeline ▸ sound_unordered)
      intro items howes
      rw [hpipeline] at howes
      exact owes_fault hsort (hpost ▸ hlimit) hfault howes
    refine ⟨hconcludes, fun id now j turns document => hconcludes.never ?_ id now j turns⟩
    rintro items ⟨fault, _, rfl⟩
    simp
  · have hsound : (Pipeline.ofPlan plan s.window (s.index.accepts filter)).source.Sound
        plan.keepsOrder := sound_ofPlan (Plan.standsFor_found hnone) s.window
    rw [hkept] at hsound
    apply Setting.concludes_of_owes (hpipeline ▸ hsound)
    intro items howes
    rw [hpipeline] at howes
    refine ⟨_, owes_found hnone howes, ?_⟩
    rw [Plan.batch, hsort, hpost]

/-- Two documents, the second without an age. -/
def oneAged : Store :=
  .ofDocuments [("a", .object [("age", .number (.ofNat 7))]), ("b", .object [])]

/-- Of an index that meets a fault after two references this fault alone is handed out,
although documents are stored under both; without faults the document without an age is
handed out last, although its reference comes first. -/
theorem sorted_all_or_nothing_faultThird :
    Setting.Concludes ⟨Plan.faultThird.index, twoBooleans.view, 2⟩ .all
        ⟨some ⟨"age", .ascending⟩, none⟩ (· = [.error (.index "torn")]) ∧
      (∀ id now j turns document, .ok document ∉ handedOut
        (Setting.answers ⟨Plan.faultThird.index, twoBooleans.view, 2⟩ .all
          ⟨some ⟨"age", .ascending⟩, none⟩ id now j turns)) ∧
      Setting.Delivers ⟨twiceNaming.index, oneAged.view, 2⟩ .all ⟨some ⟨"age", .ascending⟩, none⟩
        (· = [.object [("age", .number (.ofNat 7))], .object []]) := by
  have hplan : (Plan.choose Plan.faultThird.index twoBooleans.view .all
      ⟨some ⟨"age", .ascending⟩, none⟩).outcome =
      .ok (Plan.general Plan.faultThird.index twoBooleans.view .all
        (some ⟨"age", .ascending⟩) none) := rfl
  have honly : ∀ fault, (Plan.general Plan.faultThird.index twoBooleans.view .all
      (some ⟨"age", .ascending⟩) none).MeetsFault twoBooleans.view.lookup fault →
        fault = .index "torn" := by
    rintro fault (⟨hcandidates, _⟩ | ⟨hcandidates, hfault⟩ | ⟨_, _, _, hfault⟩)
    · cases hcandidates
    · cases hcandidates
      simpa [Plan.faultThird] using hfault
    · cases hfault
  have hplan' : (Plan.choose twiceNaming.index oneAged.view .all
      ⟨some ⟨"age", .ascending⟩, none⟩).outcome =
      .ok (Plan.general twiceNaming.index oneAged.view .all (some ⟨"age", .ascending⟩) none) :=
    rfl
  have hnone : ∀ fault, ¬ (Plan.general twiceNaming.index oneAged.view .all
      (some ⟨"age", .ascending⟩) none).MeetsFault oneAged.view.lookup fault := by
    rintro fault (⟨hcandidates, _⟩ | ⟨hcandidates, hfault⟩ | ⟨_, _, _, hfault⟩)
    · cases hcandidates
    · cases hcandidates
      simp [twiceNaming] at hfault
    · cases hfault
  obtain ⟨_, halone, _⟩ := sorted_all_or_nothing
    (s := ⟨Plan.faultThird.index, twoBooleans.view, 2⟩) hplan rfl nofun
  obtain ⟨hconcludes, hnever⟩ := halone ⟨.index "torn",
    .listed rfl (by simp [Plan.faultThird])⟩
  obtain ⟨_, _, hwhole⟩ := sorted_all_or_nothing
    (s := ⟨twiceNaming.index, oneAged.view, 2⟩) hplan' rfl nofun
  refine ⟨⟨fun id now j turns hended => ?_, hconcludes.progress⟩, hnever, ?_⟩
  · obtain ⟨fault, hmeets, hitems⟩ := hconcludes.result id now j turns hended
    rw [hitems, honly fault hmeets]
  · have hafter : SortBy.admits ⟨"age", .ascending⟩ (.object [])
        (.object [("age", .number (.ofNat 7))]) = false := rfl
    refine (hwhole hnone).imp fun documents hdocuments => hdocuments.trans ?_
    show SortBy.apply ⟨"age", .ascending⟩ [.object [], .object [("age", .number (.ofNat 7))]] = _
    simp [SortBy.apply, List.mergeSort, List.MergeSort.Internal.splitInTwo, hafter]

end DocQuery
