import DocQuery.Index.Scripted
import DocQuery.Plan.Choose

/-!
# What plans owe

Nothing is assumed of the index here: its answers may hold faults, and it may
say that it has applied a limit or decline as it likes.

With a sort and a limit the index is probed, and what it answers settles the
choice or leaves it open (`Options.settled?`).  The first fault among the
references that the limit lets through is the outcome
(`settled?_eq_error_iff`); if there are as many references as the limit
allows, the plan is these references (`settled?_eq_ok_iff`).  All that is left
open goes the general route (`choose_eq`), and its plan owes the sort, and the
limit unless the index was asked for it and has applied it
(`fallback_obliged`).

So a plan is obliged to what the query asks for and to nothing else, and to
choose it the index and the store are asked for no more than that takes
(`choose_obliged`).
-/

namespace DocQuery

namespace Options

/-- What a probe finds: with a sort and a limit, the first references, as many as the
limit allows, to documents that match and define the attribute, in order of it. -/
def probed? (options : Options) (index : Index) (filter : Filter) :
    Option (List (Except Fault Reference)) :=
  match options.sort, options.limit with
  | some sort, some limit =>
    (index.ask ⟨filter.requiring sort.field, some limit, sort.isReverse, some sort.field⟩).map
      fun answer => answer.references.take limit
  | _, _ => none

/-- What the general route asks for: a limit only if there is no sort. -/
def general (options : Options) (filter : Filter) : Request where
  filter := filter
  limit := if options.sort.isSome then none else options.limit
  reverse := options.sort.any SortBy.isReverse
  orderBy := none

/-- The index has applied the limit of a query: the general route has asked it to,
and it says so. -/
def AppliedBy (options : Options) (index : Index) (filter : Filter) : Prop :=
  ∃ limit answer, options.limit = some limit ∧ (options.general filter).limit = some limit ∧
    index.ask (options.general filter) = some answer ∧ answer.limitApplied = true

end Options

/-- What a plan is obliged to, however the index behaves. -/
structure Plan.Obliged (plan : Plan) (index : Index) (store : StoreView) (filter : Filter)
    (options : Options) : Prop where
  /-- a probe is satisfied exactly if as many references are found as the limit allows -/
  satisfied_iff : plan.route = .probeSatisfied ↔ ∃ references : List Reference,
    options.probed? index filter = some (references.map .ok) ∧
      options.limit = some references.length
  /-- these are then the candidates, and nothing is owed -/
  satisfied : ∀ references : List Reference,
    options.probed? index filter = some (references.map .ok) →
      options.limit = some references.length →
        plan.candidates = .references (references.map .ok) ∧ plan.sort = none ∧
          plan.postLimit = none
  /-- otherwise the candidates are those of the general route -/
  candidates : plan.route ≠ .probeSatisfied →
    plan.candidates = match index.ask (options.general filter) with
      | some answer => .references answer.references
      | none => .documents (Plan.scanned store)
  /-- the sort is owed that the query asks for -/
  sort : plan.route ≠ .probeSatisfied → plan.sort = options.sort
  /-- the limit is owed that the query asks for, or the index has applied it and no sort
  comes after that -/
  limit : plan.route ≠ .probeSatisfied →
    plan.postLimit = options.limit ∧ ¬ options.AppliedBy index filter ∨
      plan.postLimit = none ∧ options.sort = none ∧ options.AppliedBy index filter
  /-- references are resolved in order exactly if the query asks for a sort -/
  preserveOrder : ∀ references, plan.candidates = .references references →
    plan.preserveOrder = options.sort.isSome

namespace Options

/-- What a probe settles: a fault among the references it finds, or the references if
they are as many as the limit allows. -/
def settled? (options : Options) (index : Index) (filter : Filter) :
    Option (Except Fault (List Reference)) :=
  (options.probed? index filter).bind fun found =>
    match gather found with
    | .error fault => some (.error fault)
    | .ok references =>
      if options.limit = some references.length then some (.ok references) else none

/-- What the index is asked before the general route. -/
def probes (options : Options) (filter : Filter) : List Request :=
  match options.sort, options.limit with
  | some sort, some limit => [Probe.request filter sort limit]
  | _, _ => []

/-- The plan of the general route, after a probe or without one. -/
def fallback (options : Options) (index : Index) (store : StoreView) (filter : Filter) : Plan :=
  match options.sort, options.limit with
  | some sort, some limit => Plan.afterProbe index store filter sort limit
  | sort, limit => Plan.general index store filter sort limit

section Choosing

variable (index : Index) (store : StoreView) (filter : Filter) (options : Options)

/-- A probe settles a fault exactly if it is the first among what the probe finds. -/
theorem settled?_eq_error_iff {fault : Fault} :
    options.settled? index filter = some (.error fault) ↔
      ∃ (before : List Reference) (after : List (Except Fault Reference)),
        options.probed? index filter = some (before.map .ok ++ .error fault :: after) := by
  unfold settled?
  cases options.probed? index filter with
  | none => simp
  | some found =>
      simp only [Option.bind_some, Option.some.injEq, ← gather_eq_error_iff]
      cases gather found with
      | error e => simp
      | ok references => simp

/-- A probe settles references exactly if they are all it finds and as many as the
limit allows. -/
theorem settled?_eq_ok_iff {references : List Reference} :
    options.settled? index filter = some (.ok references) ↔
      options.probed? index filter = some (references.map .ok) ∧
        options.limit = some references.length := by
  unfold settled?
  cases options.probed? index filter with
  | none => simp
  | some found =>
      simp only [Option.bind_some, Option.some.injEq, ← gather_eq_ok_iff]
      cases gather found with
      | error e => simp
      | ok all =>
          simp only [Option.ite_none_right_eq_some, Option.some.injEq, Except.ok.injEq]
          exact ⟨fun ⟨hlimit, hall⟩ => ⟨hall, hall ▸ hlimit⟩,
            fun ⟨hall, hlimit⟩ => ⟨hall ▸ hlimit, hall⟩⟩

/-- What a probe settles is the outcome; otherwise the plan is that of the general
route. -/
theorem choose_eq :
    Plan.choose index store filter options =
      match options.settled? index filter with
      | some outcome => ⟨options.probes filter, outcome.map Plan.ofProbe⟩
      | none =>
        ⟨options.probes filter ++ [options.general filter],
          .ok (options.fallback index store filter)⟩ := by
  obtain ⟨_ | sort, _ | limit⟩ := options
  · rfl
  · rfl
  · rfl
  · unfold Plan.choose settled? probed?
    simp only [Probe.run, Probe.request]
    cases index.ask ⟨filter.requiring sort.field, some limit, sort.isReverse, some sort.field⟩ with
    | none => rfl
    | some answer =>
        simp only [Probe.judge, Option.map_some, Option.bind_some]
        cases gather (answer.references.take limit) with
        | error fault => rfl
        | ok references =>
            simp only [Option.some.injEq]
            by_cases henough : references.length = limit
            · rw [if_pos henough, if_pos henough.symm]
              rfl
            · rw [if_neg henough, if_neg (Ne.symm henough)]
              rfl

/-- A limit is only ever applied by the index if no sort is asked for. -/
theorem appliedBy_iff :
    options.AppliedBy index filter ↔
      options.sort = none ∧ options.limit.isSome = true ∧
        ∃ answer, index.ask (options.general filter) = some answer ∧
          answer.limitApplied = true := by
  obtain ⟨sort, limit⟩ := options
  cases sort with
  | some sort => simp [AppliedBy, general]
  | none => cases limit <;> simp [AppliedBy, general]

/-- Which general route is taken. -/
def fallbackRoute (options : Options) (served : Bool) : Route :=
  match options.sort, options.limit, served with
  | some _, some _, true => .probeFallbackIndex
  | some _, some _, false => .probeFallbackScan
  | _, _, true => .indexDirect
  | _, _, false => .fullScan

/-- The plan of the general route by what the index answers. -/
theorem fallback_eq :
    options.fallback index store filter =
      match index.ask (options.general filter) with
      | some answer =>
        { candidates := .references answer.references
          route := options.fallbackRoute true
          sort := options.sort
          postLimit := if options.sort = none ∧ answer.limitApplied then none else options.limit
          preserveOrder := options.sort.isSome }
      | none =>
        { candidates := .documents (Plan.scanned store)
          route := options.fallbackRoute false
          sort := options.sort
          postLimit := options.limit
          preserveOrder := false } := by
  obtain ⟨_ | sort, _ | limit⟩ := options
  all_goals
    simp only [fallback, Plan.afterProbe, Plan.general, Plan.generalRequest, general,
      Option.isSome_none, Option.isSome_some, Bool.false_eq_true, if_false, if_true]
    generalize index.ask _ = answered
    cases answered with
    | none => rfl
    | some answer => simp [fallbackRoute, Route.afterProbe, Route.isFullScan]

/-- No general route is that of a satisfied probe. -/
theorem fallback_route_ne : (options.fallback index store filter).route ≠ .probeSatisfied := by
  have hroute : ∀ served, options.fallbackRoute served ≠ .probeSatisfied := by
    intro served
    unfold fallbackRoute
    split <;> exact Route.noConfusion
  rw [fallback_eq]
  cases index.ask (options.general filter) with
  | none => exact hroute false
  | some answer => exact hroute true

/-- A limit is either owed on the general route or applied by the index, and then no
sort is owed. -/
theorem fallback_postLimit :
    (options.fallback index store filter).postLimit = options.limit ∧
        ¬ options.AppliedBy index filter ∨
      (options.fallback index store filter).postLimit = none ∧ options.sort = none ∧
        options.AppliedBy index filter := by
  rw [fallback_eq, appliedBy_iff]
  cases hask : index.ask (options.general filter) with
  | none => simp
  | some answer =>
      by_cases happlied : options.sort = none ∧ answer.limitApplied = true
      · -- without a limit there is nothing to apply, whatever the index says
        cases options.limit <;> simp [happlied]
      · exact Or.inl ⟨if_neg happlied, fun ⟨hsort, _, _, hanswer, h⟩ =>
          happlied ⟨hsort, Option.some.inj hanswer ▸ h⟩⟩

/-- Where a probe leaves the choice open, the plan of the general route does what it
is obliged to. -/
theorem fallback_obliged (hopen : options.settled? index filter = none) :
    (options.fallback index store filter).Obliged index store filter options := by
  have hunsatisfied : ∀ references : List Reference,
      options.probed? index filter = some (references.map .ok) →
        options.limit ≠ some references.length := by
    intro references hprobed hlimit
    have hsettled := (settled?_eq_ok_iff index filter options).mpr ⟨hprobed, hlimit⟩
    rw [hopen] at hsettled
    cases hsettled
  have hroute := fallback_route_ne index store filter options
  refine ⟨⟨fun h => absurd h hroute, fun ⟨_, hprobed, h⟩ => absurd h (hunsatisfied _ hprobed)⟩,
    fun _ hprobed h => absurd h (hunsatisfied _ hprobed), fun _ => ?_, fun _ => ?_,
    fun _ => fallback_postLimit index store filter options, ?_⟩
  all_goals rw [fallback_eq]
  · cases index.ask (options.general filter) <;> rfl
  · cases index.ask (options.general filter) <;> rfl
  · cases index.ask (options.general filter) with
    | none => exact nofun
    | some answer => exact fun _ _ => rfl

/-- Where a probe is satisfied, its plan does what it is obliged to. -/
theorem ofProbe_obliged {references : List Reference}
    (hsettled : options.settled? index filter = some (.ok references)) :
    (Plan.ofProbe references).Obliged index store filter options := by
  obtain ⟨hprobed, hlimit⟩ := (settled?_eq_ok_iff index filter options).mp hsettled
  have hsort : options.sort.isSome = true := by
    unfold probed? at hprobed
    cases hsort : options.sort with
    | none => simp [hsort] at hprobed
    | some sort => rfl
  refine ⟨⟨fun _ => ⟨references, hprobed, hlimit⟩, fun _ => rfl⟩, ?_, nofun, nofun, nofun, ?_⟩
  · intro others hothers _
    have heq : others.map (Except.ok (ε := Fault)) = references.map .ok :=
      Option.some.inj (hothers.symm.trans hprobed)
    rw [heq]
    exact ⟨rfl, rfl, rfl⟩
  · exact fun _ _ => hsort.symm

/-- A request with a limit asks for the order as well, or there is no sort. -/
theorem limited_in_order {request : Request}
    (h : request ∈ options.probes filter ∨ request = options.general filter) :
    request.limit = none ∨ request.orderBy = options.sort.map SortBy.field := by
  obtain ⟨sort, limit⟩ := options
  rcases h with hprobe | rfl
  · unfold probes at hprobe
    split at hprobe
    · next sort' limit' hsort hlimit =>
        rw [List.mem_singleton.mp hprobe, show sort = some sort' from hsort]
        exact Or.inr rfl
    · cases hprobe
  · cases sort with
    | none => exact Or.inr rfl
    | some sort => exact Or.inl rfl

/-- The plan of the general route depends on the answer to its request and on what a
scan of everything lists. -/
theorem fallback_congr {index' : Index} {store' : StoreView}
    (hask : index'.ask (options.general filter) = index.ask (options.general filter))
    (hscan : store'.scan .everything = store.scan .everything) :
    options.fallback index' store' filter = options.fallback index store filter := by
  have hscanned : Plan.scanned store' = Plan.scanned store := by
    rw [Plan.scanned, Plan.scanned, hscan]
  rw [fallback_eq, fallback_eq, hask, hscanned]

end Choosing

end Options

namespace Plan

variable (index : Index) (store : StoreView) (filter : Filter) (options : Options)

/-- Choosing a plan fails with the first fault that a probe finds, and only with that. -/
theorem choose_eq_error_iff {fault : Fault} :
    (choose index store filter options).outcome = .error fault ↔
      ∃ (before : List Reference) (after : List (Except Fault Reference)),
        options.probed? index filter = some (before.map .ok ++ .error fault :: after) := by
  rw [← Options.settled?_eq_error_iff, Options.choose_eq]
  cases options.settled? index filter with
  | none => simp
  | some outcome => cases outcome <;> simp [Except.map]

/-- Any plan that is chosen does what it is obliged to. -/
theorem obliged_of_choose {plan : Plan}
    (hplan : (choose index store filter options).outcome = .ok plan) :
    plan.Obliged index store filter options := by
  rw [Options.choose_eq] at hplan
  cases hsettled : options.settled? index filter with
  | none =>
      rw [hsettled] at hplan
      cases hplan
      exact Options.fallback_obliged index store filter options hsettled
  | some outcome =>
      rw [hsettled] at hplan
      cases outcome with
      | error fault => cases hplan
      | ok references =>
          cases hplan
          exact Options.ofProbe_obliged index store filter options hsettled

/-- The index is asked by a probe and on the general route, and not otherwise. -/
theorem mem_requests {request : Request}
    (hrequest : request ∈ (choose index store filter options).requests) :
    request ∈ options.probes filter ∨ request = options.general filter := by
  rw [Options.choose_eq] at hrequest
  cases hsettled : options.settled? index filter with
  | none =>
      rw [hsettled] at hrequest
      simpa using hrequest
  | some outcome =>
      rw [hsettled] at hrequest
      exact Or.inl hrequest

/-- The choice is the same for what it has looked at. -/
theorem choose_congr {index' : Index} {store' : StoreView}
    (hprobed : options.probed? index' filter = options.probed? index filter)
    (hgeneral : options.general filter ∈ (choose index store filter options).requests →
      index'.ask (options.general filter) = index.ask (options.general filter))
    (hscan : store'.scan .everything = store.scan .everything) :
    choose index' store' filter options = choose index store filter options := by
  have hsettled : options.settled? index' filter = options.settled? index filter := by
    rw [Options.settled?, Options.settled?, hprobed]
  rw [Options.choose_eq] at hgeneral ⊢
  rw [Options.choose_eq, hsettled]
  cases hopen : options.settled? index filter with
  | some outcome => rfl
  | none =>
      rw [hopen] at hgeneral
      rw [Options.fallback_congr index store filter options (hgeneral (by simp)) hscan]

/-- **A plan is obliged to its query.**  Whatever the index answers, choosing a plan
fails exactly with the first fault among the references that a probe finds, and
any plan that comes of it does what it is obliged to.  The index is asked for a
limit only if it is asked for the order too or there is no sort.  The choice
depends on the index through what a probe finds and, only if the general request
is made, through its answer to that; on the store it depends through the scan of
everything in ascending order. -/
theorem choose_obliged :
    (∀ fault, (choose index store filter options).outcome = .error fault ↔
      ∃ (before : List Reference) (after : List (Except Fault Reference)),
        options.probed? index filter = some (before.map .ok ++ .error fault :: after)) ∧
    (∀ plan, (choose index store filter options).outcome = .ok plan →
      plan.Obliged index store filter options) ∧
    (∀ request ∈ (choose index store filter options).requests,
      request.limit = none ∨ request.orderBy = options.sort.map SortBy.field) ∧
    ∀ (index' : Index) (store' : StoreView),
      options.probed? index' filter = options.probed? index filter →
      (options.general filter ∈ (choose index store filter options).requests →
        index'.ask (options.general filter) = index.ask (options.general filter)) →
      store'.scan ⟨none, false⟩ = store.scan ⟨none, false⟩ →
      choose index' store' filter options = choose index store filter options :=
  ⟨fun _ => choose_eq_error_iff index store filter options,
    fun _ => obliged_of_choose index store filter options,
    fun _ hrequest =>
      Options.limited_in_order filter options (mem_requests index store filter options hrequest),
    fun _ _ => choose_congr index store filter options⟩

/-- An index that meets a fault after two references. -/
def faultThird : Scripted :=
  ⟨.nothing, [.ok ⟨["a"]⟩, .ok ⟨["b"]⟩, .error (.index "torn")], false, .all⟩

/-- With a limit of two the probe is satisfied and the fault is never met; with a limit
of three it is the outcome. -/
theorem choose_obliged_faultThird :
    (choose faultThird.index Store.empty.view .all ⟨some ⟨"age", .ascending⟩, some 3⟩).outcome =
        .error (.index "torn") ∧
      ∃ plan, (choose faultThird.index Store.empty.view .all
          ⟨some ⟨"age", .ascending⟩, some 2⟩).outcome = .ok plan ∧
        plan.candidates = .references [.ok ⟨["a"]⟩, .ok ⟨["b"]⟩] ∧ plan.sort = none ∧
          plan.postLimit = none := by
  obtain ⟨hfault, _⟩ :=
    choose_obliged faultThird.index Store.empty.view .all ⟨some ⟨"age", .ascending⟩, some 3⟩
  obtain ⟨_, hplan, _⟩ :=
    choose_obliged faultThird.index Store.empty.view .all ⟨some ⟨"age", .ascending⟩, some 2⟩
  exact ⟨(hfault _).mpr ⟨[⟨["a"]⟩, ⟨["b"]⟩], [], rfl⟩,
    _, rfl, (hplan _ rfl).satisfied [⟨["a"]⟩, ⟨["b"]⟩] rfl rfl⟩

end Plan

end DocQuery
