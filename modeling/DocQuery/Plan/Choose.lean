import DocQuery.Plan.Probe
import DocQuery.Plan.Route

/-!
# Plans

A plan says where the candidates of a query come from and what is owed after
that: a sort, a limit, and resolving references in their order.

With a sort and a limit the index is probed; a satisfied probe owes nothing.
On the general route the index is asked for the filter, and if it declines
the whole store is scanned.  A limit is passed to the index only when no
sort is owed, and it is owed unless the index says that it has applied it.
A scan never gets a limit, since its documents are filtered afterwards.
-/

namespace DocQuery

/-- The candidates of a query: references to resolve, or documents. -/
inductive Candidates where
  | references (references : List (Except Fault Reference))
  | documents (documents : List (Except Fault Document))

/-- Candidates and what is owed. -/
structure Plan where
  candidates : Candidates
  route : Route
  sort : Option SortBy
  postLimit : Option Nat
  preserveOrder : Bool

/-- What came of choosing a plan, and what the index was asked meanwhile. -/
structure Choice where
  requests : List Request
  outcome : Except Fault Plan

namespace Plan

/-- The documents of a scan in ascending order, tombstones left out. -/
def scanned (store : StoreView) : List (Except Fault Document) :=
  (store.scan .everything).filterMap fun
    | .error fault => some (.error fault)
    | .ok entry => entry.document.map .ok

/-- What the general route asks of the index. -/
def generalRequest (filter : Filter) (sort : Option SortBy) (limit : Option Nat) : Request where
  filter := filter
  limit := limit
  reverse := sort.any SortBy.isReverse
  orderBy := none

/-- The general route: references if the index answers, otherwise a scan. -/
def general (index : Index) (store : StoreView) (filter : Filter) (sort : Option SortBy)
    (limit : Option Nat) : Plan :=
  match index.ask (generalRequest filter sort limit) with
  | some answer =>
    { candidates := .references answer.references
      route := .indexDirect
      sort := sort
      postLimit := if answer.limitApplied then none else limit
      preserveOrder := sort.isSome }
  | none =>
    { candidates := .documents (scanned store)
      route := .fullScan
      sort := sort
      postLimit := limit
      preserveOrder := false }

/-- The plan of a satisfied probe. -/
def ofProbe (references : List Reference) : Plan where
  candidates := .references (references.map .ok)
  route := .probeSatisfied
  sort := none
  postLimit := none
  preserveOrder := true

/-- The plan after a probe in vain: the general route with the limit withheld,
and owed at the end. -/
def afterProbe (index : Index) (store : StoreView) (filter : Filter) (sort : SortBy)
    (limit : Nat) : Plan :=
  let plan := general index store filter (some sort) none
  { plan with route := plan.route.afterProbe, postLimit := some limit }

/-- Chooses the plan of a query. -/
def choose (index : Index) (store : StoreView) (filter : Filter) (options : Options) : Choice :=
  match options.sort, options.limit with
  | some sort, some limit =>
    let probing := Probe.request filter sort limit
    match Probe.run index filter sort limit with
    | .error fault => ⟨[probing], .error fault⟩
    | .ok (.satisfied references) => ⟨[probing], .ok (ofProbe references)⟩
    | .ok _ =>
      ⟨[probing, generalRequest filter (some sort) none],
        .ok (afterProbe index store filter sort limit)⟩
  | sort, limit =>
    ⟨[generalRequest filter sort limit], .ok (general index store filter sort limit)⟩

/-- The explanation of a plan. -/
def explain (plan : Plan) (options : Options) : Explanation where
  route := plan.route
  options := options
  streamingSort := plan.sort.isSome
  postLimit := plan.postLimit
  preserveOrder := plan.preserveOrder

end Plan

end DocQuery
