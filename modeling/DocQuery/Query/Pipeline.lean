import DocQuery.Plan.Choose
import DocQuery.Query.Distinct
import DocQuery.Query.Ranking
import DocQuery.Query.Resolution

/-!
# The stages of a query

Documents come from a source, the snapshot of a scan or a resolution.  Every
one is checked against the filter, whichever route it came by; then a sort
that is owed collects all of them before it hands out the first, and a
limit that is owed cuts the rest off.  A fault passes the filter; under a
sort it is handed out alone and nothing that was collected follows.
-/

namespace DocQuery

/-- Where documents come from. -/
inductive Source where
  | snapshot (rest : List (Except Fault Document))
  | resolution (r : Resolution)

namespace Source

/-- Polls for a document. -/
def poll (reads : Reads) : Source → Polled (Except Fault Document) × Source
  | .snapshot [] => (.ended, .snapshot [])
  | .snapshot (next :: rest) => (.item next, .snapshot rest)
  | .resolution r => ((r.poll reads).1, .resolution (r.poll reads).2)

/-- How many items the source can still give, at most. -/
def size : Source → Nat
  | .snapshot rest => rest.length
  | .resolution r => r.size

/-- The ids whose lookups were started, in order. -/
def started : Source → List String
  | .snapshot _ => []
  | .resolution r => r.started

/-- How many lookups found nothing. -/
def dropped : Source → Nat
  | .snapshot _ => 0
  | .resolution r => r.dropped

/-- Lookups of an id that were found to be held may go on. -/
def release (id : String) : Source → Source
  | .snapshot rest => .snapshot rest
  | .resolution r => .resolution (r.release id)

/-- An item leaves less to come. -/
theorem size_poll_lt {s s' : Source} {reads : Reads} {a : Except Fault Document}
    (h : s.poll reads = (.item a, s')) : s'.size < s.size := by
  cases s with
  | snapshot rest =>
    cases rest with
    | nil => simp [poll] at h
    | cons next rest =>
      cases h
      exact Nat.lt_succ_self _
  | resolution r =>
    simp only [poll, Prod.mk.injEq] at h
    obtain ⟨hitem, rfl⟩ := h
    exact Resolution.size_poll_lt (Prod.ext hitem rfl)

/-- Polls for a document that is accepted, or a fault. -/
def next (reads : Reads) (accepts : Document → Bool) (s : Source) :
    Polled (Except Fault Document) × Source :=
  match _h : s.poll reads with
  | (.item (.ok document), s') =>
    if accepts document then (.item (.ok document), s') else next reads accepts s'
  | (.item (.error fault), s') => (.item (.error fault), s')
  | (.pending, s') => (.pending, s')
  | (.ended, s') => (.ended, s')
termination_by s.size
decreasing_by exact size_poll_lt (by assumption)

/-- An accepted item leaves less to come. -/
theorem size_next_lt {s s' : Source} {reads : Reads} {accepts : Document → Bool}
    {a : Except Fault Document} (h : s.next reads accepts = (.item a, s')) : s'.size < s.size := by
  fun_induction next reads accepts s with
  | case1 s document s₁ hpoll haccepts =>
    cases h
    exact size_poll_lt hpoll
  | case2 s document s₁ hpoll haccepts ih => exact Nat.lt_trans (ih h) (size_poll_lt hpoll)
  | case3 s fault s₁ hpoll =>
    cases h
    exact size_poll_lt hpoll
  | case4 => simp at h
  | case5 => simp at h

end Source

/-- How far a collection of documents has come. -/
inductive Collected where
  | all (documents : List Document)
  | sofar (documents : List Document)
  | fault (fault : Fault)

/-- Collects accepted documents, the newest first, until the source ends, has
nothing ready, or meets a fault. -/
def Source.collect (reads : Reads) (accepts : Document → Bool) (s : Source)
    (found : List Document) : Collected × Source :=
  match _h : s.next reads accepts with
  | (.item (.ok document), s') => collect reads accepts s' (document :: found)
  | (.item (.error fault), s') => (.fault fault, s')
  | (.pending, s') => (.sofar found, s')
  | (.ended, s') => (.all found, s')
termination_by s.size
decreasing_by exact Source.size_next_lt (by assumption)

/-- The state of a sort: none is owed, documents are being collected (the
newest first), or sorted documents are being handed out. -/
inductive Sorting where
  | unsorted
  | collecting (sort : SortBy) (found : List Document)
  | released (rest : List Document)

/-- The stages of a query; `remaining` is what a limit still lets through. -/
structure Pipeline where
  source : Source
  accepts : Document → Bool
  sorting : Sorting
  remaining : Option Nat

namespace Pipeline

/-- The stages that a plan calls for. -/
def ofPlan (plan : Plan) (window : Nat) (accepts : Document → Bool) : Pipeline where
  source :=
    match plan.candidates with
    | .references references =>
      .resolution (.ofIds plan.preserveOrder window (distinctIds references))
    | .documents documents => .snapshot documents
  accepts := accepts
  sorting :=
    match plan.sort with
    | some sort => .collecting sort []
    | none => .unsorted
  remaining := plan.postLimit

/-- The stages of a query that no plan was found for: one fault. -/
def ofFault (fault : Fault) : Pipeline where
  source := .snapshot [.error fault]
  accepts _ := true
  sorting := .unsorted
  remaining := none

/-- Hands out the next of some sorted documents. -/
def release (p : Pipeline) : List Document → Polled (Except Fault Document) × Pipeline
  | [] => (.ended, { p with sorting := .released [] })
  | document :: rest => (.item (.ok document), { p with sorting := .released rest })

/-- Polls the source, the filter and the sort. -/
def pollSorted (p : Pipeline) (reads : Reads) : Polled (Except Fault Document) × Pipeline :=
  match p.sorting with
  | .unsorted =>
    let (answer, source) := p.source.next reads p.accepts
    (answer, { p with source := source })
  | .collecting sort found =>
    match p.source.collect reads p.accepts found with
    | (.all documents, source) => { p with source := source }.release (sort.apply documents.reverse)
    | (.sofar documents, source) =>
      (.pending, { p with source := source, sorting := .collecting sort documents })
    | (.fault fault, source) =>
      (.item (.error fault), { p with source := source, sorting := .released [] })
  | .released rest => p.release rest

/-- Polls all stages.  A limit that is used up ends the stream without a
look at the source. -/
def poll (p : Pipeline) (reads : Reads) : Polled (Except Fault Document) × Pipeline :=
  if p.remaining = some 0 then (.ended, p)
  else
    match p.pollSorted reads with
    | (.item a, p') => (.item a, { p' with remaining := p'.remaining.map (· - 1) })
    | (answer, p') => (answer, p')

/-- How many items the pipeline can still give, at most. -/
def size (p : Pipeline) : Nat :=
  match p.sorting with
  | .unsorted => p.source.size
  | .collecting _ found => p.source.size + found.length
  | .released rest => rest.length

/-- Lookups of an id that were found to be held may go on. -/
def releaseHeld (p : Pipeline) (id : String) : Pipeline := { p with source := p.source.release id }

/-- Pulls at most `n` items, as long as some are ready. -/
def pull (reads : Reads) : Nat → Pipeline → List (Except Fault Document) × Pipeline
  | 0, p => ([], p)
  | n + 1, p =>
    match p.poll reads with
    | (.item a, p') =>
      let (items, p'') := pull reads n p'
      (a :: items, p'')
    | (_, p') => ([], p')

/-- Pulls items until none is ready or the stream ends. -/
def drain (p : Pipeline) (reads : Reads) : List (Except Fault Document) × Pipeline :=
  pull reads (p.size + 1) p

end Pipeline

end DocQuery
