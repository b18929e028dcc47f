import DocQuery.Log.Span
import DocQuery.Query.Journal
import DocQuery.Query.Pipeline

/-!
# Queries

A query does nothing until it is first polled: then its plan is chosen, and
with it the snapshot or the references it will work on.  It hands out
documents, or documents and then one fault, and is over after that.  Its
span closes exactly once, when it ends, at its fault, or when it is dropped
before either, and only then are its documents counted.
-/

namespace DocQuery

/-- What queries find around them at the moment. -/
structure World where
  index : Index
  store : StoreView
  /-- whose lookups are held back -/
  held : String → Bool
  /-- how many lookups of one query may be outstanding -/
  window : Nat
  /-- the time in milliseconds -/
  now : Nat

/-- The lookups of a world, in queues that ask all of them: a queue that gives up early
answers as if the lookups that it leaves behind were held. -/
def World.reads (w : World) : Reads := ⟨w.store.lookup, w.held⟩

/-- How far a query has come. -/
inductive Stage where
  | unpolled
  | running (p : Pipeline)
  | over

/-- A query and what it has handed out so far. -/
structure Query where
  filter : Filter
  options : Options
  id : String
  span : Span
  stage : Stage
  returned : Nat

namespace Query

/-- A new query. -/
def create (filter : Filter) (options : Options) (id : String) (now : Nat) (j : Journal) :
    Query × Journal :=
  let span : Span := ⟨"QUERY", [("query_id", id)], now⟩
  (⟨filter, options, id, span, .unpolled, 0⟩,
    (j.note span.begun).count fun c => { c with queriesExecuted := c.queriesExecuted + 1 })

/-- Chooses the plan of a query and sets its stages up. -/
def prepare (q : Query) (w : World) (j : Journal) : Pipeline × Journal :=
  let choice := Plan.choose w.index w.store q.filter q.options
  let j := j.asked choice.requests
  match choice.outcome with
  | .ok plan =>
    (.ofPlan plan w.window (w.index.accepts q.filter),
      (j.count (·.took plan.route)).note (.queryRoute plan.route q.id))
  | .error fault => (.ofFault fault, j)

/-- Polls the stages of a query and records what comes of it. -/
def advance (q : Query) (p : Pipeline) (w : World) (j : Journal) :
    Polled (Except Fault Document) × Query × Journal :=
  let (answer, p') := p.poll w.reads
  let j := j.lookedUp (p'.source.started.drop p.source.started.length)
    (p'.source.dropped - p.source.dropped)
  match answer with
  | .pending => (.pending, { q with stage := .running p' }, j)
  | .item (.ok document) =>
    (.item (.ok document), { q with stage := .running p', returned := q.returned + 1 }, j)
  | .item (.error fault) =>
    (.item (.error fault), { q with stage := .over },
      ((j.count fun c => { c with storeFaults := c.storeFaults + 1 }).returned q.returned).note
        (q.span.failed fault.severity fault.display))
  | .ended =>
    (.ended, { q with stage := .over },
      (j.returned q.returned).note
        (q.span.completed w.now [("returned", toString q.returned)]))

/-- Polls a query. -/
def poll (q : Query) (w : World) (j : Journal) : Polled (Except Fault Document) × Query × Journal :=
  match q.stage with
  | .over => (.ended, q, j)
  | .running p => q.advance p w j
  | .unpolled =>
    let (p, j) := q.prepare w j
    q.advance p w j

/-- Drops a query.  One that is not over is counted and logged as incomplete. -/
def drop (q : Query) (j : Journal) : Journal :=
  match q.stage with
  | .over => j
  | _ => (j.returned q.returned).note q.span.abandoned

/-- Lookups of an id that were found to be held may go on. -/
def releaseHeld (q : Query) (id : String) : Query :=
  match q.stage with
  | .running p => { q with stage := .running (p.releaseHeld id) }
  | _ => q

/-! ## Pulling several items -/

/-- Why no more items were pulled. -/
inductive Halt where
  /-- the stream has ended -/
  | ended
  /-- nothing is ready -/
  | pending
  /-- enough items came -/
  | enough
deriving DecidableEq, Repr

/-- Items pulled from a query, and what was left. -/
structure Batch where
  items : List (Except Fault Document)
  halt : Halt
  query : Query
  journal : Journal

/-- Pulls at most `n` items. -/
def pull (w : World) : Nat → Query → Journal → Batch
  | 0, q, j => ⟨[], .enough, q, j⟩
  | n + 1, q, j =>
    match q.poll w j with
    | (.pending, q', j') => ⟨[], .pending, q', j'⟩
    | (.ended, q', j') => ⟨[], .ended, q', j'⟩
    | (.item a, q', j') =>
      let batch := pull w n q' j'
      { batch with items := a :: batch.items }

/-- How many items the query can still give, at most, once it was polled. -/
def size (q : Query) : Nat :=
  match q.stage with
  | .running p => p.size
  | _ => 0

/-- Pulls items until the stream ends or nothing is ready. -/
def pullAll (q : Query) (w : World) (j : Journal) : Batch :=
  match q.poll w j with
  | (.pending, q', j') => ⟨[], .pending, q', j'⟩
  | (.ended, q', j') => ⟨[], .ended, q', j'⟩
  | (.item a, q', j') =>
    let batch := pull w (q'.size + 1) q' j'
    { batch with items := a :: batch.items }

/-- Pulls at most so many items, or all. -/
def pullUpTo (q : Query) (take : Option Nat) (w : World) (j : Journal) : Batch :=
  match take with
  | some n => pull w n q j
  | none => q.pullAll w j

end Query

end DocQuery
