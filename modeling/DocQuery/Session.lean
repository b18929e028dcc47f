import DocQuery.Index.Catalog
import DocQuery.Index.Scripted
import DocQuery.Query.Basic

/-!
# Sessions

A session is a store, a catalog over it, and an engine with its open queries,
all of which change step by step.  Store and catalog are written
separately, so the catalog may lag behind; reads of the store may meet
faults, lookups of some ids are held back until they are released, and a
script may stand in for the catalog as the engine's index.

`Session.perform` takes one action, `Session.step` adds what was logged and
asked meanwhile, and `Session.run` takes actions in turn.
-/

namespace DocQuery

/-- What is done to a session. -/
inductive Action where
  /-- writes to the store -/
  | put (id : String) (document : Document)
  /-- deletes from the store -/
  | delete (id : String)
  /-- writes to the catalog -/
  | file (id : String) (document : Document)
  /-- deletes from the catalog -/
  | unfile (id : String)
  /-- lets the lookups of an id go on -/
  | release (id : String)
  /-- reads the store past faults -/
  | get (id : String)
  /-- scans the store -/
  | scan (request : ScanRequest)
  /-- rebuilds the catalog from the store -/
  | rebuild
  /-- asks the index -/
  | ask (request : Request)
  /-- probes the index -/
  | probe (filter : Filter) (sort : SortBy) (limit : Nat)
  /-- explains a query -/
  | explain (filter : Filter) (options : Options)
  /-- runs a query up to so many items and drops it -/
  | query (filter : Filter) (options : Options) (take : Option Nat)
  /-- runs a query to its end -/
  | queryAll (filter : Filter) (options : Options)
  /-- opens a query under a name, dropping the one that had it -/
  | start (name : String) (filter : Filter) (options : Options)
  /-- pulls items from an open query -/
  | pull (name : String) (take : Option Nat)
  /-- drops an open query -/
  | stop (name : String)
  /-- reads the counters -/
  | counters

/-- What an action answers. -/
inductive Reply where
  | done
  | document (found : Option Document)
  | entries (found : List (Except Fault Entry))
  | indexed (count : Except Fault Nat)
  | answer (answer : Option Answer)
  | probe (outcome : Except Fault Probe)
  | explanation (outcome : Except Fault Explanation)
  | items (items : List (Except Fault Document)) (halt : Query.Halt) (lookups : List String)
  | documents (documents : List Document) (lookups : List String)
  | fault (fault : Fault)
  | unknownStream
  | stopped (wasOpen : Bool)
  | counters (counters : Counters)

/-- A store, a catalog and an engine with its open queries. -/
structure Session where
  store : Store
  catalog : Catalog
  /-- the index of the engine, if it is not the catalog -/
  script : Option Scripted
  /-- the faults that reads of the store meet -/
  impairment : Impairment
  /-- the ids whose lookups are held back -/
  held : List String
  /-- how many lookups of one query may be outstanding -/
  window : Nat
  /-- the least severity that is logged -/
  level : Severity
  journal : Journal
  /-- the open queries by name -/
  streams : List (String × Query)
  /-- how many lookups were answered for -/
  reported : Nat

namespace Session

/-- A session at its start, nothing filed in its catalog. -/
def begin (store : Store) (fields : List String) : Session where
  store := store
  catalog := .ofFields fields
  script := none
  impairment := .none
  held := []
  window := 64
  level := .warn
  journal := .blank
  streams := []
  reported := 0

/-- The store as the engine sees it. -/
def storeView (s : Session) : StoreView := s.store.impairedView s.impairment

/-- What queries find around them; no time passes in a session. -/
def world (s : Session) : World where
  index :=
    match s.script with
    | some script => script.index
    | none => s.catalog.index
  store := s.storeView
  held id := s.held.contains id
  window := s.window
  now := 0

/-- Queries are numbered in the order of their creation. -/
def nextId (s : Session) : String := toString s.journal.counters.queriesExecuted

/-- The lookups not yet answered for. -/
def unreported (s : Session) : List String := s.journal.lookups.drop s.reported

/-- All lookups are answered for. -/
def report (s : Session) : Session := { s with reported := s.journal.lookups.length }

/-- Rebuilds the catalog from a scan. -/
def rebuild (s : Session) (scanned : List (Except Fault Entry)) : Except Fault Nat × Session :=
  match s.catalog.rebuild scanned with
  | .error fault => (.error fault, s)
  | .ok (catalog, n) =>
    (.ok n, { s with catalog := catalog, journal := s.journal.note (.indexRebuilt n) })

/-- Runs a new query, pulling at most so many items or all, and drops it. -/
def runQuery (s : Session) (filter : Filter) (options : Options) (take : Option Nat) :
    Query.Batch × Session :=
  let (q, j) := Query.create filter options s.nextId s.world.now s.journal
  let batch := q.pullUpTo take s.world j
  (batch, { s with journal := batch.query.drop batch.journal })

/-- Replaces the open query of a name, if there is one. -/
def setStream (s : Session) (name : String) (q : Query) : Session :=
  { s with streams := (name, q) :: s.streams.filter fun e => e.1 != name }

/-- Forgets the open query of a name. -/
def forgetStream (s : Session) (name : String) : Session :=
  { s with streams := s.streams.filter fun e => e.1 != name }

/-- Drops the open query of a name, if there is one. -/
def dropStream (s : Session) (name : String) : Session :=
  match s.streams.lookup name with
  | some q => { s.forgetStream name with journal := q.drop s.journal }
  | none => s

/-- Takes an action. -/
def perform (s : Session) : Action → Reply × Session
  | .put id document => (.done, { s with store := s.store.put id document })
  | .delete id => (.done, { s with store := s.store.delete id })
  | .file id document => (.done, { s with catalog := s.catalog.write id document })
  | .unfile id => (.done, { s with catalog := s.catalog.unfile id })
  | .release id =>
    (.done, { s with
      held := s.held.filter (· != id)
      streams := s.streams.map fun e => (e.1, e.2.releaseHeld id) })
  | .get id => (.document (s.store.get? id), s)
  | .scan request => (.entries (s.storeView.scan request), s)
  | .rebuild =>
    let (count, s) := s.rebuild (s.storeView.scan .everything)
    (.indexed count, s)
  | .ask request =>
    (.answer (s.world.index.ask request), { s with journal := s.journal.asked [request] })
  | .probe filter sort limit =>
    (.probe (Probe.run s.world.index filter sort limit),
      { s with journal := s.journal.asked [Probe.request filter sort limit] })
  | .explain filter options =>
    let choice := Plan.choose s.world.index s.world.store filter options
    (.explanation (choice.outcome.map (·.explain options)),
      { s with journal := s.journal.asked choice.requests })
  | .query filter options take =>
    let (batch, s) := s.runQuery filter options take
    (.items batch.items batch.halt s.unreported, s.report)
  | .queryAll filter options =>
    let (batch, s) := s.runQuery filter options none
    match gather batch.items with
    | .ok documents => (.documents documents s.unreported, s.report)
    | .error fault => (.fault fault, s)
  | .start name filter options =>
    let (q, j) := Query.create filter options s.nextId s.world.now s.journal
    (.done, ({ s with journal := j }.dropStream name).setStream name q)
  | .pull name take =>
    match s.streams.lookup name with
    | none => (.unknownStream, s)
    | some q =>
      let batch := q.pullUpTo take s.world s.journal
      let s := { s with journal := batch.journal }
      let s := if batch.halt = .ended then s.forgetStream name else s.setStream name batch.query
      (.items batch.items batch.halt s.unreported, s.report)
  | .stop name => (.stopped (s.streams.lookup name).isSome, s.dropStream name)
  | .counters => (.counters s.journal.counters, s)

/-- What comes of an action: its answer, what was logged, and what the index
was asked. -/
structure Outcome where
  reply : Reply
  log : List Event
  requests : List Request

/-- The events recorded after some earlier journal that are serious enough to log. -/
def logSince (s : Session) (earlier : Journal) : List Event :=
  (s.journal.events.drop earlier.events.length).filter fun e => s.level.admits e.severity

/-- Takes an action and reports what came of it. -/
def step (s : Session) (a : Action) : Outcome × Session :=
  let (reply, s') := s.perform a
  (⟨reply, s'.logSince s.journal, s'.journal.requests.drop s.journal.requests.length⟩, s')

/-- Takes actions in turn. -/
def run (s : Session) : List Action → List Outcome × Session
  | [] => ([], s)
  | a :: rest =>
    let (outcome, s') := s.step a
    let (outcomes, s'') := run s' rest
    (outcome :: outcomes, s'')

end Session

end DocQuery
