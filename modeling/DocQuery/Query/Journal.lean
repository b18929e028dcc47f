import DocQuery.Counters
import DocQuery.Index.Basic
import DocQuery.Log.Event
import DocQuery.Plan.Route

/-!
# What an engine records

Queries leave their traces in a journal: counters, log events, the requests
that an index was asked, and the ids that were looked up, each in order.
Nothing is ever taken out of a journal.
-/

namespace DocQuery

/-- The records of an engine. -/
structure Journal where
  counters : Counters
  events : List Event
  requests : List Request
  lookups : List String

namespace Journal

/-- Nothing recorded. -/
def blank : Journal := ⟨.zero, [], [], []⟩

/-- Records an event. -/
def note (j : Journal) (e : Event) : Journal := { j with events := j.events ++ [e] }

/-- Changes the counters. -/
def count (j : Journal) (f : Counters → Counters) : Journal := { j with counters := f j.counters }

/-- Records requests to an index. -/
def asked (j : Journal) (requests : List Request) : Journal :=
  { j with requests := j.requests ++ requests }

/-- Records lookups that were started, and how many found nothing. -/
def lookedUp (j : Journal) (ids : List String) (dropped : Nat) : Journal :=
  { j with
    lookups := j.lookups ++ ids
    counters := { j.counters with lookupsDropped := j.counters.lookupsDropped + dropped } }

/-- Records documents handed out by a query that is over. -/
def returned (j : Journal) (n : Nat) : Journal :=
  j.count fun c => { c with documentsReturned := c.documentsReturned + n }

end Journal

namespace Counters

/-- Counts a query by the route it takes. -/
def took (c : Counters) : Route → Counters
  | .indexDirect => { c with indexPaths := c.indexPaths + 1 }
  | .fullScan => { c with fullScans := c.fullScans + 1 }
  | .probeSatisfied => { c with probeHits := c.probeHits + 1 }
  | .probeFallbackIndex =>
    { c with probeFallbacks := c.probeFallbacks + 1, indexPaths := c.indexPaths + 1 }
  | .probeFallbackScan =>
    { c with probeFallbacks := c.probeFallbacks + 1, fullScans := c.fullScans + 1 }

end Counters

/-- The event of a query's route. -/
def Event.queryRoute (route : Route) (queryId : String) : Event :=
  ⟨.trace, "QUERY_PATH", [("path", route.name), ("query_id", queryId)]⟩

/-- The event of a rebuilt catalog. -/
def Event.indexRebuilt (documents : Nat) : Event :=
  ⟨.trace, "INDEX_REBUILD_COMPLETE", [("documents", toString documents)]⟩

end DocQuery
