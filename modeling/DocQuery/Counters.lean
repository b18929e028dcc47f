/-!
# Counters

What an engine has done so far, counted over all its queries.
-/

namespace DocQuery

/-- The counters of an engine. -/
structure Counters where
  /-- queries created -/
  queriesExecuted : Nat
  /-- queries whose candidates came from an index on the general route -/
  indexPaths : Nat
  /-- queries that scanned the store -/
  fullScans : Nat
  /-- queries that a probe answered -/
  probeHits : Nat
  /-- queries whose probe was made in vain -/
  probeFallbacks : Nat
  /-- lookups that found no document -/
  lookupsDropped : Nat
  /-- documents handed out by queries that are over -/
  documentsReturned : Nat
  /-- faults handed out -/
  storeFaults : Nat
deriving DecidableEq, Repr

/-- All counters at zero. -/
def Counters.zero : Counters := ⟨0, 0, 0, 0, 0, 0, 0, 0⟩

end DocQuery
