import DocQuery.Json.Basic
import DocQuery.Options

/-!
# Routes and explanations

A query takes one of five routes to its candidates.  An explanation says
which, what was asked for, and what is still done to the candidates: a sort,
a limit, and whether they stay in order.
-/

namespace DocQuery

/-- Where the candidates of a query come from. -/
inductive Route where
  /-- an index, on the general route -/
  | indexDirect
  /-- a scan of the store, the index having declined -/
  | fullScan
  /-- a probe that found as many references as were asked for -/
  | probeSatisfied
  /-- an index, after a probe in vain -/
  | probeFallbackIndex
  /-- a scan, after a probe in vain -/
  | probeFallbackScan
deriving DecidableEq, Repr

namespace Route

/-- The name of a route, in capitals. -/
def name : Route → String
  | indexDirect => "INDEX_DIRECT"
  | fullScan => "FULL_SCAN"
  | probeSatisfied => "PROBE_SATISFIED"
  | probeFallbackIndex => "PROBE_FALLBACK_INDEX"
  | probeFallbackScan => "PROBE_FALLBACK_SCAN"

/-- The word for a route, in small letters. -/
def word : Route → String
  | indexDirect => "index_direct"
  | fullScan => "full_scan"
  | probeSatisfied => "probe_satisfied"
  | probeFallbackIndex => "probe_fallback_index"
  | probeFallbackScan => "probe_fallback_scan"

/-- Whether the candidates come from a scan. -/
def isFullScan : Route → Bool
  | fullScan | probeFallbackScan => true
  | _ => false

/-- The route when a probe came before it in vain. -/
def afterProbe (r : Route) : Route :=
  if r.isFullScan then probeFallbackScan else probeFallbackIndex

end Route

/-- How a query is answered. -/
structure Explanation where
  route : Route
  options : Options
  streamingSort : Bool
  postLimit : Option Nat
  preserveOrder : Bool
deriving DecidableEq, Repr

namespace Explanation

/-- A natural number as JSON, or null. -/
def natJson : Option Nat → Json
  | some n => .number (.ofNat n)
  | none => .null

/-- A sort as JSON. -/
def sortJson (s : SortBy) : Json :=
  .object [("field", .string s.field),
    ("direction", .string (match s.direction with | .ascending => "Asc" | .descending => "Desc"))]

/-- The explanation as JSON. -/
def toJson (e : Explanation) : Json :=
  .object [("path", .string e.route.word),
    ("sort", (e.options.sort.map sortJson).getD .null),
    ("limit", natJson e.options.limit),
    ("streaming_sort", .bool e.streamingSort),
    ("post_limit", natJson e.postLimit),
    ("preserve_order", .bool e.preserveOrder)]

/-- The explanation in lines of text. -/
def text (e : Explanation) : String :=
  "=== EXPLAIN ===\n" ++
  "Path: " ++ e.route.name ++ "\n" ++
  (match e.options.sort with
    | some s => "Sort: " ++ s.field ++ " " ++ s.direction.name ++ "\n"
    | none => "") ++
  (match e.options.limit with
    | some n => "Limit: " ++ toString n ++ "\n"
    | none => "Limit: unbounded\n") ++
  "Streaming Sort: " ++ (if e.streamingSort then "yes" else "no") ++ "\n" ++
  match e.postLimit with
  | some n => "Post Limit: " ++ toString n ++ "\n"
  | none => ""

end Explanation

end DocQuery
