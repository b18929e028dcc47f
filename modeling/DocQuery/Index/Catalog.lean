import DocQuery.Filter.Match
import DocQuery.Index.Basic
import DocQuery.Index.Postings
import DocQuery.Outcomes
import DocQuery.Store.Basic

/-!
# Catalogs

A catalog keeps the postings of some fields, and the documents it has filed
so that it can check a whole filter.  It serves a filter by walking the
postings of one predicate's field: an equality before a range, a range
before mere existence, and among equals the field that comes first.  A walk
that must be in order of a field can only be driven by a predicate on that
field under which it is certainly defined.

A limit counts distinct documents.  The walk stops at the first reference
to a document not yet named once the limit is reached; references that
repeat a named document do not count.
-/

namespace DocQuery

/-- How the postings of a field are walked. -/
inductive Driver where
  | key (key : IndexKey)
  | range (lower upper : Bound)
  | every
deriving DecidableEq, Repr

namespace Driver

/-- Drivers of lower rank are preferred. -/
def rank : Driver → Nat
  | .key _ => 0
  | .range _ _ => 1
  | .every => 2

/-- The driver that an operation makes possible. -/
def ofOperation? : Operation → Option Driver
  | .eq value => (IndexKey.ofJson? value).map .key
  | .gt bound => (IndexKey.ofJson? bound).map fun k => .range (.excluding k) .unbounded
  | .gte bound => (IndexKey.ofJson? bound).map fun k => .range (.including k) .unbounded
  | .lt bound => (IndexKey.ofJson? bound).map fun k => .range .unbounded (.excluding k)
  | .lte bound => (IndexKey.ofJson? bound).map fun k => .range .unbounded (.including k)
  | .defined true => some .every
  | .defined false | .ne _ | .among _ => none

/-- The lower bound of the walk. -/
def lower : Driver → Bound
  | .key k => .including k
  | .range lower _ => lower
  | .every => .unbounded

/-- The upper bound of the walk. -/
def upper : Driver → Bound
  | .key k => .including k
  | .range _ upper => upper
  | .every => .unbounded

end Driver

/-- A field and the way its postings are walked. -/
structure Drive where
  field : String
  driver : Driver
deriving DecidableEq, Repr

namespace Drive

/-- Whether one drive is strictly preferred to another. -/
def isBetter (a b : Drive) : Bool :=
  a.driver.rank < b.driver.rank || (a.driver.rank == b.driver.rank && a.field < b.field)

/-- The most preferred drive, the first of equals. -/
def best? : List Drive → Option Drive
  | [] => none
  | d :: rest => some (rest.foldl (fun best e => if e.isBetter best then e else best) d)

end Drive

/-- Postings of some fields, and the documents filed in them. -/
@[ext]
structure Catalog where
  fields : SortedMap String Postings
  bodies : SortedMap String Document

namespace Catalog

/-- A catalog of some fields in which nothing is filed. -/
def ofFields (fields : List String) : Catalog :=
  ⟨.ofList (fields.map (·, Postings.empty)), .empty⟩

instance : Inhabited Catalog := ⟨ofFields []⟩

/-! ## Filing -/

/-- The keys a document is filed under in a field. -/
def keysIn (field : String) (document : Document) : List IndexKey :=
  match document.valueAt field with
  | some value => IndexKey.keysOf value
  | none => []

/-- Files a document under its keys. -/
def file (c : Catalog) (id : String) (document : Document) : Catalog where
  fields := c.fields.map fun field postings =>
    (keysIn field document).foldl (fun p k => p.insert k id) postings
  bodies := c.bodies.insert id document

/-- Takes out the document that is filed under an id. -/
def unfile (c : Catalog) (id : String) : Catalog :=
  match c.bodies.get? id with
  | none => c
  | some document =>
    { fields := c.fields.map fun field postings =>
        (keysIn field document).foldl (fun p k => p.remove k id) postings
      bodies := c.bodies.erase id }

/-- Follows a write to the store. -/
def write (c : Catalog) (id : String) (document : Document) : Catalog :=
  (c.unfile id).file id document

/-- A catalog of the same fields in which nothing is filed. -/
def cleared (c : Catalog) : Catalog := ⟨c.fields.map fun _ _ => .empty, .empty⟩

/-- The documents of a scan, tombstones left out. -/
def liveEntries (entries : List Entry) : List (String × Document) :=
  entries.filterMap fun e => e.document.map (e.id, ·)

/-- Files anew all documents of a scan and counts them; a fault in the scan
leaves nothing changed. -/
def rebuild (c : Catalog) (scanned : List (Except Fault Entry)) : Except Fault (Catalog × Nat) := do
  let documents := liveEntries (← gather scanned)
  return (documents.foldl (fun c e => c.file e.1 e.2) c.cleared, documents.length)

/-! ## Answering -/

/-- The drives that a request admits, in the order of its predicates. -/
def drives (c : Catalog) (r : Request) : List Drive :=
  r.filter.predicates.filterMap fun p =>
    if c.fields.contains p.field
        && r.orderBy.all fun field => p.field == field && p.operation.impliesDefined then
      (Driver.ofOperation? p.operation).map (⟨p.field, ·⟩)
    else none

/-- Those pairs of a walk that are referred to: the documents accepted, up to
the first one not yet named that comes after the limit is reached. -/
def refer (accepts : String → Bool) (limit : Option Nat) :
    List (IndexKey × String) → (named : List String) → List (IndexKey × String)
  | [], _ => []
  | (k, id) :: rest, named =>
    if !named.contains id && limit.any (· ≤ named.length) then []
    else if accepts id then
      (k, id) :: refer accepts limit rest (if named.contains id then named else id :: named)
    else refer accepts limit rest named

/-- Whether the document filed under an id matches a filter. -/
def filedMatches (c : Catalog) (filter : Filter) (id : String) : Bool :=
  (c.bodies.get? id).any filter.accepts

/-- The pairs that a drive refers to for a request. -/
def referred (c : Catalog) (d : Drive) (r : Request) : List (IndexKey × String) :=
  match c.fields.get? d.field with
  | none => []
  | some postings =>
    refer (c.filedMatches r.filter) r.limit
      (postings.walk d.driver.lower d.driver.upper r.reverse) []

/-- Answers a request, or declines it when no predicate can drive a walk. -/
def ask (c : Catalog) (r : Request) : Option Answer :=
  (Drive.best? (c.drives r)).map fun d =>
    { references := (c.referred d r).map fun e => .ok ⟨[d.field, e.1.encode, e.2]⟩
      limitApplied := r.limit.isSome }

/-- The catalog as an index. -/
def index (c : Catalog) : Index := ⟨c.ask, Filter.accepts⟩

end Catalog

end DocQuery
