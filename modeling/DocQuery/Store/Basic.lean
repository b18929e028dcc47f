import DocQuery.Document
import DocQuery.SortedMap
import DocQuery.Store.Fault

/-!
# The ordered store

Documents are kept in order of their ids.  A deletion leaves a tombstone,
which a scan reports and a lookup does not.  Queries read a store through a
`StoreView`, whose lookups and scans may also meet faults.

* `get?_put`, `get?_delete` — what the operations do to the lookups;
* `scan_reverse`, `scan_limited` — a scan in reverse lists the same entries
  backwards, and a limit cuts a scan off.
-/

namespace DocQuery

/-- An entry of a scan; one without a document is a tombstone. -/
structure Entry where
  id : String
  document : Option Document

/-- Which entries a scan lists, and in which direction. -/
structure ScanRequest where
  limit : Option Nat
  reverse : Bool
deriving DecidableEq, Repr

/-- The scan of everything in ascending order. -/
def ScanRequest.everything : ScanRequest := ⟨none, false⟩

/-- The first items of a list, or all of them. -/
def takeUpTo {α : Type} (limit : Option Nat) (items : List α) : List α :=
  match limit with
  | none => items
  | some n => items.take n

/-- Documents and tombstones in order of their ids. -/
@[ext]
structure Store where
  entries : SortedMap String (Option Document)

namespace Store

/-- The store that nothing was put into. -/
def empty : Store := ⟨.empty⟩

instance : Inhabited Store := ⟨empty⟩

/-- Stores a document under an id. -/
def put (s : Store) (id : String) (document : Document) : Store :=
  ⟨s.entries.insert id (some document)⟩

/-- Puts a tombstone in the place of a document; an id that was never
stored stays absent. -/
def delete (s : Store) (id : String) : Store := ⟨s.entries.adjust id fun _ => none⟩

/-- The store that documents are put into one after the other. -/
def ofDocuments (documents : List (String × Document)) : Store :=
  documents.foldl (fun s e => s.put e.1 e.2) empty

/-- The document stored under an id. -/
def get? (s : Store) (id : String) : Option Document := (s.entries.get? id).join

/-- The entries a scan lists. -/
def scan (s : Store) (request : ScanRequest) : List Entry :=
  let entries := s.entries.toList.map fun e => Entry.mk e.1 e.2
  takeUpTo request.limit (if request.reverse then entries.reverse else entries)

/-- The documents that are not deleted, with their ids, in ascending order. -/
def live (s : Store) : List (String × Document) :=
  s.entries.toList.filterMap fun e => e.2.map (e.1, ·)

/-- Looking up after a document was put. -/
theorem get?_put (s : Store) (id other : String) (document : Document) :
    (s.put id document).get? other = if other = id then some document else s.get? other := by
  simp only [get?, put, SortedMap.get?_insert]
  split <;> rfl

/-- Looking up after a deletion. -/
theorem get?_delete (s : Store) (id other : String) :
    (s.delete id).get? other = if other = id then none else s.get? other := by
  simp only [get?, delete, SortedMap.get?_adjust]
  split
  · cases s.entries.get? other <;> rfl
  · rfl

/-- A scan in reverse lists the same entries backwards. -/
theorem scan_reverse (s : Store) : s.scan ⟨none, true⟩ = (s.scan .everything).reverse := rfl

/-- A limit cuts a scan off. -/
theorem scan_limited (s : Store) (n : Nat) (reverse : Bool) :
    s.scan ⟨some n, reverse⟩ = (s.scan ⟨none, reverse⟩).take n := rfl

end Store

/-- A store as a query sees it at one moment. -/
structure StoreView where
  lookup : String → Except Fault (Option Document)
  scan : ScanRequest → List (Except Fault Entry)

/-- A store whose reads all succeed. -/
def Store.view (s : Store) : StoreView where
  lookup id := .ok (s.get? id)
  scan request := (s.scan request).map .ok

/-- The faults that reads of a store meet: lookups of some ids, and some
entries of a scan. -/
structure Impairment where
  lookups : List (String × Fault)
  entries : List (String × Fault)
deriving DecidableEq, Repr

/-- No faults. -/
def Impairment.none : Impairment := ⟨[], []⟩

/-- A store some of whose reads meet faults. -/
def Store.impairedView (s : Store) (impairment : Impairment) : StoreView where
  lookup id :=
    match impairment.lookups.lookup id with
    | some fault => .error fault
    | none => .ok (s.get? id)
  scan request :=
    (s.scan request).map fun entry =>
      match impairment.entries.lookup entry.id with
      | some fault => .error fault
      | none => .ok entry

end DocQuery
