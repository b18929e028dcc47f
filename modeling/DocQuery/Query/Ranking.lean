import DocQuery.Document
import DocQuery.Options

/-!
# Ranking documents by an attribute

Documents whose attribute is a number come first, by value in the direction
asked for; then those with another defined attribute, and last those without
one, in both directions.  Documents that rank alike keep their order.
-/

namespace DocQuery

/-- What a document's attribute is to a sort. -/
inductive Rank where
  | number (value : Binary64)
  | other
  | undefined
deriving DecidableEq

namespace Rank

/-- The rank of a document by the attribute at a path. -/
def of (field : String) (document : Document) : Rank :=
  match document.valueAt field with
  | none => undefined
  | some (.number n) => number n.toBinary64
  | some _ => other

/-- The place of a class of ranks. -/
def place : Rank → Nat
  | number _ => 0
  | other => 1
  | undefined => 2

/-- The order of two ranks. -/
def cmp (direction : Direction) : Rank → Rank → Ordering
  | number x, number y =>
    match direction with
    | .ascending => x.cmp y
    | .descending => (x.cmp y).swap
  | a, b => compare a.place b.place

end Rank

namespace SortBy

/-- The order of two documents. -/
def cmp (s : SortBy) (a b : Document) : Ordering :=
  Rank.cmp s.direction (.of s.field a) (.of s.field b)

/-- Whether one document may come before another. -/
def admits (s : SortBy) (a b : Document) : Bool := s.cmp a b ≠ .gt

/-- Sorts documents, keeping those in order that rank alike. -/
def apply (s : SortBy) (documents : List Document) : List Document :=
  documents.mergeSort s.admits

end SortBy

end DocQuery
