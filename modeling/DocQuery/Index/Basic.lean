import DocQuery.Document
import DocQuery.Filter.Basic
import DocQuery.Store.Fault

/-!
# Indexes

An index is asked for the documents that match a filter, and either declines
or answers with references in its own order.  A reference ends in the id of
the document it names, several references may name one document, and they
may be imprecise: the index also decides whether a document it has been
shown matches a filter.
-/

namespace DocQuery

/-- A reference to a document: segments of which the last is its id. -/
structure Reference where
  segments : List String
deriving DecidableEq, Repr

/-- The id of the document that is referred to. -/
def Reference.documentId? (r : Reference) : Option String := r.segments.getLast?

/-- What an index is asked: a filter, at most how many documents, whether
in reverse, and the attribute the references must be ordered by. -/
structure Request where
  filter : Filter
  limit : Option Nat
  reverse : Bool
  orderBy : Option String

/-- What an index answers, and whether it has applied the limit. -/
structure Answer where
  references : List (Except Fault Reference)
  limitApplied : Bool

/-- An index: it answers or declines a request, and matches documents. -/
structure Index where
  ask : Request → Option Answer
  accepts : Filter → Document → Bool

end DocQuery
