import DocQuery.Filter.Match
import DocQuery.Index.Basic

/-!
# Scripted indexes

An index whose answers are written down in advance.  It pays no heed to
what is asked, except that it may decline requests with or without an order,
and it matches all documents, none, or those a filter accepts.
-/

namespace DocQuery

/-- Which requests are declined. -/
inductive Declines where
  | nothing
  | everything
  | ordered
  | unordered
deriving DecidableEq, Repr

/-- Which documents match. -/
inductive Matching where
  | all
  | nothing
  | faithful
deriving DecidableEq, Repr

/-- An index with prescribed answers. -/
structure Scripted where
  declines : Declines
  references : List (Except Fault Reference)
  limitApplied : Bool
  matching : Matching

namespace Scripted

/-- Whether a request is declined. -/
def declined (s : Scripted) (r : Request) : Bool :=
  match s.declines with
  | .nothing => false
  | .everything => true
  | .ordered => r.orderBy.isSome
  | .unordered => r.orderBy.isNone

/-- The script as an index. -/
def index (s : Scripted) : Index where
  ask r := if s.declined r then none else some ⟨s.references, s.limitApplied⟩
  accepts filter document :=
    match s.matching with
    | .all => true
    | .nothing => false
    | .faithful => filter.accepts document

end Scripted

end DocQuery
