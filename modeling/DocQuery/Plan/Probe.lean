import DocQuery.Index.Basic
import DocQuery.Options
import DocQuery.Outcomes
import DocQuery.Store.Basic

/-!
# Probes

A query with a sort and a limit first asks the index for as many references
as the limit allows, in order of the sort attribute and restricted to
documents that define it.  If all of them come back they are the answer,
since documents without the attribute sort last.  Fewer do not tell whether
such documents belong to the answer.
-/

namespace DocQuery

/-- What came of a probe. -/
inductive Probe where
  | satisfied (references : List Reference)
  | insufficient (found : Nat)
  | notApplicable
deriving DecidableEq, Repr

namespace Probe

/-- What a probe asks of the index. -/
def request (filter : Filter) (sort : SortBy) (limit : Nat) : Request where
  filter := filter.requiring sort.field
  limit := some limit
  reverse := sort.isReverse
  orderBy := some sort.field

/-- Judges an answer by its first references, as many as the limit allows;
the first fault among them is the outcome. -/
def judge (limit : Nat) : Option Answer → Except Fault Probe
  | none => .ok .notApplicable
  | some answer =>
    match gather (answer.references.take limit) with
    | .error fault => .error fault
    | .ok references =>
      .ok (if references.length = limit then .satisfied references
        else .insufficient references.length)

/-- Probes an index. -/
def run (index : Index) (filter : Filter) (sort : SortBy) (limit : Nat) : Except Fault Probe :=
  judge limit (index.ask (request filter sort limit))

end Probe

end DocQuery
