import DocQuery.Document
import DocQuery.Filter.Basic

/-!
# Matching documents

Numbers are compared by value and strings by code point; values of
different kinds are never in a range.  An array meets an operation when it
does as a whole or when one of its items does.  An undefined attribute
meets no comparison but `ne`.
-/

namespace DocQuery

namespace Json

/-- Equality of an attribute with an operand: two numbers by value, other
values as written. -/
def equals : Json → Json → Bool
  | .number a, .number b => a.toBinary64.same b.toBinary64
  | a, b => a.same b

/-- The order of an attribute and a bound: numbers with numbers, strings
with strings. -/
def cmp? : Json → Json → Option Ordering
  | .number a, .number b => some (a.toBinary64.cmp b.toBinary64)
  | .string a, .string b => some (compare a b)
  | _, _ => none

end Json

namespace Operation

/-- Whether one value meets a comparison. -/
def holdsOf (operation : Operation) (actual : Json) : Bool :=
  match operation with
  | .eq value => actual.equals value
  | .among values => values.any actual.equals
  | .gte bound => (actual.cmp? bound).any (· ≠ .lt)
  | .gt bound => (actual.cmp? bound).any (· = .gt)
  | .lte bound => (actual.cmp? bound).any (· ≠ .gt)
  | .lt bound => (actual.cmp? bound).any (· = .lt)
  | .ne _ | .defined _ => false

/-- Whether a test holds of a value, or of an item of an array that is not null. -/
def ofAny (test : Json → Bool) (actual : Json) : Bool :=
  test actual ||
    match actual with
    | .array items => items.any fun item => !item.isNull && test item
    | _ => false

/-- Whether an attribute, if it is defined, meets the operation. -/
def accepts (operation : Operation) (found : Option Json) : Bool :=
  match operation, found with
  | .defined required, found => found.isSome == required
  | .ne _, none => true
  | .ne unwanted, some actual => !ofAny (·.equals unwanted) actual
  | _, none => false
  | operation, some actual => ofAny operation.holdsOf actual

end Operation

/-- Whether a document meets a predicate. -/
def Predicate.accepts (p : Predicate) (document : Document) : Bool :=
  p.operation.accepts (document.valueAt p.field)

/-- Whether a document meets all predicates of a filter. -/
def Filter.accepts (f : Filter) (document : Document) : Bool :=
  f.predicates.all fun p => p.accepts document

end DocQuery
