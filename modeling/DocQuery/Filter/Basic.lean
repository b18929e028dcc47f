import DocQuery.Json.Basic

/-!
# Filters

A filter is a list of predicates that must all hold.  A predicate applies an
operation to the attribute at a path.
-/

namespace DocQuery

/-- What a predicate asks of an attribute. -/
inductive Operation where
  /-- equal to a value -/
  | eq (value : Json)
  /-- undefined, or not equal to a value -/
  | ne (value : Json)
  /-- at least a bound -/
  | gte (bound : Json)
  /-- more than a bound -/
  | gt (bound : Json)
  /-- at most a bound -/
  | lte (bound : Json)
  /-- less than a bound -/
  | lt (bound : Json)
  /-- equal to one of some values -/
  | among (values : List Json)
  /-- defined, or undefined -/
  | defined (required : Bool)

/-- Whether an attribute that meets the operation is certainly defined. -/
def Operation.impliesDefined : Operation → Bool
  | .eq value => !value.isNull
  | .gte _ | .gt _ | .lte _ | .lt _ => true
  | .defined required => required
  | .ne _ | .among _ => false

/-- An operation on the attribute at a path. -/
structure Predicate where
  field : String
  operation : Operation

/-- Predicates that must all hold; without any, every document matches. -/
structure Filter where
  predicates : List Predicate

namespace Filter

/-- The filter that every document matches. -/
def all : Filter := ⟨[]⟩

/-- The filter that asks for a defined attribute besides. -/
def requiring (f : Filter) (field : String) : Filter :=
  ⟨f.predicates ++ [⟨field, .defined true⟩]⟩

end Filter

end DocQuery
