import DocQuery.Filter.Basic

/-!
# Filters from JSON

A filter is written as an object.  Each member names an attribute; its value
is either an object of operators, `$`-words with their operands, or a value
the attribute must equal.  An object counts as operators when it is not
empty and all its keys begin with `$`.
-/

namespace DocQuery

/-- Why a JSON value is no filter. -/
inductive FilterError where
  | notAnObject
  | fieldName (name : String)
  | unknownOperator (name : String)
  | operand (operator : String)
deriving DecidableEq, Repr

namespace FilterError

/-- The code of the error. -/
def code : FilterError → String
  | notAnObject | fieldName _ => "AERO_QUERY_INVALID"
  | unknownOperator _ => "AERO_QUERY_UNKNOWN_OPERATOR"
  | operand _ => "AERO_QUERY_INVALID_OPERAND"

/-- The error in words. -/
def message : FilterError → String
  | notAnObject => "Invalid filter: filter must be a JSON object"
  | fieldName name => "Invalid filter: invalid field name '" ++ name ++ "'"
  | unknownOperator name => "Unknown operator: " ++ name
  | operand operator => "Invalid operand for " ++ operator

end FilterError

/-- Whether a key is written like an operator. -/
def isOperatorWord (key : String) : Bool := key.toList.head? == some '$'

namespace Operation

/-- The operation of an operator and its operand. -/
def ofOperator? (operator : String) (operand : Json) : Except FilterError Operation :=
  match operator with
  | "$eq" => .ok (.eq operand)
  | "$ne" => .ok (.ne operand)
  | "$gt" => .ok (.gt operand)
  | "$gte" => .ok (.gte operand)
  | "$lt" => .ok (.lt operand)
  | "$lte" => .ok (.lte operand)
  | "$in" =>
    match operand with
    | .array values => .ok (.among values)
    | _ => .error (.operand operator)
  | "$exists" =>
    match operand with
    | .bool required => .ok (.defined required)
    | _ => .error (.operand operator)
  | _ => .error (.unknownOperator operator)

end Operation

namespace Filter

/-- The operators a condition consists of, if it is an object of operators. -/
def operators? : Json → Option (List (String × Json))
  | .object [] => none
  | .object members => if members.all fun e => isOperatorWord e.1 then some members else none
  | _ => none

/-- The predicates that operators put on an attribute. -/
def ofOperators? (field : String) : List (String × Json) → Except FilterError (List Predicate)
  | [] => .ok []
  | (operator, operand) :: rest => do
    let operation ← Operation.ofOperator? operator operand
    return ⟨field, operation⟩ :: (← ofOperators? field rest)

/-- The predicates of one member of a filter object. -/
def ofMember? (field : String) (condition : Json) : Except FilterError (List Predicate) :=
  if field.isEmpty || isOperatorWord field then .error (.fieldName field)
  else
    match operators? condition with
    | some operators => ofOperators? field operators
    | none => .ok [⟨field, .eq condition⟩]

/-- The predicates of the members of a filter object. -/
def ofMembers? : List (String × Json) → Except FilterError (List Predicate)
  | [] => .ok []
  | (field, condition) :: rest => do
    let here ← ofMember? field condition
    return here ++ (← ofMembers? rest)

/-- The filter that a JSON value is written for. -/
def ofJson? : Json → Except FilterError Filter
  | .object members => (ofMembers? members).map Filter.mk
  | _ => .error .notAnObject

end Filter

end DocQuery
