import DocQuery.CommandLine.Arguments
import DocQuery.Json.Parser
import DocQuery.Options

/-!
# Sort and limit on the command line

A sort is a field, optionally followed by a colon and a direction; the last
colon counts, unless nothing stands before it.  Sort and limit are handed
on as loosely typed JSON: a direction that reads as a JSON number is one,
and a limit is whatever JSON it reads as, failing which it is a string.
-/

namespace DocQuery

namespace Arguments

/-- The parts of a text before and after its last colon. -/
def splitLastColon? : List Char → Option (List Char × List Char)
  | [] => none
  | c :: rest =>
    match splitLastColon? rest with
    | some (before, after) => some (c :: before, after)
    | none => if c = ':' then some ([], rest) else none

/-- The field and the direction that a sort names. -/
def sortParts (sort : String) : String × String :=
  match splitLastColon? sort.toList with
  | some (c :: field, direction) => (String.ofList (c :: field), String.ofList direction)
  | _ => (sort, "asc")

/-- A direction as JSON. -/
def directionJson (direction : String) : Json :=
  match Json.parse? direction with
  | some (.number n) => .number n
  | _ => .string direction

/-- A limit as JSON. -/
def limitJson (limit : String) : Json := (Json.parse? limit).getD (.string limit)

/-- A sort as JSON. -/
def sortJson (sort : String) : Json :=
  .object [((sortParts sort).1, directionJson (sortParts sort).2)]

/-- Sort and limit as JSON. -/
def optionsJson (a : Arguments) : Json :=
  .object <|
    (a.sort.map fun sort => ("sort", sortJson sort)).toList ++
      (a.limit.map fun limit => ("limit", limitJson limit)).toList

/-- The sort and the limit of a command. -/
def options (a : Arguments) : Options := .ofJson a.optionsJson

end Arguments

end DocQuery
