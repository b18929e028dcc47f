import DocQuery.Json.Printer
import DocQuery.Log.Severity
import DocQuery.SortedMap

/-!
# Log events

An event is logged as one line: a JSON object with the event's name, its
severity and then its fields in ascending order of their keys.  A repeated
key keeps its last value, and no field can take the place of the name or the
severity.
-/

namespace DocQuery

/-- Something worth logging. -/
structure Event where
  severity : Severity
  name : String
  fields : List (String × String)
deriving DecidableEq, Repr

namespace Event

/-- Whether a key belongs to the head of a line. -/
def isReserved (key : String) : Bool := key == "event" || key == "severity"

/-- The fields as they are logged: in key order, each key once. -/
def loggedFields (e : Event) : SortedMap String String :=
  .ofList (e.fields.filter fun field => !isReserved field.1)

/-- The event as a JSON object. -/
def toJson (e : Event) : Json :=
  .object <|
    ("event", .string e.name) :: ("severity", .string e.severity.name) ::
      e.loggedFields.toList.map fun field => (field.1, .string field.2)

/-- The event's line in the log. -/
def line (e : Event) : String := e.toJson.render ++ "\n"

end Event

/-- The lines of those events that are serious enough. -/
def logText (least : Severity) (events : List Event) : String :=
  String.join ((events.filter fun e => least.admits e.severity).map Event.line)

end DocQuery
