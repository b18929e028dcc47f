/-!
# Severities of log events

Five levels in order, from detail to what cannot be recovered from.
-/

namespace DocQuery

/-- How serious an event is. -/
inductive Severity where
  | trace
  | info
  | warn
  | error
  | fatal
deriving DecidableEq, Repr

namespace Severity

/-- The place of a severity in their order. -/
def rank : Severity → Nat
  | trace => 0
  | info => 1
  | warn => 2
  | error => 3
  | fatal => 4

/-- Whether events of a severity are logged when `least` is the least one logged. -/
def admits (least s : Severity) : Bool := least.rank ≤ s.rank

/-- The name of a severity. -/
def name : Severity → String
  | trace => "TRACE"
  | info => "INFO"
  | warn => "WARN"
  | error => "ERROR"
  | fatal => "FATAL"

/-- The severity with a given name, ASCII letters in either case. -/
def ofName? (name : String) : Option Severity :=
  match name.map Char.toLower with
  | "trace" => some trace
  | "info" => some info
  | "warn" | "warning" => some warn
  | "error" => some error
  | "fatal" => some fatal
  | _ => none

end Severity

end DocQuery
