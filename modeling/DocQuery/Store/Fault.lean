import DocQuery.Log.Severity

/-!
# Faults

What can go wrong while documents are read: the store does not answer, an
entry is unreadable, or an index fails.  A missing document is no fault.
The store names a fault in its own words (`Fault.message`); a query that
meets one reports it under a code, with a severity and its own wording.
-/

namespace DocQuery

/-- Why something could not be read. -/
inductive Fault where
  | unavailable (reason : String)
  | corrupted (key reason : String)
  | index (reason : String)
deriving DecidableEq, Repr

namespace Fault

/-- The store's words for the fault. -/
def message : Fault → String
  | unavailable reason => "Store unavailable: " ++ reason
  | corrupted key reason => "Corrupted entry at key '" ++ key ++ "': " ++ reason
  | index reason => "Index fault: " ++ reason

/-- The code a query reports the fault under. -/
def code : Fault → String
  | unavailable _ => "AERO_QUERY_STORE_FAULT"
  | corrupted _ _ => "AERO_DATA_CORRUPTION"
  | index _ => "AERO_QUERY_INDEX_FAULT"

/-- Unreadable data is fatal; the other faults are errors. -/
def severity : Fault → Severity
  | corrupted _ _ => .fatal
  | _ => .error

/-- Whether what is stored cannot be trusted. -/
def isFatal (f : Fault) : Bool := f.severity == .fatal

/-- The stored key involved, if one is known. -/
def key? : Fault → Option String
  | corrupted key _ => some key
  | _ => none

/-- A query's words for the fault. -/
def report : Fault → String
  | corrupted key reason => "Data corruption at key '" ++ key ++ "': " ++ reason
  | index reason => reason
  | f => f.message

/-- The fault with its severity and code. -/
def display (f : Fault) : String := "[" ++ f.severity.name ++ "] " ++ f.code ++ ": " ++ f.report

end Fault

end DocQuery
