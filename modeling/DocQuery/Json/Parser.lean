import DocQuery.Json.Basic
import DocQuery.Json.Written

/-!
# Reading JSON values

A grammatical text denotes a value when it nests at most `maxDepth` deep,
no number overflows, and no half of a surrogate pair stands alone
(`Json.parse?`).  Of members with one key the first gives the place and the
last the value.
-/

namespace DocQuery

namespace Json

mutual

/-- The value of a text as written. -/
def ofWritten? : Written → Option Json
  | .null => some .null
  | .bool b => some (.bool b)
  | .number literal => (Number.ofLiteral? literal).map .number
  | .string pieces => (Piece.text? pieces).map fun cs => .string (String.ofList cs)
  | .array items => (itemsOf? items).map .array
  | .object members => (membersOf? members).map ofMembers

/-- The values of items. -/
def itemsOf? : List Written → Option (List Json)
  | [] => some []
  | w :: rest =>
    match ofWritten? w, itemsOf? rest with
    | some v, some vs => some (v :: vs)
    | _, _ => none

/-- The keys and values of members. -/
def membersOf? : List (List Piece × Written) → Option (List (String × Json))
  | [] => some []
  | (key, w) :: rest =>
    match Piece.text? key, ofWritten? w, membersOf? rest with
    | some k, some v, some ms => some ((String.ofList k, v) :: ms)
    | _, _, _ => none

end

/-- How many arrays and objects may stand inside each other. -/
def maxDepth : Nat := 127

/-- The value that a text denotes. -/
def parse? (text : String) : Option Json :=
  match Written.parse? text with
  | some w => if w.depth ≤ maxDepth then ofWritten? w else none
  | none => none

end Json

end DocQuery
