import DocQuery.Json.Basic

/-!
# Sort and limit

Options are read from loosely typed JSON and never refused: what is not a
sort or a limit counts as absent.
-/

namespace DocQuery

/-- Which way a sort goes. -/
inductive Direction where
  | ascending
  | descending
deriving DecidableEq, Repr

namespace Direction

/-- The short name of a direction. -/
def name : Direction → String
  | ascending => "asc"
  | descending => "desc"

/-- A number below zero and the words for it ask for descending order;
anything else is ascending. -/
def ofJson : Json → Direction
  | .number n => if n.toBinary64.isNegative then descending else ascending
  | .string s =>
    match s.map Char.toLower with
    | "desc" | "descending" => descending
    | _ => ascending
  | _ => ascending

end Direction

/-- A sort by one attribute. -/
structure SortBy where
  field : String
  direction : Direction
deriving DecidableEq, Repr

/-- Whether the sort goes downwards. -/
def SortBy.isReverse (s : SortBy) : Bool := s.direction == .descending

/-- An optional sort and an optional limit. -/
structure Options where
  sort : Option SortBy
  limit : Option Nat
deriving DecidableEq, Repr

namespace Options

/-- The sort that an options object asks for: by its first attribute as written. -/
def sortOf? (options : Json) : Option SortBy :=
  match options.get? "sort" with
  | some (.object ((field, order) :: _)) => some ⟨field, .ofJson order⟩
  | _ => none

/-- The limit that an options object asks for: a non-negative integer. -/
def limitOf? (options : Json) : Option Nat :=
  match options.get? "limit" with
  | some (.number n) => n.toNat?
  | _ => none

/-- The options that a JSON value asks for. -/
def ofJson (options : Json) : Options := ⟨sortOf? options, limitOf? options⟩

end Options

end DocQuery
