import DocQuery.Json.Token

/-!
# JSON texts as written

`Written` is the tree of a JSON text before its numbers and strings are
given values, members of one key all kept.  It is read by a stack machine:
each open array or object is a `Frame`, and `Reading` says what may come
next.  A text is grammatical when its tokens take the machine from the
start to one finished value (`Written.parse?`); how deep the value nests is
not a question of grammar (`Written.depth`).
-/

namespace DocQuery

/-- A JSON text as written. -/
inductive Written where
  | null
  | bool (b : Bool)
  | number (literal : NumberLiteral)
  | string (pieces : List Piece)
  | array (items : List Written)
  | object (members : List (List Piece × Written))

namespace Written

/-- An open array, or an open object with the key whose value is awaited;
what it holds so far stands in reverse. -/
inductive Frame where
  | array (items : List Written)
  | object (members : List (List Piece × Written)) (key : List Piece)

/-- What may come next, inside the frames of a stack. -/
inductive Reading where
  /-- a value -/
  | value (stack : List Frame)
  /-- the first item of an array, or its end -/
  | firstItem (stack : List Frame)
  /-- the first key of an object, or its end -/
  | firstKey (stack : List Frame)
  /-- a key, after a comma -/
  | nextKey (members : List (List Piece × Written)) (stack : List Frame)
  /-- the colon after a key -/
  | colon (members : List (List Piece × Written)) (key : List Piece) (stack : List Frame)
  /-- a comma or the end of the innermost frame, after a value -/
  | after (w : Written) (stack : List Frame)

namespace Reading

/-- Begins a value. -/
def begin (stack : List Frame) : Token → Option Reading
  | .openArray => some (.firstItem stack)
  | .openObject => some (.firstKey stack)
  | .null => some (.after .null stack)
  | .bool b => some (.after (.bool b) stack)
  | .number literal => some (.after (.number literal) stack)
  | .string pieces => some (.after (.string pieces) stack)
  | _ => none

/-- Takes one token. -/
def step : Reading → Token → Option Reading
  | .value stack, t => begin stack t
  | .firstItem stack, .closeArray => some (.after (.array []) stack)
  | .firstItem stack, t => begin (.array [] :: stack) t
  | .firstKey stack, .closeObject => some (.after (.object []) stack)
  | .firstKey stack, .string key => some (.colon [] key stack)
  | .nextKey members stack, .string key => some (.colon members key stack)
  | .colon members key stack, .colon => some (.value (.object members key :: stack))
  | .after w (.array items :: stack), .comma => some (.value (.array (w :: items) :: stack))
  | .after w (.array items :: stack), .closeArray =>
    some (.after (.array (w :: items).reverse) stack)
  | .after w (.object members key :: stack), .comma => some (.nextKey ((key, w) :: members) stack)
  | .after w (.object members key :: stack), .closeObject =>
    some (.after (.object ((key, w) :: members).reverse) stack)
  | _, _ => none

/-- The value that has been read, if nothing is open. -/
def result? : Reading → Option Written
  | .after w [] => some w
  | _ => none

end Reading

/-- The value that tokens spell. -/
def ofTokens? (tokens : List Token) : Option Written :=
  (tokens.foldlM Reading.step (.value [])).bind Reading.result?

/-- The value that a text spells. -/
def parse? (text : String) : Option Written :=
  (Token.readAll? text.toList).bind ofTokens?

mutual

/-- How many arrays and objects stand inside each other. -/
def depth : Written → Nat
  | .array items => itemsDepth items + 1
  | .object members => membersDepth members + 1
  | _ => 0

/-- The greatest depth among items. -/
def itemsDepth : List Written → Nat
  | [] => 0
  | w :: rest => max (depth w) (itemsDepth rest)

/-- The greatest depth among values of members. -/
def membersDepth : List (List Piece × Written) → Nat
  | [] => 0
  | (_, w) :: rest => max (depth w) (membersDepth rest)

end

end Written

end DocQuery
