import DocQuery.Json.Basic

/-!
# Writing JSON values

Values are written without blanks, members in their order.  In a string
only the quote, the backslash and the characters below U+0020 are escaped,
with a one-letter escape where there is one and in lower-case hexadecimal
otherwise.
-/

namespace DocQuery

namespace Json

/-- A character inside a string. -/
def escape (c : Char) : List Char :=
  match c with
  | '"' => ['\\', '"']
  | '\\' => ['\\', '\\']
  | '\x08' => ['\\', 'b']
  | '\x0c' => ['\\', 'f']
  | '\n' => ['\\', 'n']
  | '\r' => ['\\', 'r']
  | '\t' => ['\\', 't']
  | c =>
    if c < ' ' then
      ['\\', 'u', '0', '0', Nat.digitChar (c.toNat / 16), Nat.digitChar (c.toNat % 16)]
    else [c]

/-- A string between quotes. -/
def quote (s : String) : List Char := '"' :: s.toList.flatMap escape ++ ['"']

mutual

/-- The characters of a value. -/
def write : Json → List Char
  | .null => ['n', 'u', 'l', 'l']
  | .bool true => ['t', 'r', 'u', 'e']
  | .bool false => ['f', 'a', 'l', 's', 'e']
  | .number n => n.text
  | .string s => quote s
  | .array [] => ['[', ']']
  | .array (v :: rest) => '[' :: write v ++ writeItems rest ++ [']']
  | .object [] => ['{', '}']
  | .object ((key, v) :: rest) => '{' :: quote key ++ ':' :: write v ++ writeMembers rest ++ ['}']

/-- The items after the first, each after a comma. -/
def writeItems : List Json → List Char
  | [] => []
  | v :: rest => ',' :: write v ++ writeItems rest

/-- The members after the first, each after a comma. -/
def writeMembers : List (String × Json) → List Char
  | [] => []
  | (key, v) :: rest => ',' :: quote key ++ ':' :: write v ++ writeMembers rest

end

/-- The text of a value. -/
def render (v : Json) : String := String.ofList v.write

end Json

end DocQuery
