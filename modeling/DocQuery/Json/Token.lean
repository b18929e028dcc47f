import DocQuery.Json.Number

/-!
# The tokens of a JSON text

`Token.read?` takes one token off a text that does not begin with a blank,
and `Token.readAll?` reads a whole text.  Strings are read as pieces, a
character or the code of a `\u` escape: whether the codes pair up into
characters (`Piece.text?`) is asked only of a string that is used.

* `Token.length_lt_of_read?` — a token takes at least one character.
-/

namespace DocQuery

/-- One piece of a string as written: a character, or the 16-bit code of an escape. -/
inductive Piece where
  | char (c : Char)
  | code (n : Nat)
deriving DecidableEq, Repr

namespace Piece

/-- Codes of the first and of the second half of a pair. -/
def isHigh (n : Nat) : Bool := 0xD800 ≤ n && n < 0xDC00

def isLow (n : Nat) : Bool := 0xDC00 ≤ n && n < 0xE000

/-- The characters of a string, unless half a pair stands alone. -/
def text? : List Piece → Option (List Char)
  | [] => some []
  | .char c :: rest => (text? rest).map (c :: ·)
  | .code n :: rest =>
    if isHigh n then
      match rest with
      | .code m :: rest' =>
        if isLow m then
          (text? rest').map (Char.ofNat (0x10000 + (n - 0xD800) * 0x400 + (m - 0xDC00)) :: ·)
        else none
      | _ => none
    else if isLow n then none
    else (text? rest).map (Char.ofNat n :: ·)

end Piece

/-- A token of a JSON text. -/
inductive Token where
  | openArray
  | closeArray
  | openObject
  | closeObject
  | comma
  | colon
  | null
  | bool (b : Bool)
  | number (literal : NumberLiteral)
  | string (pieces : List Piece)
deriving DecidableEq, Repr

namespace Token

/-- The blanks of JSON. -/
def isBlank (c : Char) : Bool := c == ' ' || c == '\n' || c == '\t' || c == '\r'

/-! ## Strings -/

/-- The value of a hexadecimal digit. -/
def hexDigit? (c : Char) : Option Nat :=
  if '0' ≤ c ∧ c ≤ '9' then some (c.toNat - '0'.toNat)
  else if 'a' ≤ c ∧ c ≤ 'f' then some (c.toNat - 'a'.toNat + 10)
  else if 'A' ≤ c ∧ c ≤ 'F' then some (c.toNat - 'A'.toNat + 10)
  else none

/-- The value of four hexadecimal digits. -/
def hexCode? (a b c d : Char) : Option Nat := do
  return (((← hexDigit? a) * 16 + (← hexDigit? b)) * 16 + (← hexDigit? c)) * 16 + (← hexDigit? d)

/-- The character that a one-letter escape stands for. -/
def escaped? : Char → Option Char
  | '"' => some '"'
  | '\\' => some '\\'
  | '/' => some '/'
  | 'b' => some '\x08'
  | 'f' => some '\x0c'
  | 'n' => some '\n'
  | 'r' => some '\r'
  | 't' => some '\t'
  | _ => none

/-- Reads a string up to and with its closing quote. -/
def readString? : List Char → Option (List Piece × List Char)
  | [] => none
  | '"' :: rest => some ([], rest)
  | '\\' :: 'u' :: a :: b :: c :: d :: rest =>
    match hexCode? a b c d, readString? rest with
    | some n, some (pieces, rest') => some (.code n :: pieces, rest')
    | _, _ => none
  | '\\' :: e :: rest =>
    match escaped? e, readString? rest with
    | some c, some (pieces, rest') => some (.char c :: pieces, rest')
    | _, _ => none
  | c :: rest =>
    if c < ' ' then none
    else
      match readString? rest with
      | some (pieces, rest') => some (.char c :: pieces, rest')
      | none => none

/-! ## Numbers -/

/-- The digits that a text begins with, and the rest of it. -/
def readDigits (cs : List Char) : List Nat × List Char :=
  ((cs.takeWhile Char.isDigit).map fun c => c.toNat - '0'.toNat, cs.dropWhile Char.isDigit)

/-- The exponent that a text begins with: at least one digit. -/
def readMagnitude? (negative : Bool) (cs : List Char) : Option (Option Int × List Char) :=
  let run := readDigits cs
  let n := NumberLiteral.valueOf run.1
  if run.1.isEmpty then none else some (some (if negative then -(n : Int) else n), run.2)

/-- The exponent that a text begins with: at least one digit, after an optional sign. -/
def readSigned? : List Char → Option (Option Int × List Char)
  | '-' :: rest => readMagnitude? true rest
  | '+' :: rest => readMagnitude? false rest
  | cs => readMagnitude? false cs

/-- The exponent part that a text begins with, if there is one. -/
def readExponent? : List Char → Option (Option Int × List Char)
  | 'e' :: rest => readSigned? rest
  | 'E' :: rest => readSigned? rest
  | cs => some (none, cs)

/-- The fraction that a text begins with: none, or a point and at least one digit. -/
def readFraction? : List Char → Option (List Nat × List Char)
  | '.' :: rest =>
    let run := readDigits rest
    if run.1.isEmpty then none else some run
  | cs => some ([], cs)

/-- Whether digits may stand before the point: there is one at least, and
the first is zero only if it is the only one. -/
def isWhole : List Nat → Bool
  | [] => false
  | 0 :: _ :: _ => false
  | _ => true

/-- Reads a number without its sign. -/
def readUnsigned? (negative : Bool) (cs : List Char) : Option (NumberLiteral × List Char) :=
  let run := readDigits cs
  if isWhole run.1 then
    match readFraction? run.2 with
    | none => none
    | some (fraction, rest) =>
      match readExponent? rest with
      | none => none
      | some (exponent, rest') => some (⟨negative, run.1, fraction, exponent⟩, rest')
  else none

/-! ## All tokens -/

/-- Reads one token. -/
def read? : List Char → Option (Token × List Char)
  | [] => none
  | '[' :: rest => some (.openArray, rest)
  | ']' :: rest => some (.closeArray, rest)
  | '{' :: rest => some (.openObject, rest)
  | '}' :: rest => some (.closeObject, rest)
  | ',' :: rest => some (.comma, rest)
  | ':' :: rest => some (.colon, rest)
  | 'n' :: 'u' :: 'l' :: 'l' :: rest => some (.null, rest)
  | 't' :: 'r' :: 'u' :: 'e' :: rest => some (.bool true, rest)
  | 'f' :: 'a' :: 'l' :: 's' :: 'e' :: rest => some (.bool false, rest)
  | '"' :: rest =>
    match readString? rest with
    | some (pieces, rest') => some (.string pieces, rest')
    | none => none
  | '-' :: rest =>
    match readUnsigned? true rest with
    | some (literal, rest') => some (.number literal, rest')
    | none => none
  | cs =>
    match readUnsigned? false cs with
    | some (literal, rest') => some (.number literal, rest')
    | none => none

theorem length_le_of_readString? {cs rest : List Char} {pieces : List Piece}
    (h : readString? cs = some (pieces, rest)) : rest.length ≤ cs.length := by
  fun_induction readString? cs generalizing pieces rest <;> grind [List.length_cons]

/-- A run of digits and what follows it make up the text. -/
theorem length_readDigits (cs : List Char) :
    (readDigits cs).1.length + (readDigits cs).2.length = cs.length := by
  simp only [readDigits, List.length_map]
  rw [← List.length_append, List.takeWhile_append_dropWhile]

theorem length_le_of_readFraction? {cs rest : List Char} {digits : List Nat}
    (h : readFraction? cs = some (digits, rest)) : rest.length ≤ cs.length := by
  unfold readFraction? at h
  split at h
  · next r => have := length_readDigits r; grind [List.length_cons]
  · grind

theorem length_le_of_readMagnitude? {negative : Bool} {cs rest : List Char} {e : Option Int}
    (h : readMagnitude? negative cs = some (e, rest)) : rest.length ≤ cs.length := by
  have := length_readDigits cs
  grind [readMagnitude?]

theorem length_le_of_readExponent? {cs rest : List Char} {e : Option Int}
    (h : readExponent? cs = some (e, rest)) : rest.length ≤ cs.length := by
  have signed {cs : List Char} (h : readSigned? cs = some (e, rest)) :
      rest.length ≤ cs.length := by
    unfold readSigned? at h
    split at h <;> have := length_le_of_readMagnitude? h <;> grind [List.length_cons]
  unfold readExponent? at h
  split at h
  · have := signed h; grind [List.length_cons]
  · have := signed h; grind [List.length_cons]
  · grind

theorem length_lt_of_readUnsigned? {negative : Bool} {cs rest : List Char} {l : NumberLiteral}
    (h : readUnsigned? negative cs = some (l, rest)) : rest.length < cs.length := by
  have hrun := length_readDigits cs
  have hpos : isWhole (readDigits cs).1 → 0 < (readDigits cs).1.length := by
    cases (readDigits cs).1 <;> simp [isWhole]
  grind [readUnsigned?, → length_le_of_readFraction?, → length_le_of_readExponent?]

/-- A token takes at least one character. -/
theorem length_lt_of_read? {cs rest : List Char} {t : Token}
    (h : read? cs = some (t, rest)) : rest.length < cs.length := by
  unfold read? at h
  split at h <;>
    grind [List.length_cons, → length_le_of_readString?, → length_lt_of_readUnsigned?]

/-- Reads all tokens of a text, blanks between them left out. -/
def readAll? (cs : List Char) : Option (List Token) :=
  match cs with
  | [] => some []
  | c :: rest =>
    if isBlank c then readAll? rest
    else
      match _h : read? (c :: rest) with
      | none => none
      | some (t, rest') => (readAll? rest').map (t :: ·)
termination_by cs.length
decreasing_by
  · simp
  · exact length_lt_of_read? (by assumption)

end Token

end DocQuery
