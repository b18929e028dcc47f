import DocQuery.Json.Basic
import DocQuery.SortedMap

/-!
# Index keys

A scalar value has a key: booleans come before numbers, numbers before
strings.  A number's key is its 64-bit pattern rearranged so that unsigned
order of patterns is order of values: a positive number has its sign bit
set, a negative one has all bits flipped, and both zeros have one key.
-/

namespace DocQuery

/-- The key of an indexed value. -/
inductive IndexKey where
  | bool (b : Bool)
  | number (pattern : UInt64)
  | string (s : String)
deriving DecidableEq, Repr

namespace Binary64

/-- The pattern of a number, rearranged to be ordered like the numbers. -/
def orderPattern (x : Binary64) : UInt64 :=
  .ofNat <|
    if x.isZero then 0x8000000000000000
    else if x.negative then 0xFFFFFFFFFFFFFFFF - x.bits
    else x.bits + 0x8000000000000000

end Binary64

namespace IndexKey

/-- The order of keys. -/
def Before : IndexKey → IndexKey → Prop
  | .bool a, .bool b => a < b
  | .bool _, _ => True
  | .number _, .bool _ => False
  | .number a, .number b => a < b
  | .number _, .string _ => True
  | .string a, .string b => a < b
  | .string _, _ => False

instance : LT IndexKey := ⟨Before⟩

instance : DecidableLT IndexKey := fun a b =>
  match a, b with
  | .bool a, .bool b => inferInstanceAs (Decidable (a < b))
  | .bool _, .number _ => .isTrue trivial
  | .bool _, .string _ => .isTrue trivial
  | .number _, .bool _ => .isFalse id
  | .number a, .number b => inferInstanceAs (Decidable (a < b))
  | .number _, .string _ => .isTrue trivial
  | .string _, .bool _ => .isFalse id
  | .string _, .number _ => .isFalse id
  | .string a, .string b => inferInstanceAs (Decidable (a < b))

instance : LinearKey IndexKey where
  irrefl a := by
    cases a with
    | bool b => exact Bool.lt_irrefl b
    | number p => exact UInt64.lt_irrefl p
    | string s => exact String.lt_irrefl s
  trans {a b c} hab hbc :=
    match a, b, c, hab, hbc with
    | .bool _, .bool _, .bool _, hab, hbc => Bool.lt_trans hab hbc
    | .bool _, _, .number _, _, _ => trivial
    | .bool _, _, .string _, _, _ => trivial
    | .number _, .number _, .number _, hab, hbc => UInt64.lt_trans hab hbc
    | .number _, _, .string _, _, _ => trivial
    | .string _, .string _, .string _, hab, hbc => String.lt_trans hab hbc
  trichotomy a b := by
    cases a <;> cases b
    · next a b => revert a b; decide
    · exact .inl trivial
    · exact .inl trivial
    · exact .inr (.inr trivial)
    · next a b =>
      rcases Std.lt_trichotomy a b with h | h | h
      · exact .inl h
      · exact .inr (.inl (by rw [h]))
      · exact .inr (.inr h)
    · exact .inl trivial
    · exact .inr (.inr trivial)
    · exact .inr (.inr trivial)
    · next a b =>
      rcases Std.lt_trichotomy a b with h | h | h
      · exact .inl h
      · exact .inr (.inl (by rw [h]))
      · exact .inr (.inr h)

/-- The key of a value; null, arrays and objects have none. -/
def ofJson? : Json → Option IndexKey
  | .bool b => some (.bool b)
  | .number n => some (.number n.toBinary64.orderPattern)
  | .string s => some (.string s)
  | _ => none

/-- The keys a value is filed under, ascending: those of its items if it is
an array, and otherwise its own. -/
def keysOf : Json → List IndexKey
  | .array items => (SortedMap.ofList ((items.filterMap ofJson?).map (·, ()))).keys
  | value => (ofJson? value).toList

/-- The sixteen lower-case hexadecimal digits of a pattern. -/
def hexDigits (pattern : UInt64) : List Char :=
  (List.range 16).map fun i => Nat.digitChar (pattern.toNat / Nat.pow 16 (15 - i) % 16)

/-- The text of a key in a reference. -/
def encode : IndexKey → String
  | .bool b => if b then "b:true" else "b:false"
  | .number pattern => "n:" ++ String.ofList (hexDigits pattern)
  | .string s => "s:" ++ s

end IndexKey

end DocQuery
