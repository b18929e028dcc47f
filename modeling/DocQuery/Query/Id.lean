/-!
# Names for queries

A query is named by sixteen bytes in the usual form: hexadecimal digits in
groups of 8, 4, 4, 4 and 12, the first digit of the third group being 4 and
the first of the fourth one of 8, 9, a and b.
-/

namespace DocQuery

namespace QueryId

/-- The bytes with their version and variant set. -/
def stamped (bytes : List Nat) : List Nat :=
  bytes.mapIdx fun i b => if i = 6 then 64 + b % 16 else if i = 8 then 128 + b % 64 else b

/-- The two lower-case hexadecimal digits of a byte. -/
def byteDigits (b : Nat) : List Char := [Nat.digitChar (b / 16 % 16), Nat.digitChar (b % 16)]

/-- The name that sixteen bytes make. -/
def ofBytes (bytes : List Nat) : String :=
  let digits := (stamped bytes).flatMap byteDigits
  String.ofList <|
    digits.take 8 ++ '-' :: (digits.drop 8).take 4 ++ '-' :: (digits.drop 12).take 4 ++
      '-' :: (digits.drop 16).take 4 ++ '-' :: (digits.drop 20).take 12

end QueryId

end DocQuery
