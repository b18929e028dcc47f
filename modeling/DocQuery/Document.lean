import DocQuery.Json.Basic

/-!
# Documents and their attributes

An attribute is named by a path, segments separated by points, and is
looked up member by member.  It is *undefined* when a segment is missing,
when a value on the way is not an object, and when any value on the way or
at the end is null; so a defined attribute is never null
(`valueAlong_ne_null`).
-/

namespace DocQuery

/-- A stored document. -/
abbrev Document := Json

/-- The segments of a path, one more than it has points. -/
def splitAtPoints : List Char → List (List Char)
  | [] => [[]]
  | c :: rest =>
    if c = '.' then [] :: splitAtPoints rest
    else
      match splitAtPoints rest with
      | [] => [[c]]
      | segment :: more => (c :: segment) :: more

/-- The segments of a path. -/
def segments (path : String) : List String := (splitAtPoints path.toList).map String.ofList

namespace Document

/-- The value that keys lead to, none of the values on the way being null. -/
def valueAlong (value : Json) : List String → Option Json
  | [] => some value
  | key :: rest =>
    match value.get? key with
    | none | some .null => none
    | some next => valueAlong next rest

/-- The value of the attribute at a path, if it is defined. -/
def valueAt (document : Document) (path : String) : Option Json :=
  valueAlong document (segments path)

/-- A value reached through at least one key is not null. -/
theorem valueAlong_ne_null {value found : Json} {key : String} {keys : List String}
    (h : valueAlong value (key :: keys) = some found) : found ≠ .null := by
  induction keys generalizing value key with
  | nil =>
    simp only [valueAlong] at h
    split at h
    · simp at h
    · simp at h
    · next hne _ =>
      cases h
      exact fun e => hne (by simp_all)
  | cons k rest ih =>
    rw [valueAlong] at h
    split at h
    · simp at h
    · simp at h
    · exact ih h

end Document

end DocQuery
