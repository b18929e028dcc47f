import DocQuery.Index.Basic

/-!
# Distinct documents of a list of references

Each document that references name is kept where it is first named.
References without segments name none, and faults stay in their places.
-/

namespace DocQuery

/-- The ids that references name and that have not been seen, each once. -/
def unseenIds : (seen : List String) → List (Except Fault Reference) → List (Except Fault String)
  | _, [] => []
  | seen, .error fault :: rest => .error fault :: unseenIds seen rest
  | seen, .ok reference :: rest =>
    match reference.documentId? with
    | none => unseenIds seen rest
    | some id =>
      if seen.contains id then unseenIds seen rest else .ok id :: unseenIds (id :: seen) rest

/-- The ids that references name, each once. -/
def distinctIds (references : List (Except Fault Reference)) : List (Except Fault String) :=
  unseenIds [] references

end DocQuery
