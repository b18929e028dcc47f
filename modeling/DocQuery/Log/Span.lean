import DocQuery.Log.Event

/-!
# Spans

A span is an activity that is logged when it begins and once more when it
ends.  Its fields are repeated on both events.  It ends by completing, by
failing, or by being abandoned, and which of these is part of the name of
the second event.
-/

namespace DocQuery

/-- An activity under way; `started` is in milliseconds. -/
structure Span where
  name : String
  fields : List (String × String)
  started : Nat
deriving DecidableEq, Repr

namespace Span

/-- The event that begins the span. -/
def begun (s : Span) : Event := ⟨.info, s.name ++ "_BEGIN", s.fields⟩

/-- The event of a span that completes at a given time. -/
def completed (s : Span) (now : Nat) (extra : List (String × String)) : Event :=
  ⟨.info, s.name ++ "_COMPLETE", s.fields ++ ("elapsed_ms", toString (now - s.started)) :: extra⟩

/-- The event of a span that fails. -/
def failed (s : Span) (severity : Severity) (reason : String) : Event :=
  ⟨severity, s.name ++ "_FAILED", s.fields ++ [("reason", reason)]⟩

/-- The event of a span that is given up before it ends. -/
def abandoned (s : Span) : Event :=
  ⟨.info, s.name ++ "_INCOMPLETE", s.fields ++ [("reason", "scope dropped without completion")]⟩

end Span

end DocQuery
