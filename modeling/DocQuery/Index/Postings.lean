import DocQuery.Index.Key

/-!
# Postings

The document ids filed under each key of one field.  A key without ids is
not kept, so a `Postings` is determined by its pairs of key and id.  A walk
visits the keys between two bounds in either direction, and the ids under
one key always in ascending order.

A range of keys that runs backwards is refused (`Postings.range?`).  A walk
between such bounds visits nothing, and it never asks for such a range
(`Postings.isSome_walk?`).
-/

namespace DocQuery

/-- A bound of a walk. -/
inductive Bound where
  | unbounded
  | including (key : IndexKey)
  | excluding (key : IndexKey)
deriving DecidableEq, Repr

namespace Bound

/-- Whether a key is on the upper side of a lower bound. -/
def admitsAbove (lower : Bound) (key : IndexKey) : Bool :=
  match lower with
  | .unbounded => true
  | .including least => !decide (key < least)
  | .excluding least => decide (least < key)

/-- Whether a key is on the lower side of an upper bound. -/
def admitsBelow (upper : Bound) (key : IndexKey) : Bool :=
  match upper with
  | .unbounded => true
  | .including greatest => !decide (greatest < key)
  | .excluding greatest => decide (key < greatest)

/-- Whether a range between two bounds runs backwards: it would end before it
starts, or it starts and ends at one key that both bounds exclude. -/
def runsBackwards (lower upper : Bound) : Bool :=
  match lower, upper with
  | .excluding least, .excluding greatest => !decide (least < greatest)
  | .including least, .including greatest
  | .including least, .excluding greatest
  | .excluding least, .including greatest => decide (greatest < least)
  | _, _ => false

/-- Whether two bounds leave no room for a key, so that no walk is begun. -/
def leavesNothing (lower upper : Bound) : Bool :=
  match lower, upper with
  | .including least, .including greatest => decide (greatest < least)
  | .including least, .excluding greatest
  | .excluding least, .including greatest
  | .excluding least, .excluding greatest => !decide (least < greatest)
  | _, _ => false

/-- Bounds that leave room do not run backwards. -/
theorem runsBackwards_eq_false {lower upper : Bound} (h : lower.leavesNothing upper = false) :
    lower.runsBackwards upper = false := by
  have hasymm : ∀ a b : IndexKey, a < b → ¬ b < a := fun a b hab hba =>
    LinearKey.irrefl a (LinearKey.trans hab hba)
  cases lower <;> cases upper <;> simp_all [leavesNothing, runsBackwards]

end Bound

/-- The ids filed under each key, no key without ids. -/
structure Postings where
  groups : SortedMap IndexKey (SortedSet String)
  occupied : ∀ g ∈ groups.toList, g.2 ≠ .empty

namespace Postings

/-- Nothing filed. -/
def empty : Postings := ⟨.empty, by simp [SortedMap.empty]⟩

instance : Inhabited Postings := ⟨empty⟩

/-- The ids under a key. -/
def idsOf (p : Postings) (key : IndexKey) : SortedSet String := (p.groups.get? key).getD .empty

theorem insert_ne_empty (ids : SortedSet String) (id : String) : ids.insert id () ≠ .empty := by
  intro h
  have := SortedMap.get?_insert ids id id ()
  rw [h] at this
  simp at this

/-- Files an id under a key. -/
def insert (p : Postings) (key : IndexKey) (id : String) : Postings where
  groups := p.groups.insert key ((p.idsOf key).insert id ())
  occupied := by
    rintro ⟨k, ids⟩ hg
    rw [SortedMap.mem_iff_get?, SortedMap.get?_insert] at hg
    split at hg
    · cases hg
      exact insert_ne_empty _ _
    · exact p.occupied _ (SortedMap.mem_iff_get?.2 hg)

/-- Takes an id from under a key, and the key with its last id. -/
def remove (p : Postings) (key : IndexKey) (id : String) : Postings :=
  if h : (p.idsOf key).erase id = .empty then
    { groups := p.groups.erase key
      occupied := fun g hg => p.occupied g (List.mem_filter.1 hg).1 }
  else
    { groups := p.groups.insert key ((p.idsOf key).erase id)
      occupied := by
        rintro ⟨k, ids⟩ hg
        rw [SortedMap.mem_iff_get?, SortedMap.get?_insert] at hg
        split at hg
        · cases hg
          exact h
        · exact p.occupied _ (SortedMap.mem_iff_get?.2 hg) }

/-- The groups whose key lies between two bounds, ascending.  A range that runs
backwards is refused. -/
def range? (p : Postings) (lower upper : Bound) :
    Option (List (IndexKey × SortedSet String)) :=
  if lower.runsBackwards upper then none
  else some (p.groups.toList.filter fun g => lower.admitsAbove g.1 && upper.admitsBelow g.1)

/-- The pairs of key and id whose key lies between two bounds, keys ascending or
descending, unless the range between the bounds is refused. -/
def walk? (p : Postings) (lower upper : Bound) (reverse : Bool) :
    Option (List (IndexKey × String)) :=
  if lower.leavesNothing upper then some []
  else
    (p.range? lower upper).map fun inside =>
      (if reverse then inside.reverse else inside).flatMap fun g => g.2.keys.map (g.1, ·)

/-- No walk asks for a range that is refused. -/
theorem isSome_walk? (p : Postings) (lower upper : Bound) (reverse : Bool) :
    (p.walk? lower upper reverse).isSome = true := by
  unfold walk? range?
  cases h : lower.leavesNothing upper with
  | true => rfl
  | false => simp [Bound.runsBackwards_eq_false h]

/-- The pairs of key and id that a walk visits. -/
def walk (p : Postings) (lower upper : Bound) (reverse : Bool) : List (IndexKey × String) :=
  (p.walk? lower upper reverse).get (p.isSome_walk? lower upper reverse)

theorem walk?_eq_walk (p : Postings) (lower upper : Bound) (reverse : Bool) :
    p.walk? lower upper reverse = some (p.walk lower upper reverse) :=
  (Option.some_get _).symm

/-- All pairs of key and id, keys ascending. -/
def pairs (p : Postings) : List (IndexKey × String) := p.walk .unbounded .unbounded false

end Postings

end DocQuery
