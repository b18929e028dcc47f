import DocQuery.Proofs.Postings
import DocQuery.Proofs.Since

/-!
# Walks after any changes

Postings are changed by filing an id under a key, by taking one out, and by
being cleared.  Whatever is done to them, in whatever order, they hold the pairs
that were inserted and have been neither removed nor cleared away since
(`holds_ofChanges`): one change is looked at in `holds_after`, and a run of them
follows from the last one back.  So a walk visits exactly those of these pairs
whose key lies between its bounds, and it never asks for a range that is
refused, however its bounds lie (`walks_standing`).
-/

namespace DocQuery

namespace Postings

/-- What is done to postings. -/
inductive Change where
  | insert (key : IndexKey) (id : String)
  | remove (key : IndexKey) (id : String)
  | clear
deriving DecidableEq, Repr

/-- The postings after a change. -/
def after (p : Postings) : Change → Postings
  | .insert key id => p.insert key id
  | .remove key id => p.remove key id
  | .clear => empty

/-- The postings after some changes, nothing being filed at first. -/
def ofChanges (changes : List Change) : Postings := changes.foldl after empty

/-- A pair was inserted, and it has been neither removed nor cleared away since. -/
def Standing (changes : List Change) (key : IndexKey) (id : String) : Prop :=
  ∃ before since, changes = before ++ .insert key id :: since ∧
    .remove key id ∉ since ∧ .clear ∉ since

section Changes

variable {changes : List Change} {c : Change} {key : IndexKey} {id : String}

/-- **One change.**  It brings in the pair that it inserts, and what was there stays
unless it is removed or cleared away. -/
theorem holds_after {p : Postings} : (p.after c).Holds key id ↔
    c = .insert key id ∨ p.Holds key id ∧ c ≠ .remove key id ∧ c ≠ .clear := by
  cases c with
  | insert k i => simp [after, holds_insert, eq_comm]
  | remove k i => simp [after, holds_remove, eq_comm]
  | clear => simp [after, not_holds_empty]

theorem since_insert_iff :
    Since changes (.insert key id) (fun c => c ≠ .remove key id ∧ c ≠ .clear) ↔
      Standing changes key id := by
  simp only [Since, Standing, forall_and, List.forall_mem_ne']

/-- **Any changes.**  The pairs held are those that stand. -/
theorem holds_ofChanges : (ofChanges changes).Holds key id ↔ Standing changes key id := by
  rw [← since_insert_iff]
  exact foldl_iff_since (fun p : Postings => p.Holds key id) (not_holds_empty key id)
    fun _ _ => holds_after

end Changes

/-- A walk visits no pair twice. -/
theorem nodup_walk (p : Postings) (lower upper : Bound) (reverse : Bool) :
    (p.walk lower upper reverse).Nodup := by
  refine (p.pairwise_walk lower upper reverse).imp ?_
  rintro a _ hbefore rfl
  exact not_walkedBefore_self reverse a hbefore

/-- Walks in both directions visit the same pairs. -/
theorem perm_walk (p : Postings) (lower upper : Bound) (reverse reverse' : Bool) :
    (p.walk lower upper reverse).Perm (p.walk lower upper reverse') := by
  rw [List.perm_ext_iff_of_nodup (p.nodup_walk _ _ _) (p.nodup_walk _ _ _)]
  rintro ⟨key, id⟩
  rw [mem_walk, mem_walk]

/-- **A walk visits what stands.**  After any changes, and between any two bounds,
a walk never asks for a range that is refused.  It visits the pairs that have
been inserted and not been removed or cleared away since and whose key lies
between the bounds, each once: keys in its direction, and under one key the ids
ascending.  A walk the other way visits the same pairs, and no key is kept
without an id that stands under it. -/
theorem walks_standing (changes : List Change) (lower upper : Bound) (reverse : Bool) :
    ∃ walked, (ofChanges changes).walk? lower upper reverse = some walked ∧
      (∀ key id, (key, id) ∈ walked ↔ Standing changes key id ∧
        lower.admitsAbove key = true ∧ upper.admitsBelow key = true) ∧
      walked.Nodup ∧ walked.Pairwise (WalkedBefore reverse) ∧
      (∃ forward, (ofChanges changes).walk? lower upper false = some forward ∧
        walked.Perm forward) ∧
      ∀ g ∈ (ofChanges changes).groups.toList, ∃ id ∈ g.2.keys, Standing changes g.1 id := by
  let p := ofChanges changes
  refine ⟨p.walk lower upper reverse, p.walk?_eq_walk _ _ _, ?_, p.nodup_walk _ _ _,
    p.pairwise_walk _ _ _, ⟨p.walk lower upper false, p.walk?_eq_walk _ _ _, p.perm_walk _ _ _ _⟩,
    ?_⟩
  · intro key id
    rw [mem_walk, holds_ofChanges, Bool.and_eq_true, and_comm]
  · intro g hg
    obtain ⟨id, hid⟩ := exists_mem_keys hg
    exact ⟨id, hid, holds_ofChanges.mp ((holds_iff_of_mem hg).mpr hid)⟩

/-- A range that starts and ends at one excluded key is refused; a walk between
these bounds does not ask for it. -/
example :
    let bound := Bound.excluding (.bool true)
    (ofChanges [.insert (.bool true) "a"]).range? bound bound = none ∧
      (ofChanges [.insert (.bool true) "a"]).walk? bound bound false = some [] := by
  decide

end Postings

end DocQuery
