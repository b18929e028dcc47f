import DocQuery.Proofs.Keys

/-!
# What a walk visits

A `Postings` holds pairs of key and id.  A walk visits those whose key lies
between its bounds, each once: keys in the direction of the walk, and under
one key the ids in ascending order.

* `holds_insert`, `holds_remove` — an insertion adds one pair, a removal takes
  one away;
* `ext_holds` — the pairs held determine the postings;
* `walk?_eq` — a walk never fails, and between bounds that leave no room for a key
  there is nothing it could have visited;
* `mem_walk`, `pairwise_walk` — which pairs a walk visits, and in what order.
-/

namespace DocQuery

namespace LinearKey

variable {κ : Type} [LT κ] [LinearKey κ] {a b c : κ}

theorem lt_of_not_lt_of_lt (hab : ¬ b < a) (hbc : b < c) : a < c := by
  rcases trichotomy a b with hlt | rfl | hgt
  · exact trans hlt hbc
  · exact hbc
  · exact absurd hgt hab

theorem lt_of_lt_of_not_lt (hab : a < b) (hbc : ¬ c < b) : a < c := by
  rcases trichotomy b c with hlt | rfl | hgt
  · exact trans hab hlt
  · exact hab
  · exact absurd hgt hbc

theorem not_lt_trans (hab : ¬ b < a) (hbc : ¬ c < b) : ¬ c < a :=
  fun hca => hbc (lt_of_lt_of_not_lt hca hab)

end LinearKey

/-- Bounds between which there is a key leave room for it. -/
theorem Bound.leavesNothing_eq_false {lower upper : Bound} {key : IndexKey}
    (hlower : lower.admitsAbove key = true) (hupper : upper.admitsBelow key = true) :
    lower.leavesNothing upper = false := by
  cases lower with
  | unbounded => rfl
  | including least =>
      have hleast : ¬ key < least := by simpa [admitsAbove] using hlower
      cases upper with
      | unbounded => rfl
      | including greatest =>
          have hgreatest : ¬ greatest < key := by simpa [admitsBelow] using hupper
          simpa [leavesNothing] using LinearKey.not_lt_trans hleast hgreatest
      | excluding greatest =>
          have hgreatest : key < greatest := by simpa [admitsBelow] using hupper
          simpa [leavesNothing] using LinearKey.lt_of_not_lt_of_lt hleast hgreatest
  | excluding least =>
      have hleast : least < key := by simpa [admitsAbove] using hlower
      cases upper with
      | unbounded => rfl
      | including greatest =>
          have hgreatest : ¬ greatest < key := by simpa [admitsBelow] using hupper
          simpa [leavesNothing] using LinearKey.lt_of_lt_of_not_lt hleast hgreatest
      | excluding greatest =>
          have hgreatest : key < greatest := by simpa [admitsBelow] using hupper
          simpa [leavesNothing] using LinearKey.trans hleast hgreatest

namespace Postings

/-- An id is filed under a key. -/
def Holds (p : Postings) (key : IndexKey) (id : String) : Prop := id ∈ (p.idsOf key).keys

/-- Nothing is filed at first. -/
theorem not_holds_empty (key : IndexKey) (id : String) : ¬ empty.Holds key id := by
  simp [Holds, empty, idsOf, SortedMap.keys, SortedMap.empty, SortedMap.get?]

/-- An insertion adds one pair. -/
theorem holds_insert {p : Postings} {key other : IndexKey} {id id' : String} :
    (p.insert key id).Holds other id' ↔ other = key ∧ id' = id ∨ p.Holds other id' := by
  simp only [Holds, SortedMap.mem_keys, idsOf, insert, SortedMap.get?_insert]
  by_cases hkey : other = key
  · subst hkey
    simp only [if_true, Option.getD_some, SortedMap.contains, SortedMap.get?_insert]
    by_cases hid : id' = id <;> simp [hid]
  · simp [hkey]

/-- Filing an id under some keys adds one pair for each. -/
theorem holds_foldl_insert {keys : List IndexKey} {p : Postings} {key : IndexKey}
    {id id' : String} :
    (keys.foldl (fun p k => p.insert k id) p).Holds key id' ↔
      key ∈ keys ∧ id' = id ∨ p.Holds key id' := by
  induction keys generalizing p with
  | nil => simp
  | cons k rest ih =>
      rw [List.foldl_cons, ih, holds_insert, List.mem_cons, or_and_right, ← or_assoc]
      exact or_congr_left or_comm

/-- A removal takes one pair away. -/
theorem holds_remove {p : Postings} {key other : IndexKey} {id id' : String} :
    (p.remove key id).Holds other id' ↔ p.Holds other id' ∧ ¬ (other = key ∧ id' = id) := by
  have hids : (p.remove key id).idsOf other =
      if other = key then (p.idsOf key).erase id else p.idsOf other := by
    unfold remove
    split
    · next hempty =>
        simp only [idsOf, SortedMap.get?_erase]
        split
        · exact hempty.symm
        · rfl
    · simp only [idsOf, SortedMap.get?_insert]
      split <;> rfl
  rw [Holds, hids]
  by_cases hkey : other = key
  · subst hkey
    simp only [Holds, if_true, true_and, SortedMap.mem_keys, SortedMap.contains,
      SortedMap.get?_erase]
    by_cases hid : id' = id <;> simp [hid]
  · simp [Holds, hkey]

/-- Taking an id from under some keys takes one pair away for each. -/
theorem holds_foldl_remove {keys : List IndexKey} {p : Postings} {key : IndexKey}
    {id id' : String} :
    (keys.foldl (fun p k => p.remove k id) p).Holds key id' ↔
      p.Holds key id' ∧ ¬ (key ∈ keys ∧ id' = id) := by
  induction keys generalizing p with
  | nil => simp
  | cons k rest ih =>
      rw [List.foldl_cons, ih, holds_remove, List.mem_cons, or_and_right, not_or, and_assoc]

/-- The ids of a group are held under its key. -/
theorem holds_iff_of_mem {p : Postings} {g : IndexKey × SortedSet String}
    (hg : g ∈ p.groups.toList) {id : String} : p.Holds g.1 id ↔ id ∈ g.2.keys := by
  simp [Holds, idsOf, SortedMap.mem_iff_get?.mp hg]

/-- No key is kept without ids. -/
theorem exists_mem_keys {p : Postings} {g : IndexKey × SortedSet String}
    (hg : g ∈ p.groups.toList) : ∃ id, id ∈ g.2.keys := by
  cases hkeys : g.2.keys with
  | nil => exact absurd (SortedMap.ext (List.map_eq_nil_iff.mp hkeys)) (p.occupied g hg)
  | cons id rest => exact ⟨id, List.mem_cons_self⟩

/-- Postings are determined by the pairs they hold. -/
theorem ext_holds {p p' : Postings} (h : ∀ key id, p.Holds key id ↔ p'.Holds key id) : p = p' := by
  have hids : ∀ key, p.idsOf key = p'.idsOf key := by
    intro key
    apply SortedMap.ext_get?
    intro id
    have hiff : (p.idsOf key).contains id = (p'.idsOf key).contains id := by
      rw [Bool.eq_iff_iff, ← SortedMap.mem_keys, ← SortedMap.mem_keys]
      exact h key id
    unfold SortedMap.contains at hiff
    cases hget : (p.idsOf key).get? id <;> cases hget' : (p'.idsOf key).get? id <;> simp_all
  have hgroups : p.groups = p'.groups := by
    apply SortedMap.ext_get?
    intro key
    have hkey := hids key
    unfold idsOf at hkey
    cases hget : p.groups.get? key with
    | none =>
        cases hget' : p'.groups.get? key with
        | none => rfl
        | some ids =>
            have hmem := SortedMap.mem_iff_get?.mpr hget'
            obtain ⟨id, hid⟩ := exists_mem_keys hmem
            have hnone := (h key id).mpr ((holds_iff_of_mem hmem).mpr hid)
            simp [Holds, idsOf, hget, SortedMap.keys, SortedMap.empty] at hnone
    | some ids =>
        cases hget' : p'.groups.get? key with
        | none =>
            have hmem := SortedMap.mem_iff_get?.mpr hget
            obtain ⟨id, hid⟩ := exists_mem_keys hmem
            have hnone := (h key id).mp ((holds_iff_of_mem hmem).mpr hid)
            simp [Holds, idsOf, hget', SortedMap.keys, SortedMap.empty] at hnone
        | some ids' => simpa [hget, hget'] using hkey
  cases p
  cases p'
  simpa using hgroups

/-- A walk goes through the groups whose key lies between its bounds. -/
theorem walk?_eq (p : Postings) (lower upper : Bound) (reverse : Bool) :
    p.walk? lower upper reverse =
      let inside := p.groups.toList.filter fun g => lower.admitsAbove g.1 && upper.admitsBelow g.1
      some ((if reverse then inside.reverse else inside).flatMap fun g =>
        g.2.keys.map (g.1, ·)) := by
  unfold walk? range?
  cases h : lower.leavesNothing upper with
  | false => simp [Bound.runsBackwards_eq_false h]
  | true =>
      have hnone : (p.groups.toList.filter fun g =>
          lower.admitsAbove g.1 && upper.admitsBelow g.1) = [] := by
        refine List.filter_eq_nil_iff.mpr fun g _ hbounds => ?_
        obtain ⟨hlower, hupper⟩ := Bool.and_eq_true_iff.mp hbounds
        exact absurd (Bound.leavesNothing_eq_false hlower hupper) (by simp [h])
      cases reverse <;> simp [hnone]

theorem walk_eq (p : Postings) (lower upper : Bound) (reverse : Bool) :
    p.walk lower upper reverse =
      let inside := p.groups.toList.filter fun g => lower.admitsAbove g.1 && upper.admitsBelow g.1
      (if reverse then inside.reverse else inside).flatMap fun g => g.2.keys.map (g.1, ·) := by
  simp only [walk, walk?_eq, Option.get_some]

/-- A walk visits the pairs whose key lies between its bounds. -/
theorem mem_walk {p : Postings} {lower upper : Bound} {reverse : Bool} {key : IndexKey}
    {id : String} :
    (key, id) ∈ p.walk lower upper reverse ↔
      (lower.admitsAbove key && upper.admitsBelow key) = true ∧ p.Holds key id := by
  have hgroup : ∀ ids, (key, ids) ∈ p.groups.toList → p.idsOf key = ids := by
    intro ids hids
    simp [idsOf, SortedMap.mem_iff_get?.mp hids]
  rw [walk_eq]
  constructor
  · intro h
    obtain ⟨g, hg, hid⟩ := List.mem_flatMap.mp h
    obtain ⟨id', hid', heq⟩ := List.mem_map.mp hid
    cases heq
    have hg : g ∈ p.groups.toList.filter fun g =>
        lower.admitsAbove g.1 && upper.admitsBelow g.1 := by
      cases reverse <;> simpa using hg
    obtain ⟨hmem, hbounds⟩ := List.mem_filter.mp hg
    refine ⟨hbounds, ?_⟩
    rwa [Holds, hgroup g.2 hmem]
  · intro hheld
    obtain ⟨hbounds, hholds⟩ := hheld
    cases hget : p.groups.get? key with
    | none => simp [Holds, idsOf, hget, SortedMap.keys, SortedMap.empty] at hholds
    | some ids =>
        have hmem := SortedMap.mem_iff_get?.mpr hget
        rw [Holds, hgroup ids hmem] at hholds
        refine List.mem_flatMap.mpr ⟨(key, ids), ?_, List.mem_map_of_mem hholds⟩
        cases reverse <;> simpa using ⟨hmem, by simpa using hbounds⟩

/-- One pair comes before another on a walk: its key does, or under one key its id. -/
def WalkedBefore (reverse : Bool) (a b : IndexKey × String) : Prop :=
  a.1 = b.1 ∧ a.2 < b.2 ∨ if reverse then b.1 < a.1 else a.1 < b.1

/-- No pair comes before itself. -/
theorem not_walkedBefore_self (reverse : Bool) (a : IndexKey × String) :
    ¬ WalkedBefore reverse a a := by
  intro hbefore
  rcases hbefore with ⟨_, hid⟩ | hkey
  · exact String.lt_irrefl a.2 hid
  · exact LinearKey.irrefl a.1 (by simpa using hkey)

/-- A walk goes through the keys in its direction, and through the ids under
one key in ascending order. -/
theorem pairwise_walk (p : Postings) (lower upper : Bound) (reverse : Bool) :
    (p.walk lower upper reverse).Pairwise (WalkedBefore reverse) := by
  have hgroups : (p.groups.toList.filter fun g =>
      lower.admitsAbove g.1 && upper.admitsBelow g.1).Pairwise fun a b => a.1 < b.1 :=
    p.groups.sorted.filter _
  rw [walk_eq]
  apply List.pairwise_flatMap.mpr
  constructor
  · intro g _
    have hids : g.2.keys.Pairwise (· < ·) := List.pairwise_map.mpr g.2.sorted
    exact List.pairwise_map.mpr (hids.imp fun hlt => Or.inl ⟨rfl, hlt⟩)
  · have hdirected : (if reverse then (p.groups.toList.filter fun g =>
        lower.admitsAbove g.1 && upper.admitsBelow g.1).reverse
        else p.groups.toList.filter fun g =>
          lower.admitsAbove g.1 && upper.admitsBelow g.1).Pairwise
          fun a b => if reverse then b.1 < a.1 else a.1 < b.1 := by
      cases reverse with
      | false => simpa using hgroups
      | true => simpa [List.pairwise_reverse] using hgroups
    apply hdirected.imp
    intro g g' hlt x hx y hy
    obtain ⟨_, _, rfl⟩ := List.mem_map.mp hx
    obtain ⟨_, _, rfl⟩ := List.mem_map.mp hy
    exact Or.inr hlt

end Postings

end DocQuery
