import DocQuery.Proofs.Arrival
import DocQuery.Query.Ranking

/-!
# The order of a sort

A rank has a place and, if it is a number, a level in the direction of the
sort.  Ranks are ordered by place first and level second, which is a total
preorder, so a sort leaves every document behind those that may come before
it.

* `cmp_ne_gt_iff` — the order by place and level;
* `pairwise_apply`, `perm_apply` — a sort arranges its documents in order;
* `FirstRanked.topRanked` — the first documents of entries in order are the top
  ones: whatever is left out is not less than any of them.
-/

namespace DocQuery

namespace Rank

/-- The level of a number among numbers, in the direction of a sort. -/
def level (direction : Direction) : Rank → Int
  | number x =>
    match direction with
    | .ascending => x.units
    | .descending => -x.units
  | other | undefined => 0

/-- Ranks are in order by place, and at one place by level. -/
theorem cmp_ne_gt_iff {direction : Direction} {a b : Rank} :
    cmp direction a b ≠ .gt ↔
      a.place < b.place ∨ a.place = b.place ∧ a.level direction ≤ b.level direction := by
  cases a with
  | number x =>
      cases b with
      | number y =>
          cases direction with
          | ascending => simp [cmp, Binary64.cmp, place, level, Int.compare_ne_gt]
          | descending =>
              simp [cmp, Binary64.cmp, place, level, Int.compare_ne_lt]
      | other | undefined => simp [cmp, place, Nat.compare_ne_gt]
  | other => cases b <;> simp [cmp, place, level, Nat.compare_ne_gt]
  | undefined => cases b <;> simp [cmp, place, level, Nat.compare_ne_gt]

/-- Whether a rank is that of a number. -/
def isNumber : Rank → Bool
  | number _ => true
  | other | undefined => false

theorem isNumber_iff {rank : Rank} : rank.isNumber = true ↔ ∃ x, rank = .number x := by
  cases rank <;> simp [isNumber]

/-- Ranks the other way round are in the other order. -/
theorem cmp_swap (direction : Direction) (a b : Rank) :
    (cmp direction a b).swap = cmp direction b a := by
  cases a <;> cases b <;> cases direction <;>
    simp [cmp, Binary64.cmp, Int.compare_swap, Nat.compare_swap]

end Rank

namespace SortBy

variable {s : SortBy} {a b d : Document}

/-- One document may come before another or the other before it. -/
theorem cmp_ne_gt_total (a b : Document) : s.cmp a b ≠ .gt ∨ s.cmp b a ≠ .gt := by
  simp only [cmp, Rank.cmp_ne_gt_iff]
  omega

theorem cmp_ne_gt_trans (hab : s.cmp a b ≠ .gt) (hbd : s.cmp b d ≠ .gt) : s.cmp a d ≠ .gt := by
  simp only [cmp, Rank.cmp_ne_gt_iff] at hab hbd ⊢
  omega

/-- What may come after a document is not less than it. -/
theorem cmp_ne_lt_of_ne_gt (h : s.cmp a b ≠ .gt) : s.cmp b a ≠ .lt := by
  intro hlt
  have hswap := Rank.cmp_swap s.direction (.of s.field b) (.of s.field a)
  rw [show Rank.cmp s.direction (.of s.field b) (.of s.field a) = .lt from hlt] at hswap
  exact h hswap.symm

/-- A sort arranges documents in its order. -/
theorem pairwise_apply (s : SortBy) (documents : List Document) :
    (s.apply documents).Pairwise fun a b => s.cmp a b ≠ .gt := by
  have hsorted : (s.apply documents).Pairwise fun a b => s.admits a b = true := by
    apply List.pairwise_mergeSort
    · intro a b d
      simp only [admits, decide_eq_true_eq]
      exact cmp_ne_gt_trans
    · intro a b
      simp only [admits, Bool.or_eq_true, decide_eq_true_eq]
      exact cmp_ne_gt_total a b
  exact hsorted.imp fun h => by simpa [admits] using h

/-- A sort keeps all documents. -/
theorem perm_apply (s : SortBy) (documents : List Document) : (s.apply documents).Perm documents :=
  List.mergeSort_perm documents s.admits

end SortBy

/-! ## The top documents -/

/-- The top documents of some entries: those of distinct entries, in order, as
many as a limit allows, and no entry left out is less than any of them. -/
def TopRanked (s : SortBy) (limit : Option Nat) (entries : List (String × Document))
    (found : List Document) : Prop :=
  ∃ chosen left : List (String × Document), (chosen ++ left).Perm entries ∧
    found = chosen.map Prod.snd ∧
    found.Pairwise (fun a b => s.cmp a b ≠ .gt) ∧
    found.length = cappedAt limit entries.length ∧
    ∀ e ∈ left, ∀ document ∈ found, s.cmp e.2 document ≠ .lt

/-- The first documents of some entries arranged in order, as many as a limit
allows. -/
def FirstRanked (s : SortBy) (limit : Option Nat) (entries : List (String × Document))
    (found : List Document) : Prop :=
  ∃ ranked : List (String × Document), ranked.Perm entries ∧
    (ranked.Pairwise fun a b => s.cmp a.2 b.2 ≠ .gt) ∧
    found = (takeUpTo limit ranked).map Prod.snd

/-- The first documents of entries in order are the top ones. -/
theorem FirstRanked.topRanked {s : SortBy} {limit : Option Nat}
    {entries : List (String × Document)} {found : List Document}
    (h : FirstRanked s limit entries found) : TopRanked s limit entries found := by
  obtain ⟨ranked, hperm, hranked, rfl⟩ := h
  obtain ⟨left, hsplit⟩ : ∃ left, takeUpTo limit ranked ++ left = ranked := by
    cases limit with
    | none => exact ⟨[], List.append_nil _⟩
    | some n => exact ⟨ranked.drop n, List.take_append_drop n ranked⟩
  have hsorted : (takeUpTo limit ranked ++ left).Pairwise fun a b => s.cmp a.2 b.2 ≠ .gt := by
    rwa [hsplit]
  obtain ⟨hfirst, _, hacross⟩ := List.pairwise_append.mp hsorted
  refine ⟨takeUpTo limit ranked, left, by rwa [hsplit], rfl, List.pairwise_map.mpr hfirst, ?_, ?_⟩
  · rw [List.length_map, length_takeUpTo, hperm.length_eq]
  · intro e he document hdocument
    obtain ⟨e', he', rfl⟩ := List.mem_map.mp hdocument
    exact SortBy.cmp_ne_lt_of_ne_gt (hacross e' he' e he)

/-- Sorting the documents of some entries and cutting the rest off gives their
first documents. -/
theorem firstRanked_apply (s : SortBy) (limit : Option Nat) {entries : List (String × Document)}
    {documents : List Document} (h : documents.Perm (entries.map Prod.snd)) :
    FirstRanked s limit entries (takeUpTo limit (s.apply documents)) := by
  obtain ⟨ranked, hdocuments, hperm⟩ := exists_map_of_perm ((s.perm_apply documents).trans h)
  have hsorted := s.pairwise_apply documents
  rw [hdocuments, List.pairwise_map] at hsorted
  exact ⟨ranked, hperm, hsorted, by rw [hdocuments, map_takeUpTo]⟩

end DocQuery
