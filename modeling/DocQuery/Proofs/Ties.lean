import DocQuery.Proofs.Ranking
import Mathlib.Data.List.Forall2

/-!
# Ties

A sort does not tell tied documents apart, so the first documents of some
entries in order are determined only up to ties (`FirstRanked.tied`).  It is
stable, so where tied documents arrive in the order of their ids they stay in
that order, and then the first documents are determined completely
(`firstById_apply`, `FirstById.unique`).
-/

namespace DocQuery

namespace SortBy

variable {s : SortBy} {a b : Document}

/-- Documents are tied if each may come before the other. -/
theorem cmp_eq_iff : s.cmp a b = .eq ↔ s.cmp a b ≠ .gt ∧ s.cmp b a ≠ .gt := by
  have hswap : (s.cmp a b).swap = s.cmp b a := Rank.cmp_swap _ _ _
  rw [← hswap]
  cases s.cmp a b <;> simp

/-- The place of a document and its level there, which a sort goes by. -/
def gradeOf (s : SortBy) (document : Document) : Nat × Int :=
  ((Rank.of s.field document).place, (Rank.of s.field document).level s.direction)

/-- Documents are tied if they have one place and one level. -/
theorem cmp_eq_iff_gradeOf : s.cmp a b = .eq ↔ s.gradeOf a = s.gradeOf b := by
  rw [cmp_eq_iff, cmp, cmp, Rank.cmp_ne_gt_iff, Rank.cmp_ne_gt_iff, gradeOf, gradeOf, Prod.mk.injEq]
  omega

/-- One entry precedes another: its document may come before the other, and if
the two are tied its id is smaller. -/
def Precedes (s : SortBy) (a b : String × Document) : Prop :=
  s.cmp a.2 b.2 ≠ .gt ∧ (s.cmp a.2 b.2 = .eq → a.1 < b.1)

/-- No two entries precede each other. -/
theorem Precedes.asymm {a b : String × Document} (hab : s.Precedes a b) : ¬ s.Precedes b a := by
  intro hba
  have htied : s.cmp a.2 b.2 = .eq := cmp_eq_iff.mpr ⟨hab.1, hba.1⟩
  have htied' : s.cmp b.2 a.2 = .eq := cmp_eq_iff.mpr ⟨hba.1, hab.1⟩
  exact String.lt_irrefl _ (String.lt_trans (hab.2 htied) (hba.2 htied'))

/-- Whether one entry may come before another. -/
def admitsEntry (s : SortBy) (a b : String × Document) : Bool := s.admits a.2 b.2

/-- A sort arranges entries as it arranges their documents. -/
theorem map_mergeSort_admitsEntry (s : SortBy) (entries : List (String × Document)) :
    s.apply (entries.map Prod.snd) = (entries.mergeSort s.admitsEntry).map Prod.snd :=
  (List.map_mergeSort (f := Prod.snd) (r := s.admitsEntry) (s := s.admits) fun _ _ _ _ => rfl).symm

theorem admitsEntry_iff {a b : String × Document} :
    s.admitsEntry a b = true ↔ s.cmp a.2 b.2 ≠ .gt := by
  simp [admitsEntry, admits]

theorem admitsEntry_trans (a b d : String × Document) (hab : s.admitsEntry a b = true)
    (hbd : s.admitsEntry b d = true) : s.admitsEntry a d = true :=
  admitsEntry_iff.mpr (cmp_ne_gt_trans (admitsEntry_iff.mp hab) (admitsEntry_iff.mp hbd))

theorem admitsEntry_total (a b : String × Document) :
    (s.admitsEntry a b || s.admitsEntry b a) = true := by
  rw [Bool.or_eq_true, admitsEntry_iff, admitsEntry_iff]
  exact cmp_ne_gt_total a.2 b.2

/-- **A sort is stable**: the entries tied with a document stay as they were. -/
theorem filter_tied_mergeSort (s : SortBy) (document : Document)
    (entries : List (String × Document)) :
    (entries.mergeSort s.admitsEntry).filter (fun e => s.cmp document e.2 = .eq) =
      entries.filter fun e => s.cmp document e.2 = .eq := by
  have hclass : (entries.filter fun e => s.cmp document e.2 = .eq).Pairwise
      fun a b => s.admitsEntry a b = true := by
    apply List.pairwise_of_forall_mem_list
    intro a ha b hb
    have ha' := cmp_eq_iff_gradeOf.mp (of_decide_eq_true (List.mem_filter.mp ha).2)
    have hb' := cmp_eq_iff_gradeOf.mp (of_decide_eq_true (List.mem_filter.mp hb).2)
    exact admitsEntry_iff.mpr (cmp_eq_iff.mp (cmp_eq_iff_gradeOf.mpr (ha'.symm.trans hb'))).1
  have hkept := (List.sublist_mergeSort admitsEntry_trans admitsEntry_total hclass
    List.filter_sublist).filter fun e => s.cmp document e.2 = .eq
  rw [List.filter_filter] at hkept
  have hlength := ((List.mergeSort_perm entries s.admitsEntry).filter
    fun e => s.cmp document e.2 = .eq).length_eq
  refine (hkept.eq_of_length ?_).symm.trans ?_
  · simpa using hlength.symm
  · simp

/-- Entries whose ties are in the order of their ids are arranged so that each
precedes those after it. -/
theorem pairwise_precedes_mergeSort {arrived : List (String × Document)}
    (hties : arrived.Pairwise fun a b => s.cmp a.2 b.2 = .eq → a.1 < b.1) :
    (arrived.mergeSort s.admitsEntry).Pairwise s.Precedes := by
  have hsorted := List.pairwise_mergeSort admitsEntry_trans (admitsEntry_total (s := s)) arrived
  refine List.pairwise_iff_forall_sublist.mpr ?_
  intro a b hab
  refine ⟨admitsEntry_iff.mp (List.pairwise_iff_forall_sublist.mp hsorted hab), ?_⟩
  intro htied
  have hpair := hab.filter fun e => s.cmp a.2 e.2 = .eq
  rw [filter_tied_mergeSort, List.filter_cons_of_pos (by simpa using cmp_eq_iff_gradeOf.mpr rfl),
    List.filter_cons_of_pos (by simpa using htied), List.filter_nil] at hpair
  exact List.pairwise_iff_forall_sublist.mp hties (hpair.trans List.filter_sublist) htied

end SortBy

/-! ## First documents -/

/-- The first documents of some entries arranged in order, those that are tied
in the order of their ids. -/
def FirstById (s : SortBy) (limit : Option Nat) (entries : List (String × Document))
    (found : List Document) : Prop :=
  ∃ ranked : List (String × Document), ranked.Perm entries ∧ ranked.Pairwise s.Precedes ∧
    found = (takeUpTo limit ranked).map Prod.snd

section First

variable {s : SortBy} {limit : Option Nat} {entries : List (String × Document)}
  {found found' : List Document}

/-- The first documents by id are first documents. -/
theorem FirstById.firstRanked (h : FirstById s limit entries found) :
    FirstRanked s limit entries found := by
  obtain ⟨ranked, hperm, hranked, hfound⟩ := h
  exact ⟨ranked, hperm, hranked.imp And.left, hfound⟩

/-- **The first documents by id are determined.** -/
theorem FirstById.unique (h : FirstById s limit entries found)
    (h' : FirstById s limit entries found') : found = found' := by
  obtain ⟨ranked, hperm, hranked, rfl⟩ := h
  obtain ⟨ranked', hperm', hranked', rfl⟩ := h'
  have heq : ranked = ranked' :=
    (hperm.trans hperm'.symm).eq_of_pairwise (fun a b _ _ hab hba => absurd hba hab.asymm)
      hranked hranked'
  rw [heq]

/-- **First documents are determined up to ties.** -/
theorem FirstRanked.tied (h : FirstRanked s limit entries found)
    (h' : FirstRanked s limit entries found') :
    List.Forall₂ (fun a b => s.cmp a b = .eq) found found' := by
  obtain ⟨ranked, hperm, hranked, rfl⟩ := h
  obtain ⟨ranked', hperm', hranked', rfl⟩ := h'
  -- the grades of both are one list, arranged in order
  have hsorted : ∀ {l : List (String × Document)}, (l.Pairwise fun a b => s.cmp a.2 b.2 ≠ .gt) →
      (l.map fun e => s.gradeOf e.2).Pairwise fun g g' => g.1 < g'.1 ∨ g.1 = g'.1 ∧ g.2 ≤ g'.2 := by
    intro l hl
    exact List.pairwise_map.mpr (hl.imp fun horder => Rank.cmp_ne_gt_iff.mp horder)
  have hgrades : (ranked.map fun e => s.gradeOf e.2) = ranked'.map fun e => s.gradeOf e.2 := by
    refine ((hperm.trans hperm'.symm).map _).eq_of_pairwise ?_ (hsorted hranked) (hsorted hranked')
    intro g g' _ _ hle hge
    apply Prod.ext <;> omega
  have htaken := congrArg (takeUpTo limit) hgrades
  rw [← map_takeUpTo, ← map_takeUpTo, ← List.forall₂_eq_eq_eq, List.forall₂_map_left_iff,
    List.forall₂_map_right_iff] at htaken
  rw [List.forall₂_map_left_iff, List.forall₂_map_right_iff]
  exact htaken.imp fun _ _ heq => SortBy.cmp_eq_iff_gradeOf.mpr heq

/-- Sorting entries whose ties arrive in the order of their ids, and cutting
the rest off, gives the first documents by id. -/
theorem firstById_apply {arrived : List (String × Document)} (hperm : arrived.Perm entries)
    (hties : arrived.Pairwise fun a b => s.cmp a.2 b.2 = .eq → a.1 < b.1) :
    FirstById s limit entries (takeUpTo limit (s.apply (arrived.map Prod.snd))) := by
  refine ⟨_, (List.mergeSort_perm arrived s.admitsEntry).trans hperm,
    SortBy.pairwise_precedes_mergeSort hties, ?_⟩
  rw [SortBy.map_mergeSort_admitsEntry, map_takeUpTo]

end First

end DocQuery
