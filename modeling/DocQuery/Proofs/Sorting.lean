import DocQuery.Proofs.Denoting
import DocQuery.Proofs.Ties

/-!
# What a sort makes of a list

The order of a sort is a total preorder, and the sort is stable: a list is
sorted in one way only, with the documents of each tie as they were
(`eq_apply_iff`).

The numbers make up the first of three places, and are tied where their values
are equal (`cmp_eq_iff_numberAt`).  At the other two places, those of other
attributes and of undefined ones, all documents are tied with one another
(`cmp_eq_iff_place`), whichever way the sort goes.  So sorting a list puts its
numbers in order and leaves the rest as it was, place by place
(`sorts_stably`).
-/

namespace DocQuery

/-- A list arranged by places from 0 to 2 is made of what is at each of them. -/
theorem eq_append_of_places {α : Type} {place : α → Nat} (hle : ∀ a, place a ≤ 2) {l : List α}
    (h : l.Pairwise fun a b => place a ≤ place b) :
    l = l.filter (place · = 0) ++ l.filter (place · = 1) ++ l.filter (place · = 2) := by
  induction l with
  | nil => rfl
  | cons a rest ih =>
      obtain ⟨ha, hrest⟩ := List.pairwise_cons.mp h
      have hnone : ∀ k < place a, rest.filter (place · = k) = [] := by
        intro k hk
        refine List.filter_eq_nil_iff.mpr fun b hb => ?_
        have hab := ha b hb
        rw [decide_eq_true_eq]
        omega
      have hplace : place a = 0 ∨ place a = 1 ∨ place a = 2 := by
        have hlast := hle a
        omega
      have ih := ih hrest
      rcases hplace with h0 | h1 | h2
      · simpa [h0] using ih
      · rw [hnone 0 (by omega), List.nil_append] at ih
        simpa [h1, hnone 0 (by omega)] using ih
      · rw [hnone 0 (by omega), hnone 1 (by omega), List.nil_append, List.nil_append] at ih
        simpa [h2, hnone 0 (by omega), hnone 1 (by omega)] using ih

/-- The value of the attribute at a path, if it is a number. -/
def Document.numberAt (d : Document) (field : String) : Option ℚ :=
  match d.valueAt field with
  | some (.number n) => some n.toBinary64.value
  | _ => none

/-- The places of documents are numbered from 0 to 2. -/
theorem Rank.place_le (rank : Rank) : rank.place ≤ 2 := by
  cases rank <;> simp [place]

namespace SortBy

variable {s : SortBy} {a b d : Document}

/-! ## The order -/

/-- The order of documents is a lawful comparison. -/
instance (s : SortBy) : Std.TransCmp s.cmp where
  eq_swap := (Rank.cmp_swap _ _ _).symm
  isLE_trans := by
    intro a b d hab hbd
    rw [Ordering.isLE_iff_ne_gt] at hab hbd ⊢
    exact cmp_ne_gt_trans hab hbd

/-- What comes before a second document that comes before a third comes before the
third, and so for what is tied or comes after. -/
theorem cmp_trans {order : Ordering} (hab : s.cmp a b = order) (hbd : s.cmp b d = order) :
    s.cmp a d = order := by
  cases order with
  | lt => exact Std.TransCmp.lt_trans hab hbd
  | eq => exact Std.TransCmp.eq_trans hab hbd
  | gt => exact Std.TransCmp.gt_trans hab hbd

/-- Two numbers are compared by value. -/
theorem cmp_of_numberAt {x y : ℚ} (ha : a.numberAt s.field = some x)
    (hb : b.numberAt s.field = some y) : s.cmp a b =
      match s.direction with
      | .ascending => compare x y
      | .descending => (compare x y).swap := by
  unfold Document.numberAt at ha hb
  split at ha <;> split at hb <;> try contradiction
  next m ha' _ n hb' =>
    cases ha
    cases hb
    unfold cmp Rank.of
    rw [ha', hb', ← Binary64.cmp_eq_compare_value]
    rfl

/-! ## Classes of documents -/

/-- The documents whose attribute is a number are at the first place. -/
theorem isSome_numberAt_iff {field : String} :
    (d.numberAt field).isSome = true ↔ (Rank.of field d).place = 0 := by
  unfold Document.numberAt Rank.of
  cases d.valueAt field with
  | none => simp [Rank.place]
  | some value => cases value <;> simp [Rank.place]

/-- The documents without the attribute are at the last place. -/
theorem isNone_valueAt_iff {field : String} :
    (d.valueAt field).isNone = true ↔ (Rank.of field d).place = 2 := by
  unfold Rank.of
  cases d.valueAt field with
  | none => simp [Rank.place]
  | some value => cases value <;> simp [Rank.place]

/-- All other documents are between them. -/
theorem isOther_iff {field : String} :
    ((d.numberAt field).isNone && (d.valueAt field).isSome) = true ↔
      (Rank.of field d).place = 1 := by
  unfold Document.numberAt Rank.of
  cases d.valueAt field with
  | none => simp [Rank.place]
  | some value => cases value <;> simp [Rank.place]

/-- What may come before a document is at no later place. -/
theorem place_le_of_cmp_ne_gt (h : s.cmp a b ≠ .gt) :
    (Rank.of s.field a).place ≤ (Rank.of s.field b).place := by
  rcases Rank.cmp_ne_gt_iff.mp h with hlt | ⟨heq, _⟩
  · exact Nat.le_of_lt hlt
  · exact Nat.le_of_eq heq

/-- Behind the numbers the documents of one place are tied. -/
theorem cmp_eq_iff_place (ha : (Rank.of s.field a).place ≠ 0) :
    s.cmp a b = .eq ↔ (Rank.of s.field b).place = (Rank.of s.field a).place := by
  have hlevel : ∀ rank : Rank, rank.place ≠ 0 → rank.level s.direction = 0 := by
    intro rank hrank
    cases rank with
    | number x => exact absurd rfl hrank
    | other | undefined => rfl
  rw [cmp_eq_iff_gradeOf, gradeOf, gradeOf, Prod.mk.injEq, hlevel _ ha]
  constructor
  · exact fun h => h.1.symm
  · exact fun h => ⟨h.symm, (hlevel _ (h ▸ ha)).symm⟩

/-- Numbers are tied with the documents of the same value. -/
theorem cmp_eq_iff_numberAt {x : ℚ} (ha : a.numberAt s.field = some x) :
    s.cmp a b = .eq ↔ b.numberAt s.field = some x := by
  cases hb : b.numberAt s.field with
  | some y =>
      rw [cmp_of_numberAt ha hb, Option.some.injEq]
      cases s.direction with
      | ascending => exact compare_eq_iff_eq.trans eq_comm
      | descending => exact Ordering.swap_eq_eq.trans (compare_eq_iff_eq.trans eq_comm)
  | none =>
      have hplace : (Rank.of s.field a).place = 0 := isSome_numberAt_iff.mp (by simp [ha])
      have hplace' : (Rank.of s.field b).place ≠ 0 := fun h => by
        simpa [hb] using isSome_numberAt_iff.mpr h
      have hne : s.cmp a b ≠ .eq := fun h =>
        hplace' ((congrArg Prod.fst (cmp_eq_iff_gradeOf.mp h)).symm.trans hplace)
      simp [hne]

/-- **A sort is stable**: the documents tied with one of them stay as they were. -/
theorem filter_tied_apply (s : SortBy) (d : Document) (documents : List Document) :
    (s.apply documents).filter (fun e => s.cmp d e = .eq) =
      documents.filter fun e => s.cmp d e = .eq := by
  -- the documents as entries with ids that do not matter
  obtain ⟨entries, rfl⟩ : ∃ entries : List (String × Document), documents = entries.map Prod.snd :=
    ⟨documents.map fun e => ("", e), by simp⟩
  calc (s.apply (entries.map Prod.snd)).filter (fun e => s.cmp d e = .eq)
      = ((entries.mergeSort s.admitsEntry).filter fun e => s.cmp d e.2 = .eq).map Prod.snd := by
        rw [map_mergeSort_admitsEntry, List.filter_map]
        rfl
    _ = (entries.filter fun e => s.cmp d e.2 = .eq).map Prod.snd := by rw [filter_tied_mergeSort]
    _ = (entries.map Prod.snd).filter fun e => s.cmp d e = .eq := by
        rw [List.filter_map]
        rfl

/-- Sorted lists in which tied documents stand alike are equal. -/
theorem eq_of_filter_tied {found found' : List Document}
    (hsorted : found.Pairwise fun a b => s.cmp a b ≠ .gt)
    (hsorted' : found'.Pairwise fun a b => s.cmp a b ≠ .gt)
    (htied : ∀ d, found.filter (fun e => s.cmp d e = .eq) =
      found'.filter fun e => s.cmp d e = .eq) : found = found' := by
  have hself : ∀ d, s.cmp d d = .eq := fun d => Std.ReflCmp.compare_self
  induction found generalizing found' with
  | nil =>
      cases found' with
      | nil => rfl
      | cons b rest' => simpa [hself] using htied b
  | cons a rest ih =>
      cases found' with
      | nil => simpa [hself] using htied a
      | cons b rest' =>
          obtain ⟨ha, hrest⟩ := List.pairwise_cons.mp hsorted
          obtain ⟨hb, hrest'⟩ := List.pairwise_cons.mp hsorted'
          -- each head is in the other list, so neither may come after the other
          have hmem : b ∈ a :: rest := by
            have hfilter : b ∈ (b :: rest').filter fun e => s.cmp b e = .eq := by simp [hself]
            rw [← htied] at hfilter
            exact (List.mem_filter.mp hfilter).1
          have hmem' : a ∈ b :: rest' := by
            have hfilter : a ∈ (a :: rest).filter fun e => s.cmp a e = .eq := by simp [hself]
            rw [htied] at hfilter
            exact (List.mem_filter.mp hfilter).1
          have hab : s.cmp a b = .eq := by
            rcases List.mem_cons.mp hmem with rfl | hmem
            · exact hself b
            · rcases List.mem_cons.mp hmem' with rfl | hmem'
              · exact hself a
              · exact cmp_eq_iff.mpr ⟨ha b hmem, hb a hmem'⟩
          have hheads := htied a
          simp only [List.filter_cons, hself, hab, decide_true, if_true, List.cons.injEq] at hheads
          obtain ⟨rfl, _⟩ := hheads
          refine congrArg (a :: ·) (ih hrest hrest' fun d => ?_)
          have hd := htied d
          simp only [List.filter_cons] at hd
          split at hd
          · exact (List.cons.inj hd).2
          · exact hd

/-- **A stable sort has one result**: the sorted list in which tied documents
stand as they did before. -/
theorem eq_apply_iff {documents found : List Document} : found = s.apply documents ↔
    (found.Pairwise fun a b => s.cmp a b ≠ .gt) ∧
      ∀ d, found.filter (fun e => s.cmp d e = .eq) =
        documents.filter fun e => s.cmp d e = .eq := by
  constructor
  · rintro rfl
    exact ⟨s.pairwise_apply documents, fun d => filter_tied_apply s d documents⟩
  · rintro ⟨hsorted, htied⟩
    exact eq_of_filter_tied hsorted (s.pairwise_apply documents) fun d =>
      (htied d).trans (filter_tied_apply s d documents).symm

/-- A class of tied documents stays as it was. -/
theorem filter_class_apply {p : Document → Bool}
    (hclass : ∀ a b, p a = true → (s.cmp a b = .eq ↔ p b = true)) (documents : List Document) :
    (s.apply documents).filter p = documents.filter p := by
  by_cases h : ∃ d ∈ documents, p d = true
  · obtain ⟨d, _, hd⟩ := h
    have hp : p = fun e => decide (s.cmp d e = .eq) := by
      funext e
      rw [Bool.eq_iff_iff, decide_eq_true_eq, hclass d e hd]
    rw [hp]
    exact filter_tied_apply s d documents
  · have hnone : ∀ e ∈ documents, ¬ p e = true := fun e he hpe => h ⟨e, he, hpe⟩
    rw [List.filter_eq_nil_iff.mpr hnone, List.filter_eq_nil_iff]
    exact fun e he => hnone e ((s.perm_apply documents).mem_iff.mp he)

/-- Behind the numbers the documents of one place stay as they were. -/
theorem filter_place_apply {k : Nat} (hk : k ≠ 0) (documents : List Document) :
    (s.apply documents).filter (fun d => (Rank.of s.field d).place = k) =
      documents.filter fun d => (Rank.of s.field d).place = k := by
  apply filter_class_apply
  intro a b ha
  have hplace : (Rank.of s.field a).place = k := of_decide_eq_true ha
  rw [cmp_eq_iff_place (hplace ▸ hk), hplace, decide_eq_true_eq]

/-- The documents with one number stay as they were. -/
theorem filter_numberAt_apply (x : ℚ) (documents : List Document) :
    (s.apply documents).filter (fun d => d.numberAt s.field = some x) =
      documents.filter fun d => d.numberAt s.field = some x := by
  apply filter_class_apply
  intro a b ha
  rw [cmp_eq_iff_numberAt (of_decide_eq_true ha), decide_eq_true_eq]

/-! ## Sorted lists -/

/-- A sorted list is made of the numbers, of the documents with another attribute
as they were, and of those without one as they were. -/
theorem apply_eq_append (s : SortBy) (documents : List Document) :
    s.apply documents = ((s.apply documents).filter fun d => (d.numberAt s.field).isSome) ++
      (documents.filter fun d => (d.numberAt s.field).isNone && (d.valueAt s.field).isSome) ++
      documents.filter fun d => (d.valueAt s.field).isNone := by
  have hnumber : (fun d : Document => (d.numberAt s.field).isSome) =
      fun d => decide ((Rank.of s.field d).place = 0) := by
    funext d
    rw [Bool.eq_iff_iff, isSome_numberAt_iff, decide_eq_true_eq]
  have hother : (fun d : Document => (d.numberAt s.field).isNone && (d.valueAt s.field).isSome) =
      fun d => decide ((Rank.of s.field d).place = 1) := by
    funext d
    rw [Bool.eq_iff_iff, isOther_iff, decide_eq_true_eq]
  have hundefined : (fun d : Document => (d.valueAt s.field).isNone) =
      fun d => decide ((Rank.of s.field d).place = 2) := by
    funext d
    rw [Bool.eq_iff_iff, isNone_valueAt_iff, decide_eq_true_eq]
  rw [hnumber, hother, hundefined, ← filter_place_apply one_ne_zero,
    ← filter_place_apply two_ne_zero]
  exact eq_append_of_places (fun d => (Rank.of s.field d).place_le)
    ((s.pairwise_apply documents).imp place_le_of_cmp_ne_gt)

/-- Whether a sort may put one value before another. -/
def InOrder (s : SortBy) (x y : ℚ) : Prop :=
  match s.direction with
  | .ascending => x ≤ y
  | .descending => y ≤ x

/-- Documents with numbers are in order by value. -/
theorem inOrder_of_cmp_ne_gt {x y : ℚ} (ha : a.numberAt s.field = some x)
    (hb : b.numberAt s.field = some y) (h : s.cmp a b ≠ .gt) : s.InOrder x y := by
  rw [cmp_of_numberAt ha hb] at h
  unfold InOrder
  cases hdirection : s.direction with
  | ascending =>
      simp only [hdirection, ne_eq, compare_gt_iff_gt] at h
      exact not_lt.mp h
  | descending =>
      simp only [hdirection, ne_eq, Ordering.swap_eq_gt, compare_lt_iff_lt] at h
      exact not_lt.mp h

end SortBy

/-- **A sort is a stable sort by a total preorder.**  The order of documents is
reflexive, turns round with its arguments and is transitive.  A sorted list is
made of three parts: the documents whose attribute is a number in the order of
their values, those of one value as they were; then all with another attribute,
and then all without one, as they were.  No document is lost or duplicated. -/
theorem sorts_stably (s : SortBy) :
    (∀ a, s.cmp a a = .eq) ∧
    (∀ a b, s.cmp b a = (s.cmp a b).swap) ∧
    (∀ a b d, s.cmp a b ≠ .gt → s.cmp b d ≠ .gt → s.cmp a d ≠ .gt) ∧
    (∀ a b d order, s.cmp a b = order → s.cmp b d = order → s.cmp a d = order) ∧
    ∀ documents, (s.apply documents).Perm documents ∧
      ∃ numbers : List Document,
        s.apply documents = numbers ++
          (documents.filter fun d => (d.numberAt s.field).isNone && (d.valueAt s.field).isSome) ++
          documents.filter (fun d => (d.valueAt s.field).isNone) ∧
        numbers.Perm (documents.filter fun d => (d.numberAt s.field).isSome) ∧
        (numbers.Pairwise fun a b => ∀ x y, a.numberAt s.field = some x →
          b.numberAt s.field = some y → s.InOrder x y) ∧
        ∀ x : ℚ, numbers.filter (fun d => d.numberAt s.field = some x) =
          documents.filter fun d => d.numberAt s.field = some x := by
  refine ⟨fun a => Std.ReflCmp.compare_self, fun a b => Std.OrientedCmp.eq_swap,
    fun a b d => SortBy.cmp_ne_gt_trans, fun a b d _ => SortBy.cmp_trans, ?_⟩
  intro documents
  refine ⟨s.perm_apply documents,
    (s.apply documents).filter fun d => (d.numberAt s.field).isSome, ?_, ?_, ?_, ?_⟩
  · exact s.apply_eq_append documents
  · exact (s.perm_apply documents).filter _
  · refine ((s.pairwise_apply documents).filter _).imp ?_
    exact fun hcmp x y hx hy => SortBy.inOrder_of_cmp_ne_gt hx hy hcmp
  · intro x
    rw [List.filter_filter, ← SortBy.filter_numberAt_apply x documents]
    congr 1
    funext d
    cases hd : d.numberAt s.field <;> simp

end DocQuery
