import Mathlib.Data.List.Induction

/-!
# What has held since a change

Changes are made to a state one after the other.  Of many things that may hold of
it, one change brings them about and others may undo them, and no more needs to be
known of a single step.  Then such a thing holds at the end exactly if it was
brought about and nothing that came later undid it (`foldl_iff_since`).
-/

namespace DocQuery

/-- A change was made, and none that was made since undoes what it brought about. -/
def Since {C : Type} (changes : List C) (c : C) (keeps : C → Prop) : Prop :=
  ∃ before since, changes = before ++ c :: since ∧ ∀ c' ∈ since, keeps c'

section Changes

variable {C S : Type} {changes : List C} {c d : C} {keeps : C → Prop}

theorem not_since_nil : ¬ Since [] c keeps := by
  rintro ⟨before, since, h, -⟩
  simp at h

/-- A thing holds after one more change if this brings it about, or if it held before
and is not undone. -/
theorem since_concat : Since (changes ++ [d]) c keeps ↔ d = c ∨ Since changes c keeps ∧ keeps d := by
  constructor
  · rintro ⟨before, since, hsplit, hsince⟩
    rcases List.eq_nil_or_concat since with rfl | ⟨since, last, rfl⟩
    · exact Or.inl (List.singleton_inj.mp (List.append_inj' hsplit rfl).2)
    · rw [List.concat_eq_append, ← List.cons_append, ← List.append_assoc] at hsplit
      obtain ⟨rfl, hlast⟩ := List.append_inj' hsplit rfl
      obtain rfl := List.singleton_inj.mp hlast
      exact Or.inr ⟨⟨before, since, rfl, fun c' hc' => hsince c' (by simp [hc'])⟩,
        hsince d (by simp)⟩
  · rintro (rfl | ⟨⟨before, since, rfl, hsince⟩, hkept⟩)
    · exact ⟨changes, [], rfl, by simp⟩
    · refine ⟨before, since ++ [d], by simp, fun c' hc' => ?_⟩
      rcases List.mem_append.mp hc' with hc' | hc'
      · exact hsince c' hc'
      · rwa [List.mem_singleton.mp hc']

/-- **What holds after any changes** was brought about and has not been undone since, if
that is what one change does to it. -/
theorem foldl_iff_since (holds : S → Prop) {after : S → C → S} {initial : S}
    (hinitial : ¬ holds initial)
    (hafter : ∀ s d, holds (after s d) ↔ d = c ∨ holds s ∧ keeps d) :
    holds (changes.foldl after initial) ↔ Since changes c keeps := by
  induction changes using List.reverseRecOn with
  | nil => exact iff_of_false hinitial not_since_nil
  | append_singleton changes d ih =>
      rw [List.foldl_append, List.foldl_cons, List.foldl_nil, hafter, ih, since_concat]

end Changes

end DocQuery
