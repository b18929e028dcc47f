import DocQuery.Outcomes
import DocQuery.Store.Basic
import Mathlib.Data.List.Perm.Basic

/-!
# The order in which things arrive

What a query still has to hand out is known before it is handed out; only
the order may be open.  `Arrives inOrder expected actual` says that `actual`
is what was expected, in the same order if `inOrder` is set and in any order
otherwise.  A step that takes something off the expected list is described by
one such statement, and `Arrives.cons` glues the steps of a run together.
A limit lets the first of what has arrived through.
-/

namespace DocQuery

/-! ## Arrivals -/

/-- What was expected has come: in the same order, or in any order. -/
def Arrives {α : Type} (inOrder : Bool) (expected actual : List α) : Prop :=
  if inOrder then expected = actual else expected.Perm actual

namespace Arrives

variable {α : Type} {inOrder : Bool} {a b c : List α}

/-- What comes in the order expected has come. -/
theorem of_eq (h : a = b) : Arrives inOrder a b := by
  cases inOrder with
  | false => exact h ▸ List.Perm.refl a
  | true => exact h

theorem refl (a : List α) : Arrives inOrder a a := of_eq rfl

/-- Where the order is open, a rearrangement will do. -/
theorem of_perm (hopen : inOrder = false) (h : a.Perm b) : Arrives inOrder a b := by
  subst hopen
  exact h

theorem perm (h : Arrives inOrder a b) : a.Perm b := by
  cases inOrder with
  | false => exact h
  | true => exact (show a = b from h) ▸ List.Perm.refl a

theorem trans (hab : Arrives inOrder a b) (hbc : Arrives inOrder b c) : Arrives inOrder a c := by
  cases inOrder with
  | false => exact List.Perm.trans hab hbc
  | true => exact Eq.trans hab hbc

/-- The same things may come first. -/
theorem append_left (front : List α) (h : Arrives inOrder a b) :
    Arrives inOrder (front ++ a) (front ++ b) := by
  cases inOrder with
  | false => exact List.Perm.append_left front h
  | true => exact congrArg (front ++ ·) h

theorem cons (x : α) (h : Arrives inOrder a b) : Arrives inOrder (x :: a) (x :: b) :=
  append_left [x] h

/-- The last step of a run: what is left after the front arrives too. -/
theorem trans_append {front rest : List α} (h : Arrives inOrder a (front ++ b))
    (hrest : Arrives inOrder b rest) : Arrives inOrder a (front ++ rest) :=
  h.trans (append_left front hrest)

/-- Picking and changing things one by one goes along with arrival. -/
theorem filterMap {β : Type} (f : α → Option β) (h : Arrives inOrder a b) :
    Arrives inOrder (a.filterMap f) (b.filterMap f) := by
  cases inOrder with
  | false => exact List.Perm.filterMap f h
  | true => exact congrArg (List.filterMap f) h

theorem filter (p : α → Bool) (h : Arrives inOrder a b) :
    Arrives inOrder (a.filter p) (b.filter p) := by
  rw [← List.filterMap_eq_filter]
  exact filterMap _ h

/-- What arrives of a mapped list is the map of what arrives of the list. -/
theorem exists_map {β : Type} {f : α → β} {g : β → Option α} (hg : ∀ x, g (f x) = some x)
    {came : List β} (h : Arrives inOrder (a.map f) came) :
    ∃ arrived, Arrives inOrder a arrived ∧ came = arrived.map f := by
  have hback : (a.map f).filterMap g = a := by simp [List.filterMap_map, hg]
  refine ⟨came.filterMap g, hback ▸ h.filterMap g, ?_⟩
  have hall : ∀ y ∈ came, (g y).map f = some y := by
    intro y hy
    obtain ⟨x, _, rfl⟩ := List.mem_map.mp (h.perm.mem_iff.mpr hy)
    simp [hg]
  rw [List.map_filterMap, List.filterMap_congr hall, List.filterMap_some]

/-- What arrives of a filtered list is what a filter leaves of some arrival of
the list. -/
theorem exists_filter {p : α → Bool} {came : List α} (h : Arrives inOrder (a.filter p) came) :
    ∃ arrived, Arrives inOrder a arrived ∧ arrived.filter p = came := by
  cases inOrder with
  | true => exact ⟨a, rfl, h⟩
  | false =>
      refine ⟨came ++ a.filter (!p ·), ?_, ?_⟩
      · exact (List.filter_append_perm p a).symm.trans (List.Perm.append_right _ h)
      · have hcame : came.filter p = came :=
          List.filter_eq_self.mpr fun x hx => (List.mem_filter.mp (h.perm.mem_iff.mpr hx)).2
        simp [List.filter_append, hcame, List.filter_filter]

end Arrives

/-! ## Lists that are mapped -/

section Mapped

variable {α β : Type} {f : α → β} {l : List α} {names : List β}

/-- A rearrangement of a mapped list is the map of a rearrangement. -/
theorem exists_map_of_perm (h : names.Perm (l.map f)) :
    ∃ rearranged : List α, names = rearranged.map f ∧ rearranged.Perm l :=
  (congrFun₂ (List.eq_map_comp_perm f) _ _).mpr h

/-- Values that each come from an item of a list come from a list of such items. -/
theorem exists_map_of_forall (h : ∀ b ∈ names, ∃ a ∈ l, f a = b) :
    ∃ chosen : List α, (∀ a ∈ chosen, a ∈ l) ∧ chosen.map f = names := by
  induction names with
  | nil => exact ⟨[], by simp, rfl⟩
  | cons b rest ih =>
      obtain ⟨⟨a, ha, rfl⟩, hrest⟩ := List.forall_mem_cons.mp h
      obtain ⟨chosen, hchosen, rfl⟩ := ih hrest
      exact ⟨a :: chosen, List.forall_mem_cons.mpr ⟨ha, hchosen⟩, rfl⟩

end Mapped

/-! ## Limits -/

section Limits

variable {α β : Type}

/-- How many items a limit lets through. -/
def cappedAt (limit : Option Nat) (n : Nat) : Nat :=
  match limit with
  | none => n
  | some l => min l n

@[simp] theorem length_takeUpTo (limit : Option Nat) (items : List α) :
    (takeUpTo limit items).length = cappedAt limit items.length := by
  cases limit with
  | none => rfl
  | some n => exact List.length_take

/-- The first items of a list are items of it. -/
theorem mem_of_mem_takeUpTo {limit : Option Nat} {items : List α} {a : α}
    (h : a ∈ takeUpTo limit items) : a ∈ items := by
  cases limit with
  | none => exact h
  | some n => exact List.mem_of_mem_take h

/-- Changing items one by one changes the first ones. -/
theorem map_takeUpTo (f : α → β) (limit : Option Nat) (items : List α) :
    (takeUpTo limit items).map f = takeUpTo limit (items.map f) := by
  cases limit with
  | none => rfl
  | some n => exact List.map_take

end Limits

end DocQuery
