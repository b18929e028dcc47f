/-!
# Maps kept in key order

A `SortedMap` is the list of its bindings, keys strictly increasing.  The
invariant is part of the type, so a map *is* its list of bindings: two maps
with the same bindings are equal (`SortedMap.ext`), iteration needs no
sorting, and a key is bound at most once.

* `get?_empty`, `get?_insert`, `get?_erase`, `get?_adjust` — what each
  operation does to the lookups;
* `mem_iff_get?` — a pair is in the list exactly when its key looks up to
  its value.
-/

namespace DocQuery

/-- The strict order of `κ` is linear. -/
class LinearKey (κ : Type) [LT κ] : Prop where
  irrefl : ∀ a : κ, ¬ a < a
  trans : ∀ {a b c : κ}, a < b → b < c → a < c
  trichotomy : ∀ a b : κ, a < b ∨ a = b ∨ b < a

instance : LinearKey String where
  irrefl := String.lt_irrefl
  trans := String.lt_trans
  trichotomy := Std.lt_trichotomy

/-- Bindings of keys to values, keys strictly increasing. -/
@[ext]
structure SortedMap (κ α : Type) [LT κ] where
  toList : List (κ × α)
  sorted : toList.Pairwise fun a b => a.1 < b.1

namespace SortedMap

variable {κ α β : Type} [LT κ]

/-- The map without bindings. -/
def empty : SortedMap κ α := ⟨[], .nil⟩

instance : Inhabited (SortedMap κ α) := ⟨empty⟩

instance [DecidableEq κ] [DecidableEq α] : DecidableEq (SortedMap κ α) := fun _ _ =>
  decidable_of_iff _ SortedMap.ext_iff.symm

/-- The keys, ascending. -/
def keys (m : SortedMap κ α) : List κ := m.toList.map Prod.fst

/-- Applies `f` to every value, keys unchanged. -/
def map (f : κ → α → β) (m : SortedMap κ α) : SortedMap κ β where
  toList := m.toList.map fun e => (e.1, f e.1 e.2)
  sorted := by
    rw [List.pairwise_map]
    exact m.sorted

/-! ## Lookup and erasure -/

section Lookup

variable [DecidableEq κ]

/-- The value bound to `key`. -/
def get? (m : SortedMap κ α) (key : κ) : Option α :=
  (m.toList.find? fun e => e.1 = key).map Prod.snd

/-- Whether `key` is bound. -/
def contains (m : SortedMap κ α) (key : κ) : Bool := (m.get? key).isSome

/-- Unbinds `key`. -/
def erase (m : SortedMap κ α) (key : κ) : SortedMap κ α where
  toList := m.toList.filter fun e => e.1 ≠ key
  sorted := m.sorted.filter _

/-- Changes the value bound to `key`, if it is bound. -/
def adjust (m : SortedMap κ α) (key : κ) (f : α → α) : SortedMap κ α :=
  m.map fun k v => if k = key then f v else v

@[simp] theorem get?_empty (key : κ) : (empty : SortedMap κ α).get? key = none := rfl

/-- Looking up after all values were changed. -/
theorem get?_map (m : SortedMap κ α) (f : κ → α → β) (key : κ) :
    (m.map f).get? key = (m.get? key).map (f key) := by
  obtain ⟨l, hl⟩ := m
  simp only [get?, map]
  clear hl
  induction l with
  | nil => rfl
  | cons a rest ih =>
    by_cases h : a.1 = key
    · simp [h]
    · simpa [h] using ih

/-- Looking up after the value of one key was changed. -/
theorem get?_adjust (m : SortedMap κ α) (key other : κ) (f : α → α) :
    (m.adjust key f).get? other = if other = key then (m.get? other).map f else m.get? other := by
  rw [adjust, get?_map]
  by_cases h : other = key <;> simp [h]

/-- Looking up after an erasure. -/
theorem get?_erase (m : SortedMap κ α) (key other : κ) :
    (m.erase key).get? other = if other = key then none else m.get? other := by
  obtain ⟨l, hl⟩ := m
  simp only [get?, erase]
  induction l with
  | nil => simp
  | cons a rest ih =>
    have ih := ih (List.pairwise_cons.1 hl).2
    by_cases h : a.1 = key
    · by_cases ho : other = key
      · simp only [if_pos ho] at ih ⊢
        simpa [h] using ih
      · have : ¬ key = other := fun e => ho e.symm
        simpa [h, ho, this, List.find?_cons] using ih
    · by_cases ho : a.1 = other
      · subst ho
        simp [h]
      · simpa [h, ho] using ih

/-- A pair is among the bindings exactly when its key looks up to its value. -/
theorem mem_iff_get? [LinearKey κ] {m : SortedMap κ α} {key : κ} {value : α} :
    (key, value) ∈ m.toList ↔ m.get? key = some value := by
  obtain ⟨l, hl⟩ := m
  simp only [get?]
  induction l with
  | nil => simp
  | cons a rest ih =>
    obtain ⟨ha, hrest⟩ := List.pairwise_cons.1 hl
    by_cases h : a.1 = key
    · subst h
      have hn : (a.1, value) ∉ rest := fun hm => LinearKey.irrefl a.1 (ha (a.1, value) hm)
      simp [hn, Prod.ext_iff, eq_comm]
    · have : (key, value) ≠ a := fun e => h (by rw [← e])
      simp [h, this, ih hrest]

end Lookup

/-! ## Insertion -/

theorem eq_of_not_lt [LinearKey κ] {a b : κ} (hab : ¬ a < b) (hba : ¬ b < a) : a = b :=
  ((LinearKey.trichotomy a b).resolve_left hab).resolve_right hba

theorem ne_of_lt [LinearKey κ] {a b : κ} (h : a < b) : a ≠ b :=
  fun e => LinearKey.irrefl b (e ▸ h)

variable [DecidableLT κ]

/-- Binds `key` to `value` in a list of bindings, at its place in the order. -/
def insertInto (key : κ) (value : α) : List (κ × α) → List (κ × α)
  | [] => [(key, value)]
  | e :: rest =>
    if key < e.1 then (key, value) :: e :: rest
    else if e.1 < key then e :: insertInto key value rest
    else (key, value) :: rest

/-- An insertion brings in nothing but the new binding. -/
theorem mem_insertInto {key : κ} {value : α} {l : List (κ × α)} {e : κ × α}
    (h : e ∈ insertInto key value l) : e = (key, value) ∨ e ∈ l := by
  induction l with
  | nil => simpa [insertInto] using h
  | cons a rest ih =>
    simp only [insertInto] at h
    split at h
    · simpa using h
    · split at h
      · rcases List.mem_cons.1 h with rfl | h
        · simp
        · rcases ih h with h | h <;> simp [h]
      · rcases List.mem_cons.1 h with h | h <;> simp [h]

variable [LinearKey κ]

/-- Insertion keeps the keys strictly increasing. -/
theorem pairwise_insertInto (key : κ) (value : α) {l : List (κ × α)}
    (h : l.Pairwise fun a b => a.1 < b.1) :
    (insertInto key value l).Pairwise fun a b => a.1 < b.1 := by
  induction l with
  | nil => simp [insertInto]
  | cons a rest ih =>
    obtain ⟨ha, hrest⟩ := List.pairwise_cons.1 h
    simp only [insertInto]
    split
    · next hlt =>
      refine List.pairwise_cons.2 ⟨fun e he => ?_, h⟩
      rcases List.mem_cons.1 he with rfl | he
      · exact hlt
      · exact LinearKey.trans hlt (ha e he)
    · next hge =>
      split
      · next hlt =>
        refine List.pairwise_cons.2 ⟨fun e he => ?_, ih hrest⟩
        rcases mem_insertInto he with rfl | he
        · exact hlt
        · exact ha e he
      · next hle =>
        cases eq_of_not_lt hge hle
        exact List.pairwise_cons.2 ⟨ha, hrest⟩

/-- Binds `key` to `value`, replacing what it was bound to. -/
def insert (m : SortedMap κ α) (key : κ) (value : α) : SortedMap κ α :=
  ⟨insertInto key value m.toList, pairwise_insertInto key value m.sorted⟩

/-- The map of a list of bindings, a later one replacing an earlier one. -/
def ofList (bindings : List (κ × α)) : SortedMap κ α :=
  bindings.foldl (fun m e => m.insert e.1 e.2) empty

/-- Looking up after an insertion. -/
theorem get?_insert [DecidableEq κ] (m : SortedMap κ α) (key other : κ) (value : α) :
    (m.insert key value).get? other = if other = key then some value else m.get? other := by
  obtain ⟨l, hl⟩ := m
  simp only [get?, insert]
  induction l with
  | nil => by_cases h : other = key <;> simp [insertInto, h, eq_comm]
  | cons a rest ih =>
    obtain ⟨ha, hrest⟩ := List.pairwise_cons.1 hl
    have ih := ih hrest
    simp only [insertInto]
    split
    · by_cases h : other = key
      · simp [h]
      · have h' : ¬ key = other := fun e => h e.symm
        simp [h, h', List.find?_cons]
    · next hge =>
      split
      · next hlt =>
        have hne : a.1 ≠ key := ne_of_lt hlt
        by_cases h : a.1 = other
        · subst h
          simp [hne]
        · simpa [h] using ih
      · next hle =>
        have hkey := eq_of_not_lt hge hle
        by_cases h : other = key
        · simp [h]
        · have h' : ¬ key = other := fun e => h e.symm
          have ha' : ¬ a.1 = other := by rw [← hkey]; exact h'
          simp [h, h', ha']

end SortedMap

/-- A set kept in order: a map to nothing. -/
abbrev SortedSet (κ : Type) [LT κ] := SortedMap κ Unit

end DocQuery
