/-!
# Lists of outcomes

A stream that is read to its end is a list of outcomes.  `gather` takes the
values up to the first error, which wins if there is one.

* `gather_eq_ok_iff` — all values are gathered exactly when there is no error;
* `gather_eq_error_iff` — an error is met exactly if it has only values in front of it;
* `exists_map_ok` — outcomes without errors are values;
* `eq_map_of_gather_map`, `gather_map_eq_error_iff` — the same where the outcomes
  are those of reading some items in turn.
-/

namespace DocQuery

/-- All values, or the first error. -/
def gather {ε α : Type} : List (Except ε α) → Except ε (List α)
  | [] => .ok []
  | .error e :: _ => .error e
  | .ok a :: rest =>
    match gather rest with
    | .ok values => .ok (a :: values)
    | .error e => .error e

/-- Without errors all values are gathered. -/
theorem gather_map_ok {ε α : Type} (values : List α) :
    gather (values.map (.ok : α → Except ε α)) = .ok values := by
  induction values with
  | nil => rfl
  | cons a rest ih => simp [gather, ih]

/-- Values are gathered exactly from outcomes without errors. -/
theorem gather_eq_ok_iff {ε α : Type} {outcomes : List (Except ε α)} {values : List α} :
    gather outcomes = .ok values ↔ outcomes = values.map .ok := by
  refine ⟨fun h => ?_, fun h => h ▸ gather_map_ok values⟩
  induction outcomes generalizing values with
  | nil =>
    cases h
    rfl
  | cons next rest ih =>
    cases next with
    | error e => simp [gather] at h
    | ok a =>
      cases hrest : gather rest with
      | error e => simp [gather, hrest] at h
      | ok more =>
        simp only [gather, hrest, Except.ok.injEq] at h
        simp [← h, ih hrest]

/-- Of outcomes with errors the first error is returned. -/
theorem gather_error {ε α : Type} (read : List α) (e : ε) (rest : List (Except ε α)) :
    gather (read.map .ok ++ .error e :: rest) = .error e := by
  induction read with
  | nil => rfl
  | cons a read ih => rw [List.map_cons, List.cons_append, gather, ih]

/-- An error is met exactly if it has only values in front of it. -/
theorem gather_eq_error_iff {ε α : Type} {outcomes : List (Except ε α)} {e : ε} :
    gather outcomes = .error e ↔
      ∃ (values : List α) (rest : List (Except ε α)),
        outcomes = values.map .ok ++ .error e :: rest := by
  refine ⟨fun h => ?_, fun ⟨values, rest, h⟩ => h ▸ gather_error values e rest⟩
  induction outcomes with
  | nil => simp [gather] at h
  | cons next rest ih =>
    cases next with
    | error first =>
      cases h
      exact ⟨[], rest, rfl⟩
    | ok a =>
      cases hrest : gather rest with
      | ok more => simp [gather, hrest] at h
      | error first =>
        simp only [gather, hrest, Except.error.injEq] at h
        obtain ⟨values, others, hvalues⟩ := ih (hrest.trans (congrArg _ h))
        exact ⟨a :: values, others, by rw [hvalues]; rfl⟩

/-- Outcomes without errors are values. -/
theorem exists_map_ok {ε α : Type} {outcomes : List (Except ε α)}
    (h : ∀ e, .error e ∉ outcomes) : ∃ values : List α, outcomes = values.map .ok := by
  cases hgather : gather outcomes with
  | ok values => exact ⟨values, gather_eq_ok_iff.mp hgather⟩
  | error e =>
    obtain ⟨_, _, heq⟩ := gather_eq_error_iff.mp hgather
    exact absurd (heq ▸ by simp) (h e)

/-- Where only what was written for a value is read as it, what is gathered was written. -/
theorem eq_map_of_gather_map {ε α β : Type} {items : List α} {values : List β}
    {read : α → Except ε β} {write : β → α} (hread : ∀ a b, read a = .ok b → a = write b)
    (h : gather (items.map read) = .ok values) : items = values.map write := by
  induction items generalizing values with
  | nil =>
    cases h
    rfl
  | cons a rest ih =>
    cases ha : read a with
    | error e => simp [gather, ha] at h
    | ok b =>
      cases hrest : gather (rest.map read) with
      | error e => simp [gather, ha, hrest] at h
      | ok more =>
        simp only [List.map_cons, gather, ha, hrest, Except.ok.injEq] at h
        rw [← h, hread a b ha, ih hrest, List.map_cons]

/-- Reading meets an error exactly if some item is refused with it, and none in front
of it is refused. -/
theorem gather_map_eq_error_iff {ε α β : Type} {items : List α} {read : α → Except ε β} {e : ε} :
    gather (items.map read) = .error e ↔ ∃ before item after,
      items = before ++ item :: after ∧ (∀ a ∈ before, ∀ e', read a ≠ .error e') ∧
        read item = .error e := by
  rw [gather_eq_error_iff]
  constructor
  · rintro ⟨values, rest, h⟩
    obtain ⟨before, tail, rfl, hbefore, htail⟩ := List.map_eq_append_iff.mp h
    obtain ⟨item, after, rfl, hitem, -⟩ := List.map_eq_cons_iff.mp htail
    refine ⟨before, item, after, rfl, fun a ha e' he' => ?_, hitem⟩
    have hmem : read a ∈ before.map read := List.mem_map_of_mem ha
    rw [hbefore, he'] at hmem
    simp at hmem
  · rintro ⟨before, item, after, rfl, hbefore, hitem⟩
    have hread : ∀ e', .error e' ∉ before.map read := by
      intro e' he'
      obtain ⟨a, ha, hae⟩ := List.mem_map.mp he'
      exact hbefore a ha e' hae
    obtain ⟨values, hvalues⟩ := exists_map_ok hread
    exact ⟨values, after.map read, by rw [List.map_append, List.map_cons, hvalues, hitem]⟩

end DocQuery
