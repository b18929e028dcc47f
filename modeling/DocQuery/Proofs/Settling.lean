import DocQuery.Proofs.Pipeline

/-!
# How lookups are settled

Between two moments a resolution looks some ids up, settles some lookups, and
at most takes a fault out of the place of an id.  `Resolution.Progress` says
which, and accounts for every lookup: those outstanding before and those
started are those settled and those outstanding afterwards.  What lookups
find may be something else at every poll, so none of this depends on a store
that stays as it is.

* `Progress.trans` — one stretch of progress after the other is progress;
* `poll_progress` — the step lemma: a poll is progress, and hands out what it
  settles unless nothing was found;
* `Fit.passes` — the window is never overfilled, not even within a
  poll.
-/

namespace DocQuery

/-- The lookup of an id, with what is found at the moment. -/
def Reads.lookup (reads : Reads) (id : String) : Lookup := ⟨id, reads.find id⟩

/-- The ids of lookups are the ids looked up. -/
theorem Reads.map_id_lookup (reads : Reads) (ids : List String) :
    (ids.map reads.lookup).map Lookup.id = ids := by
  simp [Reads.lookup, Function.comp_def]

namespace Lookup

/-- Whether nothing was found. -/
def isMissing (l : Lookup) : Bool :=
  match l.found with
  | .ok none => true
  | _ => false

/-- What a lookup hands out. -/
def item? (l : Lookup) : Option (Except Fault Document) := delivered l.found

/-- The document that was found. -/
def document? (l : Lookup) : Option Document := l.item?.bind Except.toOption

/-- A lookup either found nothing or hands something out. -/
theorem isMissing_eq_isNone (l : Lookup) : l.isMissing = l.item?.isNone := by
  obtain ⟨id, fault | _ | document⟩ := l <;> rfl

/-- Every lookup settled is missing or hands an item out. -/
theorem length_eq_items_add_missing (settled : List Lookup) :
    settled.length = (settled.filterMap item?).length + settled.countP isMissing := by
  have hmissing : settled.countP isMissing = settled.countP fun l => ¬l.item?.isSome :=
    List.countP_congr fun l _ => by simp [isMissing_eq_isNone]
  rw [hmissing, List.length_filterMap_eq_countP]
  exact List.length_eq_countP_add_countP _

end Lookup

namespace Resolution

/-- The lookups outstanding. -/
def outstanding (r : Resolution) : List Lookup := r.ready ++ r.waiting

theorem length_outstanding (r : Resolution) : r.outstanding.length = r.inFlight := by
  simp [outstanding, inFlight]

/-- What has happened from `r` to `r'`: the ids `taken` were looked up, the
lookups `settled` were settled, and the faults `met` were taken out of the
places of ids. -/
structure Progress (reads : Reads) (r r' : Resolution) (taken : List String)
    (settled : List Lookup) (met : List Fault) : Prop where
  window : r'.window = r.window
  closed : r'.closed = r.closed
  started : r'.started = r.started ++ taken
  arrived : r.arrived = taken.map .ok ++ met.map .error ++ r'.arrived
  account : (r.outstanding ++ taken.map reads.lookup).Perm (settled ++ r'.outstanding)
  dropped : r'.dropped = r.dropped + settled.countP Lookup.isMissing

namespace Progress

variable {reads : Reads} {r r₁ r₂ : Resolution} {taken taken' : List String}
  {settled settled' : List Lookup} {met : List Fault}

/-- Nothing has happened. -/
theorem refl (reads : Reads) (r : Resolution) : Progress reads r r [] [] [] where
  window := rfl
  closed := rfl
  started := by simp
  arrived := by simp
  account := by simp
  dropped := rfl

/-- Progress goes on after progress that met no fault in place of an id. -/
theorem trans (h : Progress reads r r₁ taken settled [])
    (h' : Progress reads r₁ r₂ taken' settled' met) :
    Progress reads r r₂ (taken ++ taken') (settled ++ settled') met where
  window := h'.window.trans h.window
  closed := h'.closed.trans h.closed
  started := by rw [h'.started, h.started, List.append_assoc]
  arrived := by simp [h.arrived, h'.arrived]
  account := by
    have hfirst := h.account.append_right (taken'.map reads.lookup)
    have hsecond := h'.account.append_left settled
    simp only [List.map_append, List.append_assoc] at hfirst hsecond ⊢
    exact hfirst.trans hsecond
  dropped := by rw [h'.dropped, h.dropped, List.countP_append, Nat.add_assoc]

end Progress

section Poll

variable {r : Resolution} (reads : Reads)

/-- Lookups that are started are outstanding. -/
theorem perm_launch (taken : List String) :
    (r.outstanding ++ taken.map reads.lookup).Perm (r.launch reads taken).outstanding := by
  show ((r.ready ++ r.waiting) ++ taken.map reads.lookup).Perm
    ((r.ready ++ taken.map reads.lookup) ++ r.waiting)
  rw [List.append_assoc, List.append_assoc]
  exact List.Perm.append_left _ List.perm_append_comm

/-- Starting lookups takes ids, and at most one fault in place of an id. -/
theorem fill_progress (r : Resolution) :
    ∃ taken, Progress reads r (r.fill reads).1 taken [] (r.fill reads).2.toList ∧
      (r.fill reads).1.failed = (r.failed || (r.fill reads).2.isSome) := by
  unfold fill
  split
  · exact ⟨[], Progress.refl reads r, by simp⟩
  · obtain ⟨taken, left, ⟨fault, hids, hfill⟩ | ⟨hids, _, hfill⟩⟩ :=
      fillFrom_cases reads r.arrived r
    · rw [hfill]
      exact ⟨taken, ⟨rfl, rfl, rfl, by simp [hids], perm_launch reads taken, rfl⟩, by simp⟩
    · rw [hfill]
      exact ⟨taken, ⟨rfl, rfl, rfl, by simp [hids], perm_launch reads taken, rfl⟩,
        by simp [launch]⟩

/-- Starting lookups without meeting a fault and then looking for a finished
one settles that one, if there is one; it is counted if it found nothing. -/
theorem fill_takeFinished_progress {found : Option Lookup} {r₁ r₂ : Resolution}
    (hfill : r.fill reads = (r₁, none)) (htake : r₁.takeFinished reads = (found, r₂)) :
    ∃ taken, Progress reads r
        { r₂ with dropped := r₂.dropped + found.toList.countP Lookup.isMissing } taken
        found.toList [] ∧
      r₂.failed = r.failed := by
  obtain ⟨taken, hprogress, hfailed⟩ := fill_progress reads r
  have hperm := perm_takeFinished htake
  obtain ⟨ready, parked, rfl, _⟩ := takeFinished_cases htake
  rw [hfill] at hprogress hfailed
  refine ⟨taken, ?_, by simpa using hfailed⟩
  exact ⟨hprogress.window, hprogress.closed, hprogress.started, hprogress.arrived,
    hprogress.account.trans hperm, congrArg (· + _) hprogress.dropped⟩

/-- A resolution that has met a fault answers that it has ended. -/
theorem poll_of_failed (hr : r.failed = true) : r.poll reads = (.ended, r) := by
  unfold poll
  simp [hr]

/-- A resolution that has nothing left to do answers that it has ended. -/
theorem poll_of_done (hr : r.failed = false) (hex : r.exhausted = true) (hidle : r.inFlight = 0) :
    r.poll reads = (.ended, r) := by
  simp only [inFlight, Nat.add_eq_zero_iff, List.length_eq_zero_iff] at hidle
  have hfill : r.fill reads = (r, none) := by simp [fill, hex]
  have htake : r.takeFinished reads = (none, r) := by
    rcases hfound : r.takeFinished reads with ⟨found, r'⟩
    obtain ⟨ready, parked, rfl, hperm, _⟩ := takeFinished_cases hfound
    rw [hidle.1, List.perm_nil, List.append_eq_nil_iff, List.append_eq_nil_iff] at hperm
    obtain ⟨⟨hnone, rfl⟩, rfl⟩ := hperm
    obtain rfl : found = none := by simpa using hnone
    rw [List.append_nil, ← hidle.1]
  unfold poll
  simp only [hr, Bool.false_eq_true, if_false]
  split
  · next hfault =>
      rw [hfill] at hfault
      cases hfault
  · next hnone =>
      rw [hfill] at hnone
      cases hnone
      split
      · next hnone =>
          rw [htake] at hnone
          cases hnone
          simp [hex, inFlight, hidle]
      · next hsome =>
          rw [htake] at hsome
          cases hsome

/-- **The step lemma.**  A poll is progress.  What it settles without finding
nothing it hands out, and so it does with a fault met in place of an id; and
it ends without a fault only when no id is left and nothing is outstanding. -/
theorem poll_progress (r : Resolution) :
    ∃ taken settled met, Progress reads r (r.poll reads).2 taken settled met ∧
      settled.filterMap Lookup.item? ++ met.map .error = (r.poll reads).1.item?.toList ∧
      ((r.poll reads).2.failed = true ↔
        r.failed = true ∨ ∃ fault, (r.poll reads).1 = .item (.error fault)) ∧
      ((r.poll reads).1 = .ended → r.failed = false →
        (r.poll reads).2.exhausted = true ∧ (r.poll reads).2.inFlight = 0) := by
  fun_induction poll r reads with
  | case1 r hfailed =>
      exact ⟨[], [], [], Progress.refl reads r, rfl, by simp [hfailed], by simp [hfailed]⟩
  | case2 r hfailed r₁ fault hfill =>
      obtain ⟨taken, hprogress, hbroken⟩ := fill_progress reads r
      rw [hfill] at hprogress hbroken
      exact ⟨taken, [], [fault], hprogress, rfl, by simpa using hbroken, by simp⟩
  | case3 r hfailed r₁ hfill r₂ htake =>
      obtain ⟨taken, hprogress, hbroken⟩ := fill_takeFinished_progress reads hfill htake
      refine ⟨taken, [], [], hprogress, ?_, ?_, ?_⟩
      · split <;> rfl
      · rw [hbroken]
        split <;> simp
      · intro hended _
        by_contra hnot
        simp [hnot] at hended
  | case4 r hfailed r₁ hfill l r₂ htake document hfound =>
      obtain ⟨taken, hprogress, hbroken⟩ := fill_takeFinished_progress reads hfill htake
      have hitem : l.item? = some (.ok document) := by simp [Lookup.item?, hfound, delivered]
      have hkept : [l].countP Lookup.isMissing = 0 := by simp [Lookup.isMissing_eq_isNone, hitem]
      simp only [Option.toList_some, hkept, Nat.add_zero] at hprogress
      exact ⟨taken, [l], [], hprogress, by simp [hitem, Polled.item?], by simp [hbroken], by simp⟩
  | case5 r hfailed r₁ hfill l r₂ htake hfound ih =>
      obtain ⟨taken, hprogress, hbroken⟩ := fill_takeFinished_progress reads hfill htake
      obtain ⟨taken', settled, met, hprogress', hitem, hfault, hended⟩ := ih
      have hnone : l.item? = none := by simp [Lookup.item?, hfound, delivered]
      have hkept : [l].countP Lookup.isMissing = 1 := by simp [Lookup.isMissing_eq_isNone, hnone]
      simp only [Option.toList_some, hkept] at hprogress
      refine ⟨taken ++ taken', l :: settled, met, hprogress.trans hprogress', ?_, ?_, ?_⟩
      · simpa [List.filterMap_cons, hnone] using hitem
      · rw [hfault]
        simp only [hbroken]
      · intro hend hrunning
        exact hended hend (hbroken.trans hrunning)
  | case6 r hfailed r₁ hfill l r₂ htake fault hfound =>
      obtain ⟨taken, hprogress, hbroken⟩ := fill_takeFinished_progress reads hfill htake
      have hitem : l.item? = some (.error fault) := by simp [Lookup.item?, hfound, delivered]
      have hkept : [l].countP Lookup.isMissing = 0 := by simp [Lookup.isMissing_eq_isNone, hitem]
      simp only [Option.toList_some, hkept, Nat.add_zero] at hprogress
      refine ⟨taken, [l], [], ?_, by simp [hitem, Polled.item?], by simp, by simp⟩
      exact ⟨hprogress.window, hprogress.closed, hprogress.started, hprogress.arrived,
        hprogress.account, hprogress.dropped⟩

/-- Releasing lookups leaves them outstanding. -/
theorem perm_release (id : String) : (r.release id).outstanding.Perm r.outstanding := by
  have hsplit := List.filter_append_perm (fun l : Lookup => l.id == id) r.waiting
  simpa [outstanding, release, bne] using List.Perm.append_left r.ready hsplit

/-- One of the lookups that wait enters the queue again, and no other, also if it
is of the same id. -/
def wake (r : Resolution) (k : Nat) : Resolution :=
  { r with ready := r.ready ++ r.waiting[k]?.toList, waiting := r.waiting.eraseIdx k }

/-- Waking a lookup leaves it outstanding. -/
theorem perm_wake (k : Nat) : (r.wake k).outstanding.Perm r.outstanding := by
  have hsplit : (r.waiting[k]?.toList ++ r.waiting.eraseIdx k).Perm r.waiting := by
    by_cases hk : k < r.waiting.length
    · simpa [hk] using List.getElem_cons_eraseIdx_perm hk
    · rw [List.getElem?_eq_none (by omega), List.eraseIdx_of_length_le (by omega)]
      exact List.Perm.refl _
  simpa [outstanding, wake] using List.Perm.append_left r.ready hsplit

end Poll

/-! ## The window -/

/-- A resolution whose window is not overfilled, and that has taken the last id
only if no more will arrive. -/
structure Fit (r : Resolution) : Prop where
  bounded : r.inFlight ≤ r.window
  spent : r.exhausted = true → r.arrived = [] ∧ r.closed = true

/-- The states that a poll passes through.  As many lookups as possible are
started, so that in between there are fewer; then one is settled, and if it
found nothing this is done once more. -/
inductive Passes (reads : Reads) : Resolution → Resolution → Prop
  | here (r : Resolution) : Passes reads r r
  | filled {r : Resolution} (hr : r.failed = false) : Passes reads r (r.fill reads).1
  | again {r r₁ r₂ s : Resolution} {l : Lookup} (hr : r.failed = false)
      (hfill : r.fill reads = (r₁, none)) (htake : r₁.takeFinished reads = (some l, r₂))
      (hfound : l.found = .ok none)
      (rest : Passes reads { r₂ with dropped := r₂.dropped + 1 } s) : Passes reads r s

section Window

variable {r : Resolution} {reads : Reads}

theorem inFlight_fillFrom_le (ids : List (Except Fault String)) (hr : r.inFlight ≤ r.window) :
    (fillFrom reads ids r).1.inFlight ≤ (fillFrom reads ids r).1.window := by
  induction ids generalizing r with
  | nil =>
      simp only [fillFrom]
      split <;> exact hr
  | cons next rest ih =>
      simp only [fillFrom]
      split
      · next hroom =>
          cases next with
          | error fault => exact hr
          | ok id =>
              apply ih
              simp only [inFlight, start, List.length_append, List.length_cons,
                List.length_nil] at hroom ⊢
              omega
      · exact hr

/-- Starting lookups does not overfill the window. -/
theorem Fit.fill {r' : Resolution} {fault : Option Fault} (hr : r.Fit)
    (h : r.fill reads = (r', fault)) : r'.Fit := by
  unfold Resolution.fill at h
  split at h
  · cases h
    exact hr
  · next hex =>
      have hex : r.exhausted = false := by simpa using hex
      have hbounded : (fillFrom reads r.arrived r).1.inFlight ≤ _ :=
        inFlight_fillFrom_le r.arrived hr.bounded
      rw [h] at hbounded
      refine ⟨hbounded, ?_⟩
      obtain ⟨taken, left, ⟨fault, _, hfill⟩ | ⟨_, _, hfill⟩⟩ := fillFrom_cases reads r.arrived r
      · rw [hfill] at h
        cases h
        simp [launch, hex]
      · rw [hfill] at h
        cases h
        simp only [launch, hex, Bool.false_or, Bool.and_eq_true, List.isEmpty_iff]
        exact fun hspent => ⟨hspent.1.1, hspent.2⟩

/-- Settling a lookup makes room. -/
theorem Fit.takeFinished {r' : Resolution} {found : Option Lookup} (hr : r.Fit)
    (h : r.takeFinished reads = (found, r')) : r'.Fit := by
  have hle := (perm_takeFinished h).length_eq
  obtain ⟨ready, parked, rfl, _⟩ := takeFinished_cases h
  have hbounded := hr.bounded
  refine ⟨?_, hr.spent⟩
  simp only [inFlight, List.length_append] at hle hbounded ⊢
  omega

/-- The window is not overfilled within a poll. -/
theorem Fit.passes {s : Resolution} (h : Passes reads r s) (hr : r.Fit) : s.Fit := by
  induction h with
  | here r => exact hr
  | filled => exact hr.fill rfl
  | again _ hfill htake _ _ ih =>
      have hr₂ := (hr.fill hfill).takeFinished htake
      exact ih ⟨hr₂.bounded, hr₂.spent⟩

/-- The window stays the same within a poll. -/
theorem window_of_passes {s : Resolution} (h : Passes reads r s) : s.window = r.window := by
  induction h with
  | here r => rfl
  | @filled r _ =>
      obtain ⟨_, hprogress, _⟩ := fill_progress reads r
      exact hprogress.window
  | again _ hfill htake _ _ ih =>
      obtain ⟨_, hprogress, _⟩ := fill_takeFinished_progress reads hfill htake
      exact ih.trans hprogress.window

/-- The window is not overfilled after a poll. -/
theorem Fit.poll (hr : r.Fit) : (r.poll reads).2.Fit := by
  fun_induction Resolution.poll r reads with
  | case1 => exact hr
  | case2 r hfailed r₁ fault hfill => exact hr.fill hfill
  | case3 r hfailed r₁ hfill r₂ htake => exact (hr.fill hfill).takeFinished htake
  | case4 r hfailed r₁ hfill l r₂ htake document hfound =>
      exact (hr.fill hfill).takeFinished htake
  | case5 r hfailed r₁ hfill l r₂ htake hfound ih =>
      have hr₂ := (hr.fill hfill).takeFinished htake
      exact ih ⟨hr₂.bounded, hr₂.spent⟩
  | case6 r hfailed r₁ hfill l r₂ htake fault hfound =>
      have hr₂ := (hr.fill hfill).takeFinished htake
      exact ⟨hr₂.bounded, hr₂.spent⟩

end Window

end Resolution

end DocQuery
