import DocQuery.Proofs.Resolving
import Mathlib.Data.List.Induction

/-!
# Resolutions that wait

A poll that answers that it is pending has left nothing undone.  It has started
lookups until the window was full or no id was left, and it has asked its queue
for a finished lookup.  A queue may give up early, say because lookups enter it
again as soon as they are asked, and leave finished ones for the next poll.  If it
is `Thorough`, it has asked every lookup that could be handed out: in order of
completion all that were in the queue, so that those outstanding were all found to
be held, and in order of arrival the oldest one.

* `takeFinished_none` — what a thorough queue leaves when it hands out nothing;
* `poll_pending` — how a pending poll leaves a resolution;
* `exists_skips`, `Skips.poll_eq` — a poll goes past lookups that found nothing,
  and answers as if they had not been there;
* `Queued.after`, `queued_run` — the step lemma and the run lemma: lookups that
  wait were found to be held and not released since, and in order of arrival
  the queue is what is left of the lookups started;
* `never_stalls` — what this says about every run;
* `thorough_yielding`, `yielding_leaves_finished` — a queue that gives up after lookups
  that wake themselves is thorough if there are none, and if there are, it can leave
  a lookup that is finished, so this much has to be known about the queue.
-/

namespace DocQuery

/-- Queues are gone through to their end: they hand out nothing only after every
lookup in them was asked. -/
def Reads.Thorough (reads : Reads) : Prop :=
  ∀ ordered ready, (reads.queue.poll ordered reads.held ready).found = none →
    ∀ l ∈ ready, l ∈ (reads.queue.poll ordered reads.held ready).asked

namespace Queue

/-- Lookups asked one after the other are all asked if none is finished. -/
theorem asked_askInTurn (held : String → Bool) {ready : List Lookup}
    (hnone : (askInTurn held ready).found = none) : (askInTurn held ready).asked = ready := by
  induction ready with
  | nil => rfl
  | cons l rest ih =>
      cases hheld : held l.id with
      | true =>
          simp only [askInTurn, hheld, if_true] at hnone ⊢
          rw [ih hnone]
      | false => simp [askInTurn, hheld] at hnone

/-- If the oldest lookup is not finished, all are asked. -/
theorem asked_askOldest (held : String → Bool) {ready : List Lookup}
    (hnone : (askOldest held ready).found = none) : (askOldest held ready).asked = ready := by
  cases ready with
  | nil => rfl
  | cons l rest => cases hheld : held l.id <;> simp_all [askOldest]

/-- The queue that asks all its lookups if need be is thorough. -/
theorem thorough_eager (find : String → Except Fault (Option Document)) (held : String → Bool) :
    Reads.Thorough { find := find, held := held, queue := eager } := by
  intro ordered ready hnone l hl
  cases ordered with
  | true => exact (asked_askOldest held hnone).symm ▸ hl
  | false => exact (asked_askInTurn held hnone).symm ▸ hl

/-- Gives up once two lookups have woken themselves while they were asked: the others
are left to the next poll. -/
def askYielding (wakes : String → Bool) (ordered : Bool) (held : String → Bool)
    (ready : List Lookup) : Round :=
  match ready.filter fun l => held l.id && wakes l.id with
  | l :: l' :: _ => ⟨none, [l, l'], ready, []⟩
  | [] | [_] => eager.poll ordered held ready

theorem lawful_askYielding (wakes : String → Bool) (ordered : Bool) (held : String → Bool)
    (ready : List Lookup) : (askYielding wakes ordered held ready).Lawful ordered held ready := by
  unfold askYielding
  split
  · next l l' others hwoken =>
      have hheld : ∀ m ∈ l :: l' :: others, m ∈ ready ∧ held m.id = true := by
        intro m hm
        rw [← hwoken, List.mem_filter, Bool.and_eq_true] at hm
        exact ⟨hm.1, hm.2.1⟩
      refine ⟨by simp, by simp, nofun, fun _ m hm _ => (hheld m ?_).2,
        fun _ _ => ⟨l, hheld l List.mem_cons_self⟩⟩
      exact List.mem_append_left others hm
  all_goals exact eager.lawful ordered held ready

/-- The queue that gives up when lookups wake themselves. -/
abbrev yielding (wakes : String → Bool) : Queue := ⟨askYielding wakes, lawful_askYielding wakes⟩

/-- Such a queue is thorough as long as no lookup that is held wakes itself. -/
theorem thorough_yielding (find : String → Except Fault (Option Document))
    {held wakes : String → Bool} (hcalm : ∀ id, held id = true → wakes id = false) :
    Reads.Thorough { find := find, held := held, queue := yielding wakes } := by
  intro ordered ready
  have hwoken : ready.filter (fun l => held l.id && wakes l.id) = [] := by
    rw [List.filter_eq_nil_iff]
    intro l _ hl
    rw [Bool.and_eq_true] at hl
    simp [hcalm l.id hl.1] at hl
  have heager : askYielding wakes ordered held ready = eager.poll ordered held ready := by
    simp only [askYielding, hwoken]
  change (askYielding wakes ordered held ready).found = none →
    ∀ l ∈ ready, l ∈ (askYielding wakes ordered held ready).asked
  rw [heager]
  exact thorough_eager find held ordered ready

end Queue

namespace Resolution

section Poll

variable {reads : Reads} {r r₁ r₂ s : Resolution}

/-- On its way a poll drops lookups that found nothing, one after the other, and
starts further ones in between. -/
inductive Skips (reads : Reads) : Resolution → List Lookup → Resolution → Prop
  | none (r : Resolution) : Skips reads r [] r
  | drop {r r₁ r₂ s : Resolution} {l : Lookup} {ls : List Lookup} (hr : r.failed = false)
      (hfill : r.fill reads = (r₁, .none)) (htake : r₁.takeFinished reads = (some l, r₂))
      (hfound : l.found = .ok .none)
      (rest : Skips reads { r₂ with dropped := r₂.dropped + 1 } ls s) :
      Skips reads r (l :: ls) s

/-- A poll that drops a lookup begins anew. -/
theorem poll_drop {l : Lookup} (hr : r.failed = false) (hfill : r.fill reads = (r₁, none))
    (htake : r₁.takeFinished reads = (some l, r₂)) (hfound : l.found = .ok none) :
    r.poll reads = poll { r₂ with dropped := r₂.dropped + 1 } reads := by
  rw [poll]
  simp only [hr, Bool.false_eq_true, if_false]
  split
  · next hfault =>
      rw [hfill] at hfault
      cases hfault
  · next hnone =>
      rw [hfill] at hnone
      cases hnone
      split
      · next hnothing =>
          rw [htake] at hnothing
          cases hnothing
      · next hsome =>
          rw [htake] at hsome
          cases hsome
          simp [hfound]

/-- **Skipping.**  A poll answers as it would without the lookups that found
nothing. -/
theorem Skips.poll_eq {skipped : List Lookup} (h : Skips reads r skipped s) :
    r.poll reads = s.poll reads := by
  induction h with
  | none => rfl
  | drop hr hfill htake hfound _ ih => exact (poll_drop hr hfill htake hfound).trans ih

/-- Starting lookups and looking for a finished one counts nothing. -/
theorem dropped_eq {found : Option Lookup} (hfill : r.fill reads = (r₁, none))
    (htake : r₁.takeFinished reads = (found, r₂)) : r₂.dropped = r.dropped := by
  obtain ⟨_, hprogress, _⟩ := fill_takeFinished_progress reads hfill htake
  exact Nat.add_right_cancel hprogress.dropped

/-- What comes next is not skipped unless it is a lookup that found nothing. -/
theorem not_skips {found : Option Lookup} (hfill : r.fill reads = (r₁, none))
    (htake : r₁.takeFinished reads = (found, r₂))
    (hfound : ∀ l, found = some l → l.found ≠ .ok none) (l : Lookup) (t : Resolution) :
    ¬ Skips reads r [l] t := by
  rintro (_ | ⟨_, hfill', htake', hmissing, _⟩)
  cases hfill.symm.trans hfill'
  cases htake.symm.trans htake'
  exact hfound l rfl hmissing

/-- **A poll goes on.**  It skips until what comes next is not a lookup that found
nothing, and counts what it skips. -/
theorem exists_skips (reads : Reads) (r : Resolution) :
    ∃ skipped s, Skips reads r skipped s ∧ (∀ l t, ¬ Skips reads s [l] t) ∧
      (r.poll reads).2.dropped = r.dropped + skipped.length := by
  fun_induction poll r reads with
  | case1 r hfailed =>
      refine ⟨[], r, .none r, ?_, rfl⟩
      rintro l t (_ | ⟨hr, _, _, _, _⟩)
      simp [hr] at hfailed
  | case2 r hfailed r₁ fault hfill =>
      refine ⟨[], r, .none r, ?_, ?_⟩
      · rintro l t (_ | ⟨_, hfill', _, _, _⟩)
        cases hfill.symm.trans hfill'
      · obtain ⟨_, hprogress, _⟩ := fill_progress reads r
        rw [hfill] at hprogress
        exact hprogress.dropped
  | case3 r hfailed r₁ hfill r₂ htake =>
      exact ⟨[], r, .none r, not_skips hfill htake (by simp), dropped_eq hfill htake⟩
  | case4 r hfailed r₁ hfill l r₂ htake document hfound =>
      exact ⟨[], r, .none r, not_skips hfill htake (by simp [hfound]), dropped_eq hfill htake⟩
  | case5 r hfailed r₁ hfill l r₂ htake hfound ih =>
      obtain ⟨skipped, s, hskips, hlast, hdropped⟩ := ih
      refine ⟨l :: skipped, s, .drop (by simpa using hfailed) hfill htake hfound hskips, hlast, ?_⟩
      have hsame := dropped_eq hfill htake
      rw [hdropped, List.length_cons]
      dsimp only
      omega
  | case6 r hfailed r₁ hfill l r₂ htake fault hfound =>
      have hsame := dropped_eq hfill htake
      exact ⟨[], r, .none r, not_skips hfill htake (by simp [hfound]), hsame⟩

/-! ## Pending -/

/-- Whether a lookup could be handed out next. -/
def IsNext (r : Resolution) (l : Lookup) : Prop :=
  l ∈ r.ready ∧ (r.ordered = true → r.ready.head? = some l)

/-- A thorough queue that hands out nothing has found every lookup to be held that
could have been handed out. -/
theorem takeFinished_none (hthorough : reads.Thorough)
    (h : r.takeFinished reads = (none, r₁)) {l : Lookup} (hl : r₁.IsNext l) :
    reads.held l.id = true := by
  have hround := reads.queue.lawful r.ordered reads.held r.ready
  simp only [takeFinished, Prod.mk.injEq] at h
  obtain ⟨hnone, rfl⟩ := h
  obtain ⟨hstays, holdest⟩ := hl
  have hready : l ∈ r.ready :=
    hround.account.mem_iff.mp (List.mem_append_left _ (List.mem_append_right _ hstays))
  refine hround.asked_held hnone l (hthorough _ _ hnone l hready) fun hordered => ?_
  have hsame := (hround.inTurn hordered).1
  rw [hnone, Option.toList_none, List.nil_append] at hsame
  exact hsame ▸ holdest hordered

/-- A resolution that can do nothing: the window is full or no id is left, and if the
queue is thorough, none of the lookups that could be handed out is finished. -/
structure Stuck (reads : Reads) (r : Resolution) : Prop where
  full : r.window ≤ r.inFlight ∨ r.arrived = [] ∧ (r.closed = true → r.exhausted = true)
  next_held : reads.Thorough → ∀ l, r.IsNext l → reads.held l.id = true
  unfinished : ¬ (r.exhausted = true ∧ r.inFlight = 0)

/-- **Pending polls.**  A poll that answers that it is pending leaves nothing that
could be done. -/
theorem poll_pending (hr : r.Sound false) (h : (r.poll reads).1 = .pending) :
    Stuck reads (r.poll reads).2 := by
  fun_induction poll r reads with
  | case1 | case2 | case4 | case6 => simp at h
  | case3 r hfailed r₁ hfill r₂ htake =>
      obtain ⟨_, _, _, hclosed, _, hfull⟩ := fill_account hr hfill
      have hflight : r₂.inFlight = r₁.inFlight := by
        have hcount := (perm_takeFinished htake).length_eq
        simpa [inFlight] using hcount.symm
      have hleft : r₂.window = r₁.window ∧ r₂.arrived = r₁.arrived ∧ r₂.closed = r₁.closed ∧
          r₂.exhausted = r₁.exhausted := by
        obtain ⟨_, _, rfl, _⟩ := takeFinished_cases htake
        exact ⟨rfl, rfl, rfl, rfl⟩
      refine ⟨?_, fun hthorough l => takeFinished_none hthorough htake, ?_⟩
      · rw [hflight, hleft.1, hleft.2.1, hleft.2.2.1, hleft.2.2.2, hclosed]
        exact hfull
      · intro hover
        dsimp only at h
        rw [if_pos hover] at h
        cases h
  | case5 r hfailed r₁ hfill l r₂ htake hfound ih =>
      obtain ⟨_, hr₂, _, _⟩ := fill_takeFinished_account hr hfill htake
      exact ih ⟨hr₂.running, hr₂.roomy, hr₂.taken, hr₂.kept⟩ h

/-! ## Queues -/

/-- How lookups move from `r` to `r'` while the ids `taken` are looked up and the
lookups `settled` are settled: in order of arrival along the queue, and in order
of completion out of it only if they are held. -/
structure Moves (reads : Reads) (r r' : Resolution) (taken : List String)
    (settled : List Lookup) : Prop where
  ordered : r'.ordered = r.ordered
  started : r'.started = r.started ++ taken
  queue : r.ordered = true →
    r'.waiting = r.waiting ∧ r.ready ++ taken.map reads.lookup = settled ++ r'.ready
  parked : ∀ l ∈ r'.waiting, l ∈ r.waiting ∨ reads.held l.id = true

theorem Moves.refl (reads : Reads) (r : Resolution) : Moves reads r r [] [] :=
  ⟨rfl, by simp, fun _ => ⟨rfl, by simp⟩, fun _ => Or.inl⟩

theorem Moves.trans {taken taken' : List String} {settled settled' : List Lookup}
    (h : Moves reads r r₁ taken settled) (h' : Moves reads r₁ r₂ taken' settled') :
    Moves reads r r₂ (taken ++ taken') (settled ++ settled') where
  ordered := h'.ordered.trans h.ordered
  started := by rw [h'.started, h.started, List.append_assoc]
  queue hordered := by
    obtain ⟨hwaiting, hqueue⟩ := h.queue hordered
    obtain ⟨hwaiting', hqueue'⟩ := h'.queue (h.ordered.trans hordered)
    refine ⟨hwaiting'.trans hwaiting, ?_⟩
    rw [List.map_append, ← List.append_assoc, hqueue, List.append_assoc, hqueue',
      List.append_assoc]
  parked l hl := (h'.parked l hl).elim (h.parked l) Or.inr

/-- Lookups that are started enter the queue. -/
theorem fill_moves (reads : Reads) (r : Resolution) :
    ∃ taken, Moves reads r (r.fill reads).1 taken [] := by
  unfold fill
  split
  · exact ⟨[], Moves.refl reads r⟩
  · obtain ⟨taken, left, ⟨fault, _, hfill⟩ | ⟨_, _, hfill⟩⟩ := fillFrom_cases reads r.arrived r
    all_goals
      rw [hfill]
      exact ⟨taken, rfl, rfl, fun _ => ⟨rfl, rfl⟩, fun _ => Or.inl⟩

/-- Starting lookups and looking for a finished one settles that one, if there is
one, and finds those held that leave the queue to wait. -/
theorem fill_takeFinished_moves {found : Option Lookup} (hfill : r.fill reads = (r₁, none))
    (htake : r₁.takeFinished reads = (found, r₂)) :
    ∃ taken, Moves reads r r₂ taken found.toList := by
  obtain ⟨taken, hmoves⟩ := fill_moves reads r
  rw [hfill] at hmoves
  refine ⟨taken, ?_⟩
  suffices htaken : Moves reads r₁ r₂ [] found.toList by
    simpa using hmoves.trans htaken
  obtain ⟨ready, parked, rfl, _, hinTurn, hheld, _⟩ := takeFinished_cases htake
  refine ⟨rfl, by simp, fun hordered => ?_, fun l hl => ?_⟩
  · obtain ⟨hready, rfl⟩ := hinTurn hordered
    simp [← hready]
  · exact (List.mem_append.mp hl).imp_right (hheld l)

/-- A poll moves lookups. -/
theorem poll_moves (reads : Reads) (r : Resolution) :
    ∃ taken settled, Moves reads r (r.poll reads).2 taken settled := by
  fun_induction poll r reads with
  | case1 r hfailed => exact ⟨[], [], Moves.refl reads r⟩
  | case2 r hfailed r₁ fault hfill =>
      obtain ⟨taken, hmoves⟩ := fill_moves reads r
      rw [hfill] at hmoves
      exact ⟨taken, [], hmoves⟩
  | case3 r hfailed r₁ hfill r₂ htake =>
      obtain ⟨taken, hmoves⟩ := fill_takeFinished_moves hfill htake
      exact ⟨taken, [], hmoves⟩
  | case4 r hfailed r₁ hfill l r₂ htake document hfound =>
      obtain ⟨taken, hmoves⟩ := fill_takeFinished_moves hfill htake
      exact ⟨taken, [l], hmoves⟩
  | case5 r hfailed r₁ hfill l r₂ htake hfound ih =>
      obtain ⟨taken, hmoves⟩ := fill_takeFinished_moves hfill htake
      obtain ⟨taken', settled, hmoves'⟩ := ih
      have hrest : Moves reads r₂ _ taken' settled :=
        ⟨hmoves'.ordered, hmoves'.started, hmoves'.queue, hmoves'.parked⟩
      exact ⟨taken ++ taken', l :: settled, hmoves.trans hrest⟩
  | case6 r hfailed r₁ hfill l r₂ htake fault hfound =>
      obtain ⟨taken, hmoves⟩ := fill_takeFinished_moves hfill htake
      exact ⟨taken, [l], hmoves.ordered, hmoves.started, hmoves.queue, hmoves.parked⟩

end Poll

/-! ## Runs -/

namespace History

/-- A lookup that was found to be held and whose id was not released since. -/
def Unfinished (happenings : List Happening) (l : Lookup) : Prop :=
  ∃ before reads since, happenings = before ++ .poll reads :: since ∧
    reads.held l.id = true ∧ .release l.id ∉ since

/-- Lookups are released when they are finished: whose lookups were held at one
poll are held at the later ones, unless they were released in between. -/
def Announced (happenings : List Happening) : Prop :=
  ∀ before reads between reads' after id,
    happenings = before ++ .poll reads :: between ++ .poll reads' :: after →
      reads.held id = true → .release id ∉ between → reads'.held id = true

section Steps

variable {happenings : List Happening} {l : Lookup}

/-- A lookup stays unfinished until its id is released. -/
theorem Unfinished.snoc (h : Unfinished happenings l) {happening : Happening}
    (hother : happening ≠ .release l.id) : Unfinished (happenings ++ [happening]) l := by
  obtain ⟨before, reads, since, rfl, hheld, hsince⟩ := h
  refine ⟨before, reads, since ++ [happening], List.append_assoc _ _ _, hheld, fun hmem => ?_⟩
  rcases List.mem_append.mp hmem with hmem | hlast
  · exact hsince hmem
  · exact hother (List.mem_singleton.mp hlast).symm

/-- A lookup that is found to be held is unfinished. -/
theorem unfinished_of_held {reads : Reads} (hheld : reads.held l.id = true) :
    Unfinished (happenings ++ [.poll reads]) l :=
  ⟨happenings, reads, [], rfl, hheld, by simp⟩

/-- If lookups are released when they are finished, the unfinished ones are held
at the last poll. -/
theorem Unfinished.held {reads : Reads} (h : Unfinished (happenings ++ [.poll reads]) l)
    (hannounced : Announced (happenings ++ [.poll reads])) : reads.held l.id = true := by
  obtain ⟨before, earlier, since, heq, hheld, hsince⟩ := h
  rcases List.eq_nil_or_concat' since with rfl | ⟨between, last, rfl⟩
  · obtain ⟨_, hlast⟩ := List.append_inj' heq rfl
    cases hlast
    exact hheld
  · rw [← List.cons_append, ← List.append_assoc] at heq
    obtain ⟨hbefore, hlast⟩ := List.append_inj' heq rfl
    cases hlast
    refine hannounced before earlier between reads [] l.id (by rw [hbefore]) hheld ?_
    exact fun hmem => hsince (List.mem_append_left _ hmem)

/-- The queue of a run, and the lookups that wait. -/
structure Queued (happenings : List Happening) (h : History) : Prop where
  queue : h.resolution.ordered = true →
    h.resolution.waiting = [] ∧ ∃ settled, h.lookups = settled ++ h.resolution.ready
  waiting : ∀ l ∈ h.resolution.waiting, Unfinished happenings l

/-- **The step lemma.**  Whatever happens, lookups that wait are unfinished, and in
order of arrival the queue is what is left of the lookups started. -/
theorem Queued.after {h : History} (hq : Queued happenings h) (happening : Happening) :
    Queued (happenings ++ [happening]) (h.after happening) := by
  cases happening with
  | feed ids =>
      have hwaiting : ∀ l ∈ h.resolution.waiting, Unfinished (happenings ++ [.feed ids]) l :=
        fun l hl => (hq.waiting l hl).snoc (by simp)
      unfold History.after
      dsimp only
      split
      · exact ⟨hq.queue, hwaiting⟩
      · exact ⟨hq.queue, hwaiting⟩
  | close => exact ⟨hq.queue, fun l hl => (hq.waiting l hl).snoc (by simp)⟩
  | release id =>
      constructor
      · intro hordered
        obtain ⟨hwaiting, hsettled⟩ := hq.queue hordered
        simpa [History.after, release, hwaiting] using hsettled
      · intro l hl
        obtain ⟨hl, hid⟩ := List.mem_filter.mp hl
        refine (hq.waiting l hl).snoc ?_
        rintro ⟨⟩
        simp at hid
  | wake k =>
      constructor
      · intro hordered
        obtain ⟨hwaiting, hsettled⟩ := hq.queue hordered
        simpa [History.after, wake, hwaiting] using hsettled
      · intro l hl
        exact (hq.waiting l (List.mem_of_mem_eraseIdx hl)).snoc (by simp)
  | poll reads =>
      obtain ⟨taken, settled', hmoves⟩ := poll_moves reads h.resolution
      constructor
      · intro hordered
        have hordered : h.resolution.ordered = true := hmoves.ordered.symm.trans hordered
        obtain ⟨hwaiting, settled, hsettled⟩ := hq.queue hordered
        obtain ⟨hstill, hqueue⟩ := hmoves.queue hordered
        refine ⟨hstill.trans hwaiting, settled ++ settled', ?_⟩
        have hnew : ((h.resolution.poll reads).2.started.drop h.resolution.started.length) =
            taken := by rw [hmoves.started, List.drop_left]
        simp only [History.after, hnew, hsettled, List.append_assoc, hqueue]
      · intro l hl
        exact (hmoves.parked l hl).elim (fun hl => (hq.waiting l hl).snoc (by simp))
          unfinished_of_held

end Steps

section Runs

variable (ordered : Bool) (window : Nat) (happenings : List Happening)

/-- A run keeps to its order. -/
theorem ordered_run : (run ordered window happenings).resolution.ordered = ordered := by
  induction happenings using List.reverseRecOn with
  | nil => rfl
  | append_singleton earlier happening ih =>
      rw [run_concat]
      cases happening with
      | feed ids =>
          unfold after
          dsimp only
          split <;> exact ih
      | close | release | wake => exact ih
      | poll reads =>
          obtain ⟨_, _, hmoves⟩ := poll_moves reads (run ordered window earlier).resolution
          exact hmoves.ordered.trans ih

/-- **The run lemma.**  In every run lookups wait and queue up as they should. -/
theorem queued_run : Queued happenings (run ordered window happenings) := by
  induction happenings using List.reverseRecOn with
  | nil => exact ⟨fun _ => ⟨rfl, [], rfl⟩, by simp [run, begin, idle]⟩
  | append_singleton earlier happening ih =>
      rw [run_concat]
      exact ih.after happening

/-- **Resolutions never stall on available work.**  When a poll of any run answers
that it is pending, the window is full or no id is left to take.  In order of
completion every lookup that waits was found to be held, at this poll or before
it, and not released since; if the queue is thorough at this poll, so was every
other lookup outstanding, and all are held still if lookups are released when they
are finished.  In order of arrival the lookups outstanding are the last ones
started, and if the queue is thorough, the oldest of them is held.  If nothing is
outstanding, more ids may come and none is left.  And no poll, pending or not, ends
with a lookup that found nothing: it skips all of these until something else comes
next, counts them, and answers as if they had not been there. -/
theorem never_stalls (reads : Reads) :
    let h := run ordered window happenings
    let r := (h.resolution.poll reads).2
    ((h.resolution.poll reads).1 = .pending →
      (r.inFlight = max 1 window ∨ r.arrived = []) ∧
        (ordered = false →
          (∀ l ∈ r.waiting, Unfinished (happenings ++ [.poll reads]) l) ∧
            (reads.Thorough →
              (∀ l ∈ r.outstanding, Unfinished (happenings ++ [.poll reads]) l) ∧
                (Announced (happenings ++ [.poll reads]) →
                  ∀ l ∈ r.outstanding, reads.held l.id = true))) ∧
        (ordered = true →
          (∃ settled, (h.after (.poll reads)).lookups = settled ++ r.outstanding) ∧
            (reads.Thorough → ∀ l ∈ r.outstanding.head?, reads.held l.id = true)) ∧
        (r.inFlight = 0 → r.closed = false ∧ r.arrived = [])) ∧
      (∀ skipped s, Skips reads h.resolution skipped s →
        h.resolution.poll reads = s.poll reads) ∧
      ∃ skipped s, Skips reads h.resolution skipped s ∧ (∀ l t, ¬ Skips reads s [l] t) ∧
        r.dropped = h.resolution.dropped + skipped.length := by
  intro h r
  refine ⟨fun hpending => ?_, fun _ _ hskips => hskips.poll_eq, exists_skips reads h.resolution⟩
  obtain ⟨settled, met, fault, ha⟩ := accounted_run ordered window happenings
  have hrunning : h.resolution.failed = false := by
    by_contra hfailed
    rw [poll_of_failed reads (by simpa using hfailed)] at hpending
    cases hpending
  have hsound : h.resolution.Sound false :=
    ⟨hrunning, ha.window ▸ Nat.lt_of_lt_of_le Nat.one_pos (Nat.le_max_left 1 window),
      fun hex => (ha.fit.spent hex).1, by simp⟩
  have hstuck : Stuck reads r := poll_pending hsound hpending
  obtain ⟨_, _, _, hprogress, _⟩ := poll_progress reads h.resolution
  have hwindow : r.window = max 1 window := hprogress.window.trans ha.window
  have hordered : r.ordered = ordered := by
    have hlater := ordered_run ordered window (happenings ++ [.poll reads])
    rw [run_concat] at hlater
    exact hlater
  have hqueued : Queued (happenings ++ [.poll reads]) (h.after (.poll reads)) :=
    (queued_run ordered window happenings).after _
  have hbounded : r.inFlight ≤ r.window := ha.fit.poll.bounded
  refine ⟨?_, fun hfree => ⟨hqueued.waiting, fun hthorough => ?_⟩, fun hkept => ?_, fun hidle => ?_⟩
  · rcases hstuck.full with hfull | ⟨harrived, _⟩
    · exact Or.inl (by omega)
    · exact Or.inr harrived
  · have hunfinished : ∀ l ∈ r.outstanding, Unfinished (happenings ++ [.poll reads]) l := by
      intro l hl
      rcases List.mem_append.mp hl with hstays | hwaits
      · refine unfinished_of_held (hstuck.next_held hthorough l ⟨hstays, fun hkept => ?_⟩)
        simp [hordered.symm.trans hkept] at hfree
      · exact hqueued.waiting l hwaits
    exact ⟨hunfinished, fun hannounced l hl => (hunfinished l hl).held hannounced⟩
  · obtain ⟨hwaiting, hsettled⟩ := hqueued.queue (hordered.trans hkept)
    have hall : r.outstanding = r.ready := by
      rw [outstanding, show r.waiting = [] from hwaiting, List.append_nil]
    rw [hall]
    refine ⟨hsettled, fun hthorough l hl => ?_⟩
    exact hstuck.next_held hthorough l ⟨List.mem_of_mem_head? hl, fun _ => hl⟩
  · have hroomy : 0 < max 1 window := Nat.lt_of_lt_of_le Nat.one_pos (Nat.le_max_left 1 window)
    rcases hstuck.full with hfull | ⟨harrived, hclosed⟩
    · omega
    · refine ⟨?_, harrived⟩
      by_contra hopen
      exact hstuck.unfinished ⟨hclosed (by simpa using hopen), hidle⟩

/-- Nothing is found, and all lookups are held but that of `"a"`. -/
def holdingOthers : Reads := ⟨fun _ => .ok none, (· != "a")⟩

/-- In order of completion the first lookup finds nothing and makes room for the
third, and then both that are outstanding are held; in order of arrival the oldest
lookup is held although the next one is finished. -/
theorem never_stalls_holdingOthers :
    holdingOthers.Thorough ∧
      (∃ r, (run false 2 [.feed [.ok "a", .ok "b", .ok "c"]]).resolution.poll holdingOthers =
          (.pending, r) ∧
        r.outstanding.map Lookup.id = ["b", "c"] ∧ r.dropped = 1 ∧
        ∀ l ∈ r.outstanding,
          Unfinished [.feed [.ok "a", .ok "b", .ok "c"], .poll holdingOthers] l) ∧
      ∃ r, (run true 2 [.feed [.ok "b", .ok "a"]]).resolution.poll holdingOthers = (.pending, r) ∧
        r.outstanding.map Lookup.id = ["b", "a"] ∧
        ∀ l ∈ r.outstanding.head?, holdingOthers.held l.id = true := by
  have hthorough : holdingOthers.Thorough := Queue.thorough_eager _ _
  have hcompletion : ∃ r, (run false 2 [.feed [.ok "a", .ok "b", .ok "c"]]).resolution.poll
      holdingOthers = (.pending, r) ∧ r.outstanding.map Lookup.id = ["b", "c"] ∧ r.dropped = 1 :=
    ⟨_, by cbv, rfl, rfl⟩
  have harrival : ∃ r, (run true 2 [.feed [.ok "b", .ok "a"]]).resolution.poll holdingOthers =
      (.pending, r) ∧ r.outstanding.map Lookup.id = ["b", "a"] := ⟨_, by cbv, rfl⟩
  refine ⟨hthorough, ?_, ?_⟩
  · obtain ⟨r, hpoll, hids, hdropped⟩ := hcompletion
    have hstalled := (never_stalls false 2 _ holdingOthers).1 (congrArg Prod.fst hpoll)
    rw [hpoll] at hstalled
    exact ⟨r, hpoll, hids, hdropped, ((hstalled.2.1 rfl).2 hthorough).1⟩
  · obtain ⟨r, hpoll, hids⟩ := harrival
    have hstalled := (never_stalls true 2 _ holdingOthers).1 (congrArg Prod.fst hpoll)
    rw [hpoll] at hstalled
    exact ⟨r, hpoll, hids, (hstalled.2.2.1 rfl).2 hthorough⟩

/-- **Yielding leaves lookups behind.**  If lookups wake themselves, a queue that then gives
up can leave the oldest lookup of all, which is finished, to the next poll: that no poll
is pending while a lookup is finished rests on the queue. -/
theorem yielding_leaves_finished :
    let reads : Reads :=
      { find := fun _ => .ok none, held := (· != "a"), queue := .yielding fun _ => true }
    ∃ r l, (run ordered 3 [.feed [.ok "a", .ok "b", .ok "c"]]).resolution.poll reads =
        (.pending, r) ∧ r.IsNext l ∧ reads.held l.id = false := by
  cases ordered
  · exact ⟨_, ⟨"a", .ok none⟩, by cbv, ⟨by simp, fun _ => rfl⟩, by decide⟩
  · exact ⟨_, ⟨"a", .ok none⟩, by cbv, ⟨by simp, fun _ => rfl⟩, by decide⟩

end Runs

end History

end Resolution

end DocQuery
