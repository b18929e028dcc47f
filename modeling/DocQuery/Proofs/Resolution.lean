import DocQuery.Proofs.Arrival
import DocQuery.Query.Resolution
import Mathlib.Data.List.TakeWhile

/-!
# What a resolution owes

A resolution owes one outcome for every lookup outstanding and one for every
id, or fault in place of an id, that has arrived and was not taken.  Nothing
else happens to these outcomes than that they are settled one by one:

* `fillFrom_cases`, `takeFinished_cases` — everything that starting and
  finishing lookups can do;
* `poll_account` — a poll drops some lookups that found nothing, hands out
  at most one outcome, and owes the rest: in order of arrival if lookups are
  kept in order and no fault came in place of an id, and otherwise in some
  order;
* `poll_free` — while nothing is held back, a poll never answers that it is
  pending.
-/

namespace DocQuery

namespace Resolution

/-- What comes of an id that has arrived, or of a fault in its place. -/
def outcomeOf (find : String → Except Fault (Option Document)) :
    Except Fault String → Except Fault (Option Document)
  | .ok id => find id
  | .error fault => .error fault

/-- The outcomes not settled yet, in order of arrival. -/
def owed (find : String → Except Fault (Option Document)) (r : Resolution) :
    List (Except Fault (Option Document)) :=
  (r.ready ++ r.waiting).map Lookup.found ++ r.arrived.map (outcomeOf find)

/-- A resolution that may go on.  With `inOrder` it keeps lookups in order of
arrival and has met no fault in place of an id. -/
structure Sound (inOrder : Bool) (r : Resolution) : Prop where
  running : r.failed = false
  roomy : 0 < r.window
  taken : r.exhausted = true → r.arrived = []
  kept : inOrder = true →
    r.ordered = true ∧ r.waiting = [] ∧ ∀ a ∈ r.arrived, ∃ id, a = .ok id

/-- Starts the lookups of some ids, one after the other. -/
def launch (r : Resolution) (reads : Reads) (ids : List String) : Resolution :=
  { r with
    ready := r.ready ++ ids.map fun id => ⟨id, reads.find id⟩
    started := r.started ++ ids }

/-- Starting lookups takes ids from the front, up to a fault, the last id, or
a full window; the last id is noticed only while there is room. -/
theorem fillFrom_cases (reads : Reads) (ids : List (Except Fault String)) (r : Resolution) :
    ∃ taken left,
      (∃ fault, ids = taken.map .ok ++ .error fault :: left ∧
        fillFrom reads ids r =
          ({ r.launch reads taken with arrived := left, failed := true }, some fault)) ∨
      (ids = taken.map .ok ++ left ∧
        (left ≠ [] → r.window ≤ (r.launch reads taken).inFlight) ∧
        fillFrom reads ids r =
          ({ r.launch reads taken with
              arrived := left
              exhausted := r.exhausted ||
                (left.isEmpty && decide ((r.launch reads taken).inFlight < r.window) && r.closed) },
            none)) := by
  induction ids generalizing r with
  | nil =>
      refine ⟨[], [], Or.inr ⟨rfl, by simp, ?_⟩⟩
      have hlaunch : r.launch reads [] = r := by simp [launch]
      rw [hlaunch]
      by_cases hroom : r.inFlight < r.window
      · cases hclosed : r.closed <;> simp [fillFrom, hroom, hclosed]
      · simp [fillFrom, hroom]
  | cons next rest ih =>
      by_cases hroom : r.inFlight < r.window
      · cases next with
        | error fault =>
            refine ⟨[], rest, Or.inl ⟨fault, rfl, ?_⟩⟩
            simp [fillFrom, hroom, launch]
        | ok id =>
            have hstep : fillFrom reads (.ok id :: rest) r =
                fillFrom reads rest (r.start reads id) := by simp [fillFrom, hroom]
            have hlaunch : ∀ taken, (r.start reads id).launch reads taken =
                r.launch reads (id :: taken) := by
              intro taken
              simp [start, launch]
            obtain ⟨taken, left, ⟨fault, hids, hfill⟩ | ⟨hids, hfull, hfill⟩⟩ := ih (r.start reads id)
            · refine ⟨id :: taken, left, Or.inl ⟨fault, by simp [hids], ?_⟩⟩
              rw [hstep, hfill, hlaunch]
            · refine ⟨id :: taken, left, Or.inr ⟨by simp [hids], ?_, ?_⟩⟩
              · rwa [hlaunch] at hfull
              · rw [hstep, hfill, hlaunch]
                rfl
      · refine ⟨[], next :: rest, Or.inr ⟨rfl, fun _ => ?_, ?_⟩⟩
        · simpa [launch, inFlight] using hroom
        · simp [fillFrom, hroom, launch]

/-- Everything that polling the queue can do.  Some held lookups, in order of
completion only, leave the queue to wait; and every lookup stays outstanding but
the one that is handed out, in order of arrival the oldest. -/
theorem takeFinished_cases {reads : Reads} {r r' : Resolution} {found : Option Lookup}
    (h : r.takeFinished reads = (found, r')) :
    ∃ ready parked, r' = { r with ready := ready, waiting := r.waiting ++ parked } ∧
      (found.toList ++ ready ++ parked).Perm r.ready ∧
      (r.ordered = true → found.toList ++ ready = r.ready ∧ parked = []) ∧
      (∀ l ∈ parked, reads.held l.id = true) ∧
      (found = none → r.ready ≠ [] → ∃ l ∈ r.ready, reads.held l.id = true) := by
  have hround := reads.queue.lawful r.ordered reads.held r.ready
  simp only [takeFinished, Prod.mk.injEq] at h
  obtain ⟨rfl, rfl⟩ := h
  exact ⟨_, _, rfl, hround.account, hround.inTurn, hround.parked_held, hround.some_held⟩

/-- What an answer settles. -/
def settledBy : Polled (Except Fault Document) → List (Except Fault (Option Document))
  | .item (.ok document) => [.ok (some document)]
  | .item (.error fault) => [.error fault]
  | .pending | .ended => []

section Account

variable {inOrder : Bool} {r : Resolution} {reads : Reads}

/-- Outcomes of lookups just started are those that were owed for their ids. -/
theorem owed_launch (taken : List String) (left : List (Except Fault String))
    (harrived : r.arrived = taken.map .ok ++ left)
    (hkept : inOrder = true → r.waiting = []) :
    Arrives inOrder (r.owed reads.find)
      (owed reads.find { r.launch reads taken with arrived := left }) := by
  have hstarted : (taken.map fun id => (⟨id, reads.find id⟩ : Lookup)).map Lookup.found =
      taken.map reads.find := by simp
  have hids : (taken.map (.ok : String → Except Fault String)).map (outcomeOf reads.find) =
      taken.map reads.find := by simp [outcomeOf]
  cases inOrder with
  | true =>
      apply Arrives.of_eq
      simp [owed, launch, harrived, hkept rfl, outcomeOf]
  | false =>
      apply Arrives.of_perm rfl
      simp only [owed, launch, harrived, List.map_append, hstarted, hids, List.append_assoc]
      exact List.Perm.append_left _ (List.perm_append_comm_assoc _ _ _)

/-- Starting lookups without meeting a fault settles nothing.  Afterwards the
window is full, or no id is left and the last one has been noticed. -/
theorem fill_account (hr : r.Sound inOrder) {r' : Resolution}
    (h : r.fill reads = (r', none)) :
    Arrives inOrder (r.owed reads.find) (r'.owed reads.find) ∧ r'.Sound inOrder ∧
      r'.dropped = r.dropped ∧ r'.closed = r.closed ∧ r'.waiting = r.waiting ∧
      (r'.window ≤ r'.inFlight ∨ r'.arrived = [] ∧ (r.closed = true → r'.exhausted = true)) := by
  unfold fill at h
  split at h
  · next hex =>
      cases h
      exact ⟨Arrives.refl _, hr, rfl, rfl, rfl, Or.inr ⟨hr.taken hex, fun _ => hex⟩⟩
  · next hex =>
      have hex : r.exhausted = false := by simpa using hex
      obtain ⟨taken, left, ⟨fault, _, hfill⟩ | ⟨hids, hfull, hfill⟩⟩ :=
        fillFrom_cases reads r.arrived r
      · rw [hfill] at h
        simp at h
      · rw [hfill] at h
        simp only [Prod.mk.injEq, and_true] at h
        subst h
        refine ⟨?_, ⟨hr.running, hr.roomy, ?_, ?_⟩, rfl, rfl, rfl, ?_⟩
        · exact owed_launch taken left hids fun ho => (hr.kept ho).2.1
        · simp only [hex, Bool.false_or, Bool.and_eq_true, List.isEmpty_iff]
          exact fun hleft => hleft.1.1
        · intro ho
          obtain ⟨hordered, hwaiting, hok⟩ := hr.kept ho
          refine ⟨hordered, hwaiting, fun a ha => hok a ?_⟩
          rw [hids]
          exact List.mem_append_right _ ha
        · by_cases hleft : left = []
          · by_cases hroom : (r.launch reads taken).inFlight < r.window
            · refine Or.inr ⟨hleft, fun hclosed => ?_⟩
              simpa [hex, hleft, launch, inFlight, hclosed] using hroom
            · exact Or.inl (Nat.le_of_not_lt hroom)
          · exact Or.inl (hfull hleft)

/-- A fault met in place of an id is settled at once. -/
theorem fill_fault_account (hr : r.Sound inOrder) {r' : Resolution} {fault : Fault}
    (h : r.fill reads = (r', some fault)) :
    Arrives inOrder (r.owed reads.find) (.error fault :: r'.owed reads.find) ∧
      r'.dropped = r.dropped ∧ r'.closed = r.closed ∧ r'.waiting = r.waiting := by
  unfold fill at h
  split at h
  · simp at h
  · obtain ⟨taken, left, ⟨fault', hids, hfill⟩ | ⟨_, _, hfill⟩⟩ :=
      fillFrom_cases reads r.arrived r
    · rw [hfill] at h
      simp only [Prod.mk.injEq, Option.some.injEq] at h
      obtain ⟨rfl, rfl⟩ := h
      refine ⟨?_, rfl, rfl, rfl⟩
      cases inOrder with
      | true =>
          obtain ⟨id, hid⟩ := (hr.kept rfl).2.2 (.error fault') (by simp [hids])
          cases hid
      | false =>
          refine (owed_launch taken _ hids (by simp)).trans ?_
          exact Arrives.of_perm rfl List.perm_middle
    · rw [hfill] at h
      simp at h

/-- Nothing is parked while nothing is held back. -/
theorem parked_eq_nil (hfree : ∀ id, reads.held id = false) {parked : List Lookup}
    (hparked : ∀ l ∈ parked, reads.held l.id = true) : parked = [] := by
  apply List.eq_nil_iff_forall_not_mem.mpr
  intro l hl
  simpa [hfree] using hparked l hl

/-- Nothing comes to wait while nothing is held back. -/
theorem waiting_takeFinished (hfree : ∀ id, reads.held id = false) {found : Option Lookup}
    {r' : Resolution} (h : r.takeFinished reads = (found, r')) (hwaiting : r.waiting = []) :
    r'.waiting = [] := by
  obtain ⟨ready, parked, rfl, _, _, hparked, _⟩ := takeFinished_cases h
  simp [hwaiting, parked_eq_nil hfree hparked]

/-- Looking for a finished lookup settles it, if there is one, and leaves the others
outstanding. -/
theorem perm_takeFinished {found : Option Lookup} {r' : Resolution}
    (h : r.takeFinished reads = (found, r')) :
    (r.ready ++ r.waiting).Perm (found.toList ++ (r'.ready ++ r'.waiting)) := by
  obtain ⟨ready, parked, rfl, hperm, _⟩ := takeFinished_cases h
  refine (hperm.symm.append_right r.waiting).trans ?_
  simp only [List.append_assoc]
  exact List.Perm.append_left _ (List.Perm.append_left _ List.perm_append_comm)

/-- Looking for a finished lookup settles it, if there is one. -/
theorem takeFinished_account (hr : r.Sound inOrder) {found : Option Lookup} {r' : Resolution}
    (h : r.takeFinished reads = (found, r')) :
    Arrives inOrder (r.owed reads.find)
        ((found.toList.map Lookup.found) ++ r'.owed reads.find) ∧
      r'.Sound inOrder ∧ r'.dropped = r.dropped ∧ r'.closed = r.closed := by
  have houtstanding := perm_takeFinished h
  obtain ⟨ready, parked, rfl, _, hinTurn, _⟩ := takeFinished_cases h
  refine ⟨?_, ⟨hr.running, hr.roomy, hr.taken, fun ho => ?_⟩, rfl, rfl⟩
  · cases inOrder with
    | true =>
        obtain ⟨hordered, hwaiting, _⟩ := hr.kept rfl
        obtain ⟨hready, rfl⟩ := hinTurn hordered
        apply Arrives.of_eq
        simp [owed, hwaiting, ← hready]
    | false =>
        apply Arrives.of_perm rfl
        have hmapped := houtstanding.map Lookup.found
        simp only [List.map_append] at hmapped
        simpa [owed] using hmapped.append_right (r.arrived.map (outcomeOf reads.find))
  · obtain ⟨hordered, hwaiting, hok⟩ := hr.kept ho
    exact ⟨hordered, by simp [hwaiting, (hinTurn hordered).2], hok⟩

/-- Starting lookups without meeting a fault and then looking for a finished one
settles that one, if there is one. -/
theorem fill_takeFinished_account (hr : r.Sound inOrder) {r₁ r₂ : Resolution}
    {found : Option Lookup} (hfill : r.fill reads = (r₁, none))
    (htake : r₁.takeFinished reads = (found, r₂)) :
    Arrives inOrder (r.owed reads.find)
        ((found.toList.map Lookup.found) ++ r₂.owed reads.find) ∧
      r₂.Sound inOrder ∧ r₂.dropped = r.dropped ∧ r₂.closed = r.closed := by
  obtain ⟨harr, hr₁, hdropped, hclosed, _, _⟩ := fill_account hr hfill
  obtain ⟨harr', hr₂, hdropped', hclosed'⟩ := takeFinished_account hr₁ htake
  exact ⟨harr.trans harr', hr₂, hdropped'.trans hdropped, hclosed'.trans hclosed⟩

variable (reads)

/-- **The account of a poll.**  It drops some lookups that found nothing, each
counted, settles what it hands out, and owes the rest.  Without a fault the
resolution goes on, and it ends only when nothing is owed. -/
theorem poll_account (hr : r.Sound inOrder) :
    ∃ n, (r.poll reads).2.dropped = r.dropped + n ∧
      Arrives inOrder (r.owed reads.find)
        (List.replicate n (.ok none) ++ settledBy (r.poll reads).1 ++
          (r.poll reads).2.owed reads.find) ∧
      ((∀ fault, (r.poll reads).1 ≠ .item (.error fault)) → (r.poll reads).2.Sound inOrder) ∧
      ((r.poll reads).1 = .ended → (r.poll reads).2.owed reads.find = []) ∧
      (r.poll reads).2.closed = r.closed := by
  fun_induction poll r reads with
  | case1 r hfailed => simp [hr.running] at hfailed
  | case2 r hfailed r₁ fault hfill =>
      obtain ⟨harr, hdropped, hclosed, _⟩ := fill_fault_account hr hfill
      exact ⟨0, hdropped, harr, fun h => absurd rfl (h fault), by simp, hclosed⟩
  | case3 r hfailed r₁ hfill r₂ htake =>
      obtain ⟨harr, hr₂, hdropped, hclosed⟩ := fill_takeFinished_account hr hfill htake
      refine ⟨0, hdropped, ?_, fun _ => hr₂, ?_, hclosed⟩
      · have hnone : settledBy (if r₂.exhausted = true ∧ r₂.inFlight = 0 then .ended else .pending) =
            [] := by
          split <;> rfl
        rw [hnone]
        exact harr
      · intro hended
        have hover : r₂.exhausted = true ∧ r₂.inFlight = 0 := by
          by_contra hnot
          simp [hnot] at hended
        have hflight := hover.2
        simp only [inFlight, Nat.add_eq_zero_iff, List.length_eq_zero_iff] at hflight
        simp [owed, hflight.1, hflight.2, hr₂.taken hover.1]
  | case4 r hfailed r₁ hfill l r₂ htake document hfound =>
      obtain ⟨harr, hr₂, hdropped, hclosed⟩ := fill_takeFinished_account hr hfill htake
      refine ⟨0, hdropped, ?_, fun _ => hr₂, by simp, hclosed⟩
      simpa [settledBy, hfound] using harr
  | case5 r hfailed r₁ hfill l r₂ htake hfound ih =>
      obtain ⟨harr, hr₂, hdropped, hclosed⟩ := fill_takeFinished_account hr hfill htake
      obtain ⟨n, hn, harrn, hsound, hended, hclosedn⟩ :=
        ih ⟨hr₂.running, hr₂.roomy, hr₂.taken, hr₂.kept⟩
      refine ⟨n + 1, ?_, ?_, hsound, hended, hclosedn.trans hclosed⟩
      · rw [hn]
        show r₂.dropped + 1 + n = _
        omega
      · have hrest : Arrives inOrder (r₂.owed reads.find) _ := harrn
        refine harr.trans ?_
        simpa [hfound, List.replicate_succ] using Arrives.cons (.ok none) hrest
  | case6 r hfailed r₁ hfill l r₂ htake fault hfound =>
      obtain ⟨harr, _, hdropped, hclosed⟩ := fill_takeFinished_account hr hfill htake
      refine ⟨0, hdropped, ?_, fun h => absurd rfl (h fault), by simp, hclosed⟩
      simpa [settledBy, hfound, owed] using harr

variable {reads}

/-- While nothing is held back and nothing waits, a poll is never pending if
no more ids will come, and nothing waits after it. -/
theorem poll_free (hr : r.Sound inOrder) (hfree : ∀ id, reads.held id = false)
    (hwaiting : r.waiting = []) (hclosed : r.closed = true) :
    (r.poll reads).1 ≠ .pending ∧ (r.poll reads).2.waiting = [] := by
  fun_induction poll r reads with
  | case1 r hfailed => simp [hwaiting]
  | case2 r hfailed r₁ fault hfill =>
      obtain ⟨_, _, _, hwaiting₁⟩ := fill_fault_account hr hfill
      exact ⟨by simp, hwaiting₁.trans hwaiting⟩
  | case3 r hfailed r₁ hfill r₂ htake =>
      obtain ⟨_, hr₁, _, _, hwaiting₁, hfull⟩ := fill_account hr hfill
      have hwaiting₂ := waiting_takeFinished hfree htake (hwaiting₁.trans hwaiting)
      have hready : r₁.ready = [] := by
        obtain ⟨_, _, _, _, _, _, hnone⟩ := takeFinished_cases htake
        by_contra hsome
        obtain ⟨l, _, hheld⟩ := hnone rfl hsome
        simp [hfree] at hheld
      have hidle₁ : r₁.inFlight = 0 := by simp [inFlight, hready, hwaiting₁, hwaiting]
      have hidle : r₂.inFlight = 0 := by
        have hcount := (perm_takeFinished htake).length_eq
        simp only [List.length_append, Option.toList_none, List.length_nil] at hcount
        simp only [inFlight] at hidle₁ ⊢
        omega
      have hex : r₂.exhausted = true := by
        obtain ⟨ready, parked, rfl, _⟩ := takeFinished_cases htake
        rcases hfull with hfull | ⟨_, hex⟩
        · have := hr₁.roomy
          omega
        · exact hex hclosed
      exact ⟨by simp [hex, hidle], hwaiting₂⟩
  | case4 r hfailed r₁ hfill l r₂ htake document hfound =>
      obtain ⟨_, _, _, _, hwaiting₁, _⟩ := fill_account hr hfill
      exact ⟨by simp, waiting_takeFinished hfree htake (hwaiting₁.trans hwaiting)⟩
  | case5 r hfailed r₁ hfill l r₂ htake hfound ih =>
      obtain ⟨_, _, _, _, hwaiting₁, _⟩ := fill_account hr hfill
      obtain ⟨_, hr₂, _, hclosed₂⟩ := fill_takeFinished_account hr hfill htake
      have hwaiting₂ := waiting_takeFinished hfree htake (hwaiting₁.trans hwaiting)
      exact ih ⟨hr₂.running, hr₂.roomy, hr₂.taken, hr₂.kept⟩ hwaiting₂ (hclosed₂.trans hclosed)
  | case6 r hfailed r₁ hfill l r₂ htake fault hfound =>
      obtain ⟨_, _, _, _, hwaiting₁, _⟩ := fill_account hr hfill
      have hwaiting₂ := waiting_takeFinished hfree htake (hwaiting₁.trans hwaiting)
      exact ⟨by simp, hwaiting₂⟩

variable (reads)

/-- Releasing lookups settles nothing; in order of arrival none wait. -/
theorem release_account (hr : r.Sound inOrder) (id : String) :
    Arrives inOrder (r.owed reads.find) ((r.release id).owed reads.find) ∧
      (r.release id).Sound inOrder := by
  refine ⟨?_, hr.running, hr.roomy, hr.taken, fun ho => ?_⟩
  · cases inOrder with
    | true =>
        apply Arrives.of_eq
        simp [owed, release, (hr.kept rfl).2.1]
    | false =>
        apply Arrives.of_perm rfl
        simp only [owed, release, List.append_assoc]
        refine List.Perm.append_right _ (List.Perm.map _ (List.Perm.append_left _ ?_))
        have hsplit := List.filter_append_perm (fun l : Lookup => l.id == id) r.waiting
        simpa [bne] using hsplit.symm
  · obtain ⟨hordered, hwaiting, hok⟩ := hr.kept ho
    exact ⟨hordered, by simp [release, hwaiting], hok⟩

end Account

/-- Lookups that wait all enter the queue again once their ids are released. -/
theorem waiting_foldl_release (ids : List String) (r : Resolution)
    (hids : ∀ l ∈ r.waiting, l.id ∈ ids) : (ids.foldl release r).waiting = [] := by
  induction ids generalizing r with
  | nil => simpa [List.eq_nil_iff_forall_not_mem] using hids
  | cons id rest ih =>
      apply ih
      intro l hl
      simp only [release, List.mem_filter, bne_iff_ne, ne_eq] at hl
      have := hids l hl.1
      simpa [hl.2] using this

/-- The resolution of a known list of ids may go on, in order if lookups are
kept in order and no fault is in place of an id. -/
theorem sound_ofIds {ordered : Bool} {window : Nat} {ids : List (Except Fault String)}
    {inOrder : Bool}
    (hkept : inOrder = true → ordered = true ∧ ∀ a ∈ ids, ∃ id, a = .ok id) :
    (ofIds ordered window ids).Sound inOrder where
  running := rfl
  roomy := Nat.lt_of_lt_of_le Nat.one_pos (Nat.le_max_left 1 window)
  taken := by simp [ofIds, idle]
  kept ho := ⟨(hkept ho).1, rfl, (hkept ho).2⟩

end Resolution

end DocQuery
