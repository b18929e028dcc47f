import DocQuery.Proofs.Settling
import DocQuery.Proofs.Turns

/-!
# Resolutions from their beginning

A resolution may be fed, closed and polled, and lookups may go on together or
one by one, in any order and any number of times; what lookups find, and whose
lookups are held back, may be different at every poll.  `Resolution.History`
records what was fed, which lookups were started and what the polls answered.

* `after_happening`, `exists_happenings` — what the moves of a run make of a resolution
  is what happens to it in a history;
* `Accounted.after` — the step lemma: whatever happens, every lookup started is
  settled or outstanding, and what is settled was handed out or counted;
* `resolution_accounts` — what this says about every run: the window is kept,
  ids are looked up in their order, the counts add up, a fault ends the run,
  and without one it ends only when everything is done.
-/

namespace DocQuery

/-- The documents among some items. -/
def documentsOf (items : List (Except Fault Document)) : List Document :=
  items.filterMap Except.toOption

theorem documentsOf_append (first second : List (Except Fault Document)) :
    documentsOf (first ++ second) = documentsOf first ++ documentsOf second :=
  List.filterMap_append

/-- The faults among some items. -/
def faultsOf (items : List (Except Fault Document)) : List Fault :=
  items.filterMap fun
    | .error fault => some fault
    | .ok _ => none

theorem mem_faultsOf {items : List (Except Fault Document)} {fault : Fault} :
    fault ∈ faultsOf items ↔ .error fault ∈ items := by
  simp only [faultsOf, List.mem_filterMap]
  constructor
  · rintro ⟨_ | _, hitem, heq⟩
    · cases heq
      exact hitem
    · cases heq
  · exact fun hitem => ⟨_, hitem, rfl⟩

/-- Documents hold no faults. -/
theorem faultsOf_map_ok (documents : List Document) : faultsOf (documents.map .ok) = [] := by
  simp [faultsOf, List.filterMap_map]

/-- The faults among faults are all of them. -/
theorem faultsOf_map_error (faults : List Fault) : faultsOf (faults.map .error) = faults := by
  simp [faultsOf, List.filterMap_map]

theorem faultsOf_append (first second : List (Except Fault Document)) :
    faultsOf (first ++ second) = faultsOf first ++ faultsOf second :=
  List.filterMap_append

theorem handedOut_append (answers : List (Polled (Except Fault Document)))
    (answer : Polled (Except Fault Document)) :
    handedOut (answers ++ [answer]) = handedOut answers ++ answer.item?.toList := by
  cases hitem : answer.item? <;> simp [handedOut, hitem]

theorem mem_handedOut {answers : List (Polled (Except Fault Document))}
    {item : Except Fault Document} : item ∈ handedOut answers ↔ .item item ∈ answers := by
  have hitem : ∀ a : Polled (Except Fault Document), a.item? = some item ↔ a = .item item := by
    intro a
    cases a <;> simp [Polled.item?]
  simp [handedOut, hitem]

/-- The fault of an answer, if it is one. -/
def Polled.fault? : Polled (Except Fault Document) → Option Fault
  | .item (.error fault) => some fault
  | .item (.ok _) | .pending | .ended => none

/-- An answer hands out a document or a fault, or neither. -/
theorem item?_toList_eq (answer : Polled (Except Fault Document)) :
    answer.item?.toList = (documentsOf answer.item?.toList).map .ok ++
      (answer.fault?.map .error).toList := by
  rcases answer with (fault | document) | _ | _ <;> rfl

/-- After a fault the answers are all ends. -/
def FaultEnds (answers : List (Polled (Except Fault Document))) : Prop :=
  ∀ before fault after, answers = before ++ .item (.error fault) :: after →
    ∀ a ∈ after, a = .ended

/-- One more answer may be anything before a fault, and an end after it. -/
theorem FaultEnds.snoc {answers : List (Polled (Except Fault Document))}
    {answer : Polled (Except Fault Document)} (h : FaultEnds answers)
    (hlast : (∀ fault, .item (.error fault) ∉ answers) ∨ answer = .ended) :
    FaultEnds (answers ++ [answer]) := by
  intro before fault after heq
  rcases List.eq_nil_or_concat' after with rfl | ⟨after, last, rfl⟩
  · simp
  · rw [← List.cons_append, ← List.append_assoc] at heq
    obtain ⟨heq, hanswer⟩ := List.append_inj' heq rfl
    have hended : answer = .ended := by
      rcases hlast with hnone | hended
      · exact absurd (heq ▸ by simp) (hnone fault)
      · exact hended
    have hlast : last = .ended := by simpa [hended, eq_comm] using hanswer
    intro a ha
    rcases List.mem_append.mp ha with ha | ha
    · exact h before fault after heq a ha
    · rw [List.mem_singleton.mp ha, hlast]

namespace Resolution

/-- What may happen to a resolution. -/
inductive Happening where
  /-- ids arrive, or faults in their place -/
  | feed (ids : List (Except Fault String))
  /-- no more ids will arrive -/
  | close
  /-- lookups of an id that were found to be held may go on -/
  | release (id : String)
  /-- one lookup that was found to be held may go on -/
  | wake (k : Nat)
  /-- the resolution is polled; what lookups find now, and which are held back -/
  | poll (reads : Reads)

/-- What a move of a run makes happen: at a poll lookups find what `find` says, and
those that the run holds back are held. -/
def Run.happening (run : Run) (find : String → Except Fault (Option Document)) :
    Move → Happening
  | .feed ids => .feed ids
  | .close => .close
  | .release id => .release id
  | .poll => .poll (run.reads find)

/-- Makes moves one after the other; the answers to the polls among them, in order. -/
def Run.steps (find : String → Except Fault (Option Document)) (run : Run) :
    List Move → List (Polled (Except Fault Document)) × Run
  | [] => ([], run)
  | move :: rest =>
    let (answer, next) := run.step find move
    let (answers, last) := next.steps find rest
    (answer.toList ++ answers, last)

/-- Only the close closes a run. -/
theorem Run.closed_step (find : String → Except Fault (Option Document)) (run : Run) {move : Move}
    (hmove : move ≠ .close) :
    (run.step find move).2.resolution.closed = run.resolution.closed := by
  cases move with
  | feed ids | release id => rfl
  | close => exact absurd rfl hmove
  | poll =>
      obtain ⟨_, _, _, hprogress, _⟩ := poll_progress (run.reads find) run.resolution
      exact hprogress.closed

/-- A resolution and what has happened to it. -/
structure History where
  resolution : Resolution
  /-- what has been fed, in order -/
  fed : List (Except Fault String)
  /-- the lookups that were started, in order, with what they found -/
  lookups : List Lookup
  /-- the answers to the polls, in order -/
  answers : List (Polled (Except Fault Document))

namespace History

/-- Nothing has happened yet. -/
def begin (ordered : Bool) (window : Nat) : History := ⟨.idle ordered window, [], [], []⟩

/-- Something happens.  Nothing can be fed after the close. -/
def after (h : History) : Happening → History
  | .feed ids =>
    if h.resolution.closed then h
    else { h with resolution := h.resolution.feed ids, fed := h.fed ++ ids }
  | .close => { h with resolution := h.resolution.close }
  | .release id => { h with resolution := h.resolution.release id }
  | .wake k => { h with resolution := h.resolution.wake k }
  | .poll reads =>
    let (answer, r) := h.resolution.poll reads
    { h with
      resolution := r
      lookups :=
        h.lookups ++ (r.started.drop h.resolution.started.length).map reads.lookup
      answers := h.answers ++ [answer] }

/-- What has happened after a list of happenings. -/
def run (ordered : Bool) (window : Nat) (happenings : List Happening) : History :=
  happenings.foldl after (begin ordered window)

theorem run_concat (ordered : Bool) (window : Nat) (happenings : List Happening)
    (happening : Happening) :
    run ordered window (happenings ++ [happening]) =
      (run ordered window happenings).after happening := by
  simp [run]

/-- **Moves are happenings.**  What a move makes of the resolution of a run, and what
it answers, is what its happening makes of a history; only feeding a resolution that
is closed is not. -/
theorem after_happening {h : History} {run : Run} (hrun : h.resolution = run.resolution)
    (find : String → Except Fault (Option Document)) (move : Move)
    (hopen : ∀ ids, move = .feed ids → run.resolution.closed = false) :
    (h.after (run.happening find move)).resolution = (run.step find move).2.resolution ∧
      (h.after (run.happening find move)).answers = h.answers ++ (run.step find move).1.toList := by
  cases move with
  | feed ids => simp [after, Run.happening, Run.step, hrun, hopen ids rfl]
  | close | release | poll => simp [after, Run.happening, Run.step, hrun]

/-- **Runs are histories.**  Moves that feed nothing after the close make of a run, and
answer, what some happenings make of a history. -/
theorem exists_happenings (find : String → Except Fault (Option Document)) {moves : List Move}
    {h : History} {run : Run} (hrun : h.resolution = run.resolution)
    (hopen : ∀ before ids rest, moves = before ++ .feed ids :: rest →
      run.resolution.closed = false ∧ .close ∉ before) :
    ∃ happenings : List Happening, (∀ reads, .poll reads ∈ happenings → reads.find = find) ∧
      (happenings.foldl after h).resolution = (run.steps find moves).2.resolution ∧
      (happenings.foldl after h).answers = h.answers ++ (run.steps find moves).1 := by
  induction moves generalizing h run with
  | nil => exact ⟨[], by simp, hrun, by simp [Run.steps]⟩
  | cons move rest ih =>
      obtain ⟨hresolution, hanswers⟩ := after_happening hrun find move
        fun ids hfeed => (hopen [] ids rest (by rw [hfeed]; rfl)).1
      have hstill : ∀ before ids later, rest = before ++ .feed ids :: later →
          (run.step find move).2.resolution.closed = false ∧ .close ∉ before := by
        intro before ids later hrest
        obtain ⟨hclosed, hbefore⟩ := hopen (move :: before) ids later (by rw [hrest]; rfl)
        obtain ⟨hmove, hbefore⟩ := not_or.mp (mt List.mem_cons.mpr hbefore)
        exact ⟨(run.closed_step find (Ne.symm hmove)).trans hclosed, hbefore⟩
      obtain ⟨happenings, hfind, hlast, hall⟩ := ih hresolution hstill
      refine ⟨run.happening find move :: happenings, ?_, hlast, ?_⟩
      · intro reads hpoll
        rcases List.mem_cons.mp hpoll with hfirst | hlater
        · cases move <;> cases hfirst
          rfl
        · exact hfind reads hlater
      · rw [List.foldl_cons, hall, hanswers, List.append_assoc]
        rfl

/-- What moves make of a new resolution, some lookups being held back at first, is the
end of a history from the beginning. -/
theorem exists_run (ordered : Bool) (window : Nat) (held : List String)
    (find : String → Except Fault (Option Document)) {moves : List Move}
    (hopen : ∀ before ids rest, moves = before ++ .feed ids :: rest → .close ∉ before) :
    ∃ happenings : List Happening, (∀ reads, .poll reads ∈ happenings → reads.find = find) ∧
      (run ordered window happenings).resolution =
        (Run.steps find ⟨.idle ordered window, held⟩ moves).2.resolution ∧
      (run ordered window happenings).answers =
        (Run.steps find ⟨.idle ordered window, held⟩ moves).1 :=
  exists_happenings find rfl fun before ids rest hmoves => ⟨rfl, hopen before ids rest hmoves⟩

/-- The documents handed out, in order. -/
def documents (h : History) : List Document := documentsOf (handedOut h.answers)

/-- How many lookups a fault has taken with it: one if a lookup found the
fault, and none if it came in place of an id or there was none. -/
inductive LostToFault (h : History) : Nat → Prop
  | nothing (hnone : ∀ fault, .item (.error fault) ∉ h.answers) : LostToFault h 0
  | fed (fault : Fault) (hfault : .item (.error fault) ∈ h.answers)
      (hfed : h.fed = h.lookups.map (.ok ·.id) ++ .error fault :: h.resolution.arrived) :
      LostToFault h 0
  | found (fault : Fault) (hfault : .item (.error fault) ∈ h.answers) (l : Lookup)
      (hl : l ∈ h.lookups) (hfound : l.found = .error fault)
      (hfed : h.fed = h.lookups.map (.ok ·.id) ++ h.resolution.arrived) : LostToFault h 1

/-- The account of a run in which the lookups `settled` were settled and the
faults `met` were taken out of the places of ids. -/
structure Accounted (h : History) (window : Nat) (settled : List Lookup) (met : List Fault)
    (fault : Option Fault) : Prop where
  window : h.resolution.window = max 1 window
  fit : h.resolution.Fit
  started : h.resolution.started = h.lookups.map Lookup.id
  fed : h.fed = h.lookups.map (.ok ·.id) ++ met.map .error ++ h.resolution.arrived
  account : h.lookups.Perm (settled ++ h.resolution.outstanding)
  dropped : h.resolution.dropped = settled.countP Lookup.isMissing
  settling : handedOut h.answers = settled.filterMap Lookup.item? ++ met.map .error
  shape : handedOut h.answers = h.documents.map .ok ++ (fault.map .error).toList
  failed : h.resolution.failed = fault.isSome
  faultEnds : FaultEnds h.answers
  ended : .ended ∈ h.answers → h.resolution.failed = false →
    h.resolution.exhausted = true ∧ h.resolution.inFlight = 0

section Account

variable {h : History} {window : Nat} {settled : List Lookup} {met : List Fault}
  {fault : Option Fault}

/-- Before a fault nothing was taken out of the place of an id. -/
theorem Accounted.met_eq_nil (ha : h.Accounted window settled met none) : met = [] := by
  rw [List.eq_nil_iff_forall_not_mem]
  intro f hf
  have hitem : (.error f : Except Fault Document) ∈ handedOut h.answers := by
    rw [ha.settling]
    exact List.mem_append_right _ (List.mem_map_of_mem hf)
  simp [ha.shape] at hitem

/-- After a fault polls change nothing and answer the end. -/
theorem Accounted.poll_over (ha : h.Accounted window settled met fault)
    (hfault : h.resolution.failed = true) (reads : Reads) :
    (h.after (.poll reads)).Accounted window settled met fault := by
  have hafter : h.after (.poll reads) = { h with answers := h.answers ++ [.ended] } := by
    simp [after, poll_of_failed reads hfault]
  have hitems : handedOut (h.answers ++ [.ended]) = handedOut h.answers := by
    simp [handedOut_append, Polled.item?]
  rw [hafter]
  refine ⟨ha.window, ha.fit, ha.started, ha.fed, ha.account, ha.dropped, ?_, ?_, ha.failed, ?_, ?_⟩
  · exact hitems.trans ha.settling
  · rw [documents, hitems]
    exact ha.shape
  · exact ha.faultEnds.snoc (Or.inr rfl)
  · exact fun _ hrunning => absurd hfault (by simpa using hrunning)

/-- A poll before a fault settles lookups, hands out what they found, and counts
those that found nothing. -/
theorem Accounted.poll (ha : h.Accounted window settled met none) (reads : Reads) :
    ∃ settled met fault, (h.after (.poll reads)).Accounted window settled met fault := by
  have hrunning : h.resolution.failed = false := ha.failed
  obtain rfl := ha.met_eq_nil
  obtain ⟨taken, more, met, hprogress, hitem, hfault, hended⟩ := poll_progress reads h.resolution
  have hdocuments : ∀ answer, documentsOf (handedOut (h.answers ++ [answer])) =
      h.documents ++ documentsOf answer.item?.toList := by
    intro answer
    rw [handedOut_append, documentsOf_append, documents]
  have hlookups : ((h.resolution.poll reads).2.started.drop h.resolution.started.length).map
      reads.lookup = taken.map reads.lookup := by
    rw [hprogress.started, List.drop_left]
  have hsettling : ∀ answer, answer.item?.toList = more.filterMap Lookup.item? ++ met.map .error →
      handedOut (h.answers ++ [answer]) =
        (settled ++ more).filterMap Lookup.item? ++ met.map .error := by
    intro answer hanswer
    rw [handedOut_append, ha.settling, hanswer, List.filterMap_append]
    simp
  have hno : ∀ fault, .item (.error fault) ∉ h.answers := by
    intro fault hmem
    have hmem := mem_handedOut.mpr hmem
    simp [ha.shape] at hmem
  refine ⟨settled ++ more, met, (h.resolution.poll reads).1.fault?, ?_⟩
  simp only [after, hlookups]
  refine ⟨hprogress.window.trans ha.window, ha.fit.poll, ?_, ?_, ?_, ?_, hsettling _ hitem.symm,
    ?_, ?_, ha.faultEnds.snoc (Or.inl hno), ?_⟩
  · rw [hprogress.started, ha.started, List.map_append, reads.map_id_lookup]
  · simp [ha.fed, hprogress.arrived, Reads.lookup]
  · have haccount := ha.account.append_right (taken.map reads.lookup)
    rw [List.append_assoc] at haccount
    exact haccount.trans (by simpa using hprogress.account.append_left settled)
  · rw [hprogress.dropped, ha.dropped, List.countP_append]
  · have hshape : handedOut h.answers = h.documents.map .ok := by simpa using ha.shape
    rw [documents, hdocuments, handedOut_append, hshape, List.map_append, List.append_assoc,
      ← item?_toList_eq]
  · rw [Bool.eq_iff_iff, hfault]
    rcases (h.resolution.poll reads).1 with (fault | document) | _ | _ <;>
      simp [Polled.fault?, hrunning]
  · intro hlast _
    -- After an end nothing is left to do, so this poll has answered the end too.
    rcases List.mem_append.mp hlast with hbefore | hnow
    · obtain ⟨hex, hidle⟩ := ha.ended hbefore hrunning
      rw [poll_of_done reads hrunning hex hidle]
      exact ⟨hex, hidle⟩
    · exact hended (List.mem_singleton.mp hnow).symm hrunning

/-- Where the lookups outstanding wait does not matter to the account. -/
theorem Accounted.rearranged (ha : h.Accounted window settled met fault)
    {ready waiting : List Lookup} (hperm : (ready ++ waiting).Perm h.resolution.outstanding) :
    History.Accounted
      { h with resolution := { h.resolution with ready := ready, waiting := waiting } }
      window settled met fault := by
  have hcount : ready.length + waiting.length = h.resolution.inFlight := by
    rw [← length_outstanding, ← hperm.length_eq, List.length_append]
  exact ⟨ha.window, ⟨hcount.trans_le ha.fit.bounded, ha.fit.spent⟩, ha.started, ha.fed,
    ha.account.trans (hperm.symm.append_left settled), ha.dropped, ha.settling, ha.shape, ha.failed,
    ha.faultEnds, fun hlast hrunning => ⟨(ha.ended hlast hrunning).1,
      hcount.trans (ha.ended hlast hrunning).2⟩⟩

/-- **The step lemma.**  Whatever happens, the account goes on. -/
theorem Accounted.after (ha : h.Accounted window settled met fault) (happening : Happening) :
    ∃ settled met fault, (h.after happening).Accounted window settled met fault := by
  cases happening with
  | feed ids =>
      refine ⟨settled, met, fault, ?_⟩
      by_cases hclosed : h.resolution.closed = true
      · have hafter : h.after (.feed ids) = h := by simp [History.after, hclosed]
        rwa [hafter]
      · have hafter : h.after (.feed ids) =
            { h with resolution := h.resolution.feed ids, fed := h.fed ++ ids } := by
          simp [History.after, hclosed]
        rw [hafter]
        have hopen : h.resolution.exhausted = false := by
          by_contra hex
          exact hclosed (ha.fit.spent (by simpa using hex)).2
        exact ⟨ha.window, ⟨ha.fit.bounded, by simp [Resolution.feed, hopen]⟩, ha.started,
          by simp [ha.fed, Resolution.feed], ha.account, ha.dropped, ha.settling, ha.shape,
          ha.failed, ha.faultEnds, ha.ended⟩
  | close =>
      exact ⟨settled, met, fault, ha.window,
        ⟨ha.fit.bounded, fun hex => ⟨(ha.fit.spent hex).1, rfl⟩⟩, ha.started, ha.fed, ha.account,
        ha.dropped, ha.settling, ha.shape, ha.failed, ha.faultEnds, ha.ended⟩
  | release id => exact ⟨settled, met, fault, ha.rearranged (perm_release id)⟩
  | wake k => exact ⟨settled, met, fault, ha.rearranged (perm_wake k)⟩
  | poll reads =>
      cases fault with
      | none => exact ha.poll reads
      | some f => exact ⟨settled, met, some f, ha.poll_over ha.failed reads⟩

/-- **The run lemma.**  Every run has an account. -/
theorem accounted_run (ordered : Bool) (window : Nat) (happenings : List Happening) :
    ∃ settled met fault, (run ordered window happenings).Accounted window settled met fault := by
  have hbegin : (begin ordered window).Accounted window [] [] none :=
    ⟨rfl, ⟨Nat.zero_le _, by simp [begin, idle]⟩, rfl, rfl, List.Perm.refl _, rfl, rfl, rfl, rfl,
      by simp [FaultEnds, begin], by simp [begin]⟩
  suffices hfold : ∀ h : History, (∃ settled met fault, h.Accounted window settled met fault) →
      ∃ settled met fault, (happenings.foldl History.after h).Accounted window settled met fault from
    hfold _ ⟨[], [], none, hbegin⟩
  intro h ha
  induction happenings generalizing h with
  | nil => exact ha
  | cons happening rest ih =>
      obtain ⟨settled, met, fault, ha⟩ := ha
      exact ih _ (ha.after happening)

/-- A lookup that hands out a fault has found it. -/
theorem found_of_item? {l : Lookup} {f : Fault} (h : l.item? = some (.error f)) :
    l.found = .error f := by
  obtain ⟨id, g | _ | document⟩ := l <;> simp_all [Lookup.item?, delivered]

/-- The lookups started are as many as were handed out, counted, or are
outstanding, but for one that found the fault that ended the run. -/
theorem Accounted.length_lookups (ha : h.Accounted window settled met fault) :
    ∃ n, h.LostToFault n ∧
      h.lookups.length = h.documents.length + h.resolution.dropped + h.resolution.inFlight + n := by
  have hlookups := ha.account.length_eq
  have hsettled := Lookup.length_eq_items_add_missing settled
  have hitems := congrArg List.length (ha.settling.symm.trans ha.shape)
  have hfaults := congrArg faultsOf (ha.settling.symm.trans ha.shape)
  simp only [List.length_append, List.length_map, length_outstanding] at hlookups hitems
  simp only [faultsOf_append, faultsOf_map_ok, faultsOf_map_error, List.nil_append] at hfaults
  rw [ha.dropped]
  cases fault with
  | none =>
      obtain rfl := ha.met_eq_nil
      refine ⟨0, .nothing fun f hf => ?_, ?_⟩
      · have hf := mem_handedOut.mpr hf
        simp [ha.shape] at hf
      · simp at hitems
        omega
  | some f =>
      have hf : .item (.error f) ∈ h.answers := mem_handedOut.mp (by simp [ha.shape])
      have hone : faultsOf (settled.filterMap Lookup.item?) ++ met = [f] := hfaults
      -- The fault came in place of an id, or it was found by a lookup, which is then
      -- settled but neither handed out a document nor was counted.
      rcases List.append_eq_singleton_iff.mp hone with ⟨_, rfl⟩ | ⟨hfound, rfl⟩
      · refine ⟨0, .fed f hf ?_, ?_⟩
        · simp [ha.fed]
        · simp at hitems
          omega
      · have hmem : .error f ∈ settled.filterMap Lookup.item? := mem_faultsOf.mp (by simp [hfound])
        obtain ⟨l, hl, hitem⟩ := List.mem_filterMap.mp hmem
        refine ⟨1, .found f hf l ?_ (found_of_item? hitem) ?_, ?_⟩
        · exact ha.account.mem_iff.mpr (List.mem_append_left _ hl)
        · simp [ha.fed]
        · simp at hitems
          omega

/-- A run that has ended without a fault has looked up every id it was fed, and
has handed out every document found. -/
theorem Accounted.complete (ha : h.Accounted window settled met none)
    (hended : .ended ∈ h.answers) :
    h.resolution.closed = true ∧ h.resolution.inFlight = 0 ∧
      h.fed = h.lookups.map (.ok ·.id) ∧
      h.documents.Perm (h.lookups.filterMap Lookup.document?) ∧
      h.resolution.dropped = h.lookups.countP Lookup.isMissing := by
  obtain rfl := ha.met_eq_nil
  obtain ⟨hex, hidle⟩ := ha.ended hended ha.failed
  obtain ⟨harrived, hclosed⟩ := ha.fit.spent hex
  have hall : h.lookups.Perm settled := by
    have hnone : h.resolution.outstanding = [] :=
      List.eq_nil_of_length_eq_zero ((length_outstanding _).trans hidle)
    simpa [hnone] using ha.account
  refine ⟨hclosed, hidle, by simp [ha.fed, harrived], ?_, ?_⟩
  · have hdocuments : h.documents = settled.filterMap Lookup.document? := by
      simp only [documents, ha.settling, documentsOf, List.map_nil, List.append_nil,
        List.filterMap_filterMap]
      rfl
    rw [hdocuments]
    exact (hall.filterMap _).symm
  · rw [ha.dropped]
    exact (hall.countP_eq _).symm

/-- **The safety of resolutions.**  In every run of a resolution, in order of
arrival or of completion, the lookups outstanding never exceed the window, not
even within a poll.  Ids are looked up in the order in which they were fed,
each as often as it was fed.  Of the lookups started, some have handed out a
document, some found nothing and were counted, and the others are outstanding,
but for one that found a fault.  After a fault every poll answers the end.
And once the end is answered without a fault, no more ids will arrive, nothing
is outstanding, every id fed was looked up, and what was found was handed out. -/
theorem resolution_accounts (ordered : Bool) (window : Nat) (happenings : List Happening) :
    let h := run ordered window happenings
    (∀ reads s, Passes reads h.resolution s → s.inFlight ≤ max 1 window) ∧
      (h.resolution.started = h.lookups.map Lookup.id ∧
        ∃ left, h.fed = h.lookups.map (.ok ·.id) ++ left) ∧
      (∃ n, h.LostToFault n ∧ h.lookups.length =
        h.documents.length + h.resolution.dropped + h.resolution.inFlight + n) ∧
      ((faultsOf (handedOut h.answers)).length ≤ 1 ∧ FaultEnds h.answers) ∧
      ((∀ fault, .item (.error fault) ∉ h.answers) → .ended ∈ h.answers →
        h.resolution.closed = true ∧ h.resolution.inFlight = 0 ∧
          h.fed = h.lookups.map (.ok ·.id) ∧
          h.documents.Perm (h.lookups.filterMap Lookup.document?) ∧
          h.resolution.dropped = h.lookups.countP Lookup.isMissing) := by
  intro h
  obtain ⟨settled, met, fault, ha⟩ := accounted_run ordered window happenings
  refine ⟨?_, ⟨ha.started, ?_⟩, ha.length_lookups, ⟨?_, ha.faultEnds⟩, ?_⟩
  · intro reads s hs
    have hwindow : s.window = max 1 window := (window_of_passes hs).trans ha.window
    exact hwindow ▸ (ha.fit.passes hs).bounded
  · exact ⟨_, by rw [ha.fed, List.append_assoc]⟩
  · rw [ha.shape, faultsOf_append, faultsOf_map_ok, List.nil_append]
    cases fault <;> simp [faultsOf]
  · intro hno hended
    cases fault with
    | none => exact ha.complete hended
    | some f =>
        have hf : .error f ∈ handedOut h.answers := by
          rw [ha.shape]
          simp
        exact absurd (mem_handedOut.mp hf) (hno f)

end Account

end History

end Resolution

end DocQuery
