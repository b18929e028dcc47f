import DocQuery.Proofs.Histories

/-!
# What a query records

A query writes into its journal when it begins, when it has a plan, at every
lookup, and when it ends, fails or is dropped.  So the journal tells the history
of the query: which lookups it started, how its scope was closed, and what it
adds to the counters.

* `Recorded.after` — the step lemma: whatever happens, the journal tells it;
* `recorded_run` — the run lemma: every journal tells its history;
* `scope_closes_once` — what this says about every run: the shape of the
  answers, silence after the end, and the log of the query.
-/

namespace DocQuery

/-- New stages have looked nothing up. -/
theorem Setting.pipeline_idle (s : Setting) (filter : Filter) (options : Options) :
    (s.pipeline filter options).source.started = [] ∧
      (s.pipeline filter options).source.outstanding = [] ∧
      (s.pipeline filter options).source.dropped = 0 := by
  unfold Setting.pipeline
  cases (Plan.choose s.index s.store filter options).outcome with
  | error fault => exact ⟨rfl, rfl, rfl⟩
  | ok plan =>
      cases hcandidates : plan.candidates <;> simp only [Pipeline.ofPlan, hcandidates] <;>
        exact ⟨rfl, rfl, rfl⟩

namespace Query

/-- Choosing a plan records its route. -/
theorem chosen_unpolled {q : Query} (hq : q.stage = .unpolled) (w : World) (j : Journal) :
    (q.chosen w j).events =
        j.events ++ ((w.route? q.filter q.options).map (Event.queryRoute · q.id)).toList ∧
      (q.chosen w j).counters =
        match w.route? q.filter q.options with
        | some route => j.counters.took route
        | none => j.counters := by
  simp only [chosen, hq, prepare, World.route?]
  cases (Plan.choose w.index w.store q.filter q.options).outcome with
  | ok plan => exact ⟨rfl, rfl⟩
  | error fault => exact ⟨(List.append_nil _).symm, rfl⟩

/-- A poll records a fault or the end that it answers. -/
theorem events_poll {q : Query} {w : World} {p : Pipeline} (hq : w.setting.upcoming q = some p)
    (j : Journal) : (q.poll w j).2.2.events = (q.chosen w j).events ++
      match (p.poll w.reads).1 with
      | .pending | .item (.ok _) => []
      | .item (.error fault) => [q.span.failed fault.severity fault.display]
      | .ended => [q.span.completed w.now [("returned", toString q.returned)]] := by
  rw [poll_eq_advance hq]
  simp only [advance]
  rcases p.poll w.reads with ⟨(fault | document) | _ | _, p'⟩ <;>
    simp [Journal.note, Journal.returned, Journal.count, Journal.lookedUp]

/-- A poll counts the lookups that found nothing, a fault, and at a fault or the
end the documents. -/
theorem counters_poll {q : Query} {w : World} {p : Pipeline} (hq : w.setting.upcoming q = some p)
    (j : Journal) :
    (q.poll w j).2.2.counters =
      let c := (q.chosen w j).counters
      { c with
        lookupsDropped :=
          c.lookupsDropped + ((p.poll w.reads).2.source.dropped - p.source.dropped)
        documentsReturned := c.documentsReturned +
          if (p.poll w.reads).1.fault?.isSome || (p.poll w.reads).1.isEnded then q.returned else 0
        storeFaults := c.storeFaults + (p.poll w.reads).1.fault?.toList.length } := by
  rw [poll_eq_advance hq]
  simp only [advance]
  rcases p.poll w.reads with ⟨(fault | document) | _ | _, p'⟩ <;>
    simp [Journal.note, Journal.returned, Journal.count, Journal.lookedUp, Polled.fault?,
      Polled.isEnded]

namespace History

/-- The event that closes the scope of a query: it failed if a fault was handed
out, it is complete if the end was reached without one, and it is incomplete if
it was dropped before. -/
def closing (h : History) (elapsed : Nat) : List Event :=
  match h.fault? with
  | some fault =>
    let severity := match fault with
      | .corrupted _ _ => .fatal
      | .unavailable _ | .index _ => .error
    [⟨severity, "QUERY_FAILED", [("query_id", h.query.id), ("reason", fault.display)]⟩]
  | none =>
    if h.answers.any Polled.isEnded then
      [⟨.info, "QUERY_COMPLETE", [("query_id", h.query.id), ("elapsed_ms", toString elapsed),
        ("returned", toString h.documents.length)]⟩]
    else if h.dropped then
      [⟨.info, "QUERY_INCOMPLETE", [("query_id", h.query.id),
        ("reason", "scope dropped without completion")]⟩]
    else []

/-- The counters of the route that the first poll chose. -/
def routed (h : History) : Counters :=
  match h.route? with
  | some route => Counters.zero.took route
  | none => .zero

/-- What the query has added to the counters. -/
def counted (h : History) : Counters :=
  { h.routed with
    queriesExecuted := 1
    lookupsDropped := h.stages.elim 0 (·.source.dropped)
    documentsReturned := if h.isClosed then h.documents.length else 0
    storeFaults := (faultsOf (handedOut h.answers)).length }

/-- The journal of a query tells its history. -/
structure Recorded (h : History) : Prop where
  lookups : h.journal.lookups = h.lookups.map Lookup.id
  log : ∃ elapsed, h.journal.events = ⟨.info, "QUERY_BEGIN", [("query_id", h.query.id)]⟩ ::
    ((h.route?.map (Event.queryRoute · h.query.id)).toList ++ h.closing elapsed)
  counters : h.journal.counters = h.counted

section Steps

variable {filter : Filter} {options : Options} {id : String} {now : Nat} {h : History}

/-- Choosing a route hands out nothing. -/
theorem routed_eq_zero (h : History) :
    h.routed.documentsReturned = 0 ∧ h.routed.storeFaults = 0 := by
  unfold routed
  cases h.route? with
  | none => exact ⟨rfl, rfl⟩
  | some route => cases route <;> exact ⟨rfl, rfl⟩

/-- While a query is open, its journal tells that it has begun, and its route. -/
theorem Recorded.opened (hr : h.Recorded) (hopen : h.isOver = false) (hdropped : h.dropped = false) :
    h.journal.events = ⟨.info, "QUERY_BEGIN", [("query_id", h.query.id)]⟩ ::
        (h.route?.map (Event.queryRoute · h.query.id)).toList ∧
      h.journal.counters =
        { h.routed with
          queriesExecuted := 1
          lookupsDropped := h.stages.elim 0 (·.source.dropped) } := by
  have hclosed : h.isClosed = false := by simp [isClosed, hopen, hdropped]
  simp only [isOver, Bool.or_eq_false_iff, Option.isSome_eq_false_iff,
    Option.isNone_iff_eq_none] at hopen
  have hfaults : faultsOf (handedOut h.answers) = [] := by simpa [fault?] using hopen.1
  obtain ⟨hnone, hnofaults⟩ := h.routed_eq_zero
  obtain ⟨elapsed, hlog⟩ := hr.log
  have hclosing : h.closing elapsed = [] := by simp [closing, hopen, hdropped]
  rw [hclosing, List.append_nil] at hlog
  refine ⟨hlog, ?_⟩
  simp [hr.counters, counted, hclosed, hfaults, hnone, hnofaults]

/-- The route is chosen in the world of the first poll. -/
theorem Told.route_poll (ht : h.Told filter options id now) (hdropped : h.dropped = false)
    {w : World} {p : Pipeline} (hup : w.setting.upcoming h.query = some p) :
    (h.after (.poll w)).route? =
      (h.first.or (some w)).bind (·.route? h.query.filter h.query.options) := by
  obtain ⟨_, _, _, hafter⟩ := after_poll hdropped hup
  rw [route?, (ht.poll_live hdropped hup).query, ht.query, hafter]

/-- Once the plan is chosen, the journal tells that the query has begun and
which route it takes. -/
theorem Recorded.chosen (hr : h.Recorded) (ht : h.Told filter options id now)
    (hdropped : h.dropped = false) {w : World} {p : Pipeline}
    (hup : w.setting.upcoming h.query = some p) :
    (h.query.chosen w h.journal).events = ⟨.info, "QUERY_BEGIN", [("query_id", h.query.id)]⟩ ::
        ((h.after (.poll w)).route?.map (Event.queryRoute · h.query.id)).toList ∧
      (h.query.chosen w h.journal).counters =
        { (h.after (.poll w)).routed with
          queriesExecuted := 1
          lookupsDropped := p.source.dropped } := by
  obtain ⟨hlog, hcounters⟩ := hr.opened (ht.live hup).1 hdropped
  have hroute := ht.route_poll hdropped hup
  cases hstage : h.query.stage with
  | unpolled =>
      obtain ⟨hfirst, hstages, _, _⟩ := ht.fresh hstage
      have hbefore : h.route? = none := by simp [route?, hfirst]
      obtain rfl : w.setting.pipeline h.query.filter h.query.options = p := by
        simpa [Setting.upcoming, hstage] using hup
      obtain ⟨hevents, hcount⟩ := chosen_unpolled hstage w h.journal
      rw [hfirst, Option.none_or, Option.bind_some] at hroute
      rw [hevents, hcount, hlog, hcounters, routed, routed, hroute, hbefore, hstages,
        (w.setting.pipeline_idle _ _).2.2]
      refine ⟨rfl, ?_⟩
      cases w.route? h.query.filter h.query.options with
      | none => rfl
      | some route => cases route <;> rfl
  | running p₀ =>
      obtain ⟨hstages, _⟩ := ht.running p₀ hstage
      obtain ⟨w₀, _, _, hfirst, _⟩ := ht.begun (by simp [hstage])
      obtain rfl : p₀ = p := by simpa [Setting.upcoming, hstage] using hup
      have hsame : (h.after (.poll w)).route? = h.route? := by
        rw [hroute, route?, hfirst]
        rfl
      simp only [Query.chosen, hstage]
      rw [hlog, hcounters, routed, routed, hsame, hstages]
      exact ⟨rfl, rfl⟩
  | _ => simp [Setting.upcoming, hstage] at hup

/-- A poll of a query that is not over adds its answer to the log. -/
theorem Recorded.log_poll (hr : h.Recorded) (ht : h.Told filter options id now)
    (hdropped : h.dropped = false) {w : World} {p : Pipeline}
    (hup : w.setting.upcoming h.query = some p) :
    ∃ elapsed, (h.after (.poll w)).journal.events =
      ⟨.info, "QUERY_BEGIN", [("query_id", (h.after (.poll w)).query.id)]⟩ ::
        (((h.after (.poll w)).route?.map
            (Event.queryRoute · (h.after (.poll w)).query.id)).toList ++
          (h.after (.poll w)).closing elapsed) := by
  obtain ⟨hopen, _⟩ := ht.live hup
  obtain ⟨_, _, _, hafter⟩ := after_poll hdropped hup
  have hid : (h.after (.poll w)).query.id = h.query.id := by
    rw [(ht.poll_live hdropped hup).query, ht.query]
  have hjournal : (h.after (.poll w)).journal = (h.query.poll w h.journal).2.2 := by rw [hafter]
  have hkept : (h.after (.poll w)).dropped = false := by rw [hafter, hdropped]
  have hanswers : (h.after (.poll w)).answers = h.answers ++ [(p.poll w.reads).1] := by rw [hafter]
  obtain ⟨hdocuments, _, hfault, hended, _⟩ := answer_open hopen hanswers
  refine ⟨w.now - now, ?_⟩
  rw [hjournal, events_poll hup, (hr.chosen ht hdropped hup).1, hid, List.cons_append, closing,
    hfault, hended, hkept, hdocuments, ht.span, ht.returned, hid]
  rcases (p.poll w.reads).1 with (fault | document) | _ | _
  · cases fault <;> rfl
  · rfl
  · rfl
  · simp [Polled.fault?, Polled.isEnded, Polled.item?, documentsOf, Span.completed]

/-- A poll of a query that is not over adds its answer to the counters. -/
theorem Recorded.counters_poll (hr : h.Recorded) (ht : h.Told filter options id now)
    (hdropped : h.dropped = false) {w : World} {p : Pipeline}
    (hup : w.setting.upcoming h.query = some p) :
    (h.after (.poll w)).journal.counters = (h.after (.poll w)).counted := by
  obtain ⟨hopen, _⟩ := ht.live hup
  obtain ⟨_, _, hprogress, hafter⟩ := after_poll hdropped hup
  have hjournal : (h.after (.poll w)).journal = (h.query.poll w h.journal).2.2 := by rw [hafter]
  have hstages : (h.after (.poll w)).stages = some (p.poll w.reads).2 := by rw [hafter]
  have hkept : (h.after (.poll w)).dropped = false := by rw [hafter, hdropped]
  have hanswers : (h.after (.poll w)).answers = h.answers ++ [(p.poll w.reads).1] := by rw [hafter]
  obtain ⟨hdocuments, hfaults, _, _, hover⟩ := answer_open hopen hanswers
  obtain ⟨hnone, hnofaults⟩ := (h.after (.poll w)).routed_eq_zero
  have hle := hprogress.source.dropped
  rw [hjournal, Query.counters_poll hup, (hr.chosen ht hdropped hup).2, counted, hstages, isClosed,
    hover, hkept, hfaults, hdocuments, ht.returned]
  simp only [hnone, hnofaults, Nat.zero_add, Option.elim_some, Nat.add_sub_cancel' hle,
    Bool.or_false]
  -- The poll that closes a query hands out no document, so those counted at the
  -- close are those handed out before it.
  have hlast : documentsOf (p.poll w.reads).1.item?.toList = [] ∨
      ((p.poll w.reads).1.fault?.isSome || (p.poll w.reads).1.isEnded) = false := by
    rcases (p.poll w.reads).1 with (fault | document) | _ | _ <;> simp [documentsOf, Polled.item?,
      Polled.fault?, Polled.isEnded, Except.toOption]
  rcases hlast with hnothing | hgoes
  · simp [hnothing]
  · simp [hgoes]

theorem Recorded.poll_live (hr : h.Recorded) (ht : h.Told filter options id now)
    (hdropped : h.dropped = false) {w : World} {p : Pipeline}
    (hup : w.setting.upcoming h.query = some p) : (h.after (.poll w)).Recorded := by
  refine ⟨?_, hr.log_poll ht hdropped hup, hr.counters_poll ht hdropped hup⟩
  obtain ⟨taken, _, hprogress, hafter⟩ := after_poll hdropped hup
  rw [hafter, lookups_poll hup, hprogress.source.started, Reads.map_id_lookup, List.drop_left,
    hr.lookups, List.map_append, Reads.map_id_lookup]

/-- Once a query is over, its journal tells of every history that has handed out
the same. -/
theorem Recorded.of_over (hr : h.Recorded) (hover : h.isOver = true) {h' : History}
    (hover' : h'.isOver = true) (hquery : h'.query = h.query) (hjournal : h'.journal = h.journal)
    (hfirst : h'.first = h.first) (hstages : h'.stages = h.stages)
    (hlookups : h'.lookups = h.lookups) (hitems : handedOut h'.answers = handedOut h.answers) :
    h'.Recorded := by
  have hroute : h'.route? = h.route? := by rw [route?, route?, hfirst, hquery]
  have hfault : h'.fault? = h.fault? := by rw [fault?, fault?, hitems]
  have hdocuments : h'.documents = h.documents := by rw [documents, documents, hitems]
  obtain ⟨elapsed, hlog⟩ := hr.log
  refine ⟨by rw [hjournal, hlookups, hr.lookups], ⟨elapsed, ?_⟩, ?_⟩
  · have hclosing : h'.closing elapsed = h.closing elapsed := by
      rw [closing, closing, hfault, hquery, hdocuments]
      cases hnone : h.fault? with
      | some fault => rfl
      | none =>
          have hended : h.answers.any Polled.isEnded = true := by simpa [isOver, hnone] using hover
          have hended' : h'.answers.any Polled.isEnded = true := by
            simpa [isOver, hfault, hnone] using hover'
          simp [hended, hended']
    rw [hjournal, hquery, hroute, hclosing, hlog]
  · rw [hjournal, hr.counters, counted, counted, routed, routed, hroute, hstages, isClosed, isClosed,
      hover, hover', hdocuments, hitems]
    rfl

theorem Recorded.poll_over (hr : h.Recorded) (ht : h.Told filter options id now)
    (hdropped : h.dropped = false) (hover : h.query.stage = .over) (w : World) :
    (h.after (.poll w)).Recorded := by
  rw [ht.after_poll_over hdropped hover w]
  refine hr.of_over (ht.finished hover) ?_ rfl rfl rfl rfl rfl ?_
  · simp [isOver, Polled.isEnded]
  · simp [handedOut_append, Polled.item?]

theorem Recorded.release (hr : h.Recorded) (hdropped : h.dropped = false) (key : String) :
    (h.after (.release key)).Recorded := by
  have hsame : ∀ p : Pipeline, (p.releaseHeld key).source.dropped = p.source.dropped := by
    intro p
    cases hsource : p.source <;>
      simp [Pipeline.releaseHeld, hsource, Source.release, Source.dropped, Resolution.release]
  have hstages : (h.stages.map (·.releaseHeld key)).elim 0 (·.source.dropped) =
      h.stages.elim 0 (·.source.dropped) := by
    cases h.stages with
    | none => rfl
    | some p => exact hsame p
  rw [after_release hdropped, releaseHeld_eq]
  refine ⟨hr.lookups, hr.log, ?_⟩
  rw [counted, hstages]
  exact hr.counters

theorem Recorded.drop (hr : h.Recorded) (ht : h.Told filter options id now)
    (hdropped : h.dropped = false) : (h.after .drop).Recorded := by
  rw [after_drop hdropped]
  by_cases hstage : h.query.stage = .over
  · have hjournal : h.query.drop h.journal = h.journal := by simp [Query.drop, hstage]
    exact hr.of_over (ht.finished hstage) (ht.finished hstage) rfl hjournal rfl rfl rfl rfl
  · have hopen := ht.isOver_eq_false hstage
    have hjournal : h.query.drop h.journal =
        (h.journal.returned h.query.returned).note h.query.span.abandoned := by
      unfold Query.drop
      split
      · next hover => exact absurd hover hstage
      · rfl
    have hclosed : h.isClosed = false := by simp [isClosed, hopen, hdropped]
    obtain ⟨elapsed, hlog⟩ := hr.log
    have hcounters := hr.counters
    rw [hjournal]
    refine ⟨hr.lookups, ⟨elapsed, ?_⟩, ?_⟩
    · have hnone : h.fault? = none ∧ h.answers.any Polled.isEnded = false := by
        simpa [isOver] using hopen
      have hbefore : h.closing elapsed = [] := by simp [closing, hnone, hdropped]
      have hafter : ∀ j, History.closing { h with dropped := true, journal := j } elapsed =
          [h.query.span.abandoned] := by
        intro j
        rw [ht.span]
        have hfault : History.fault? { h with dropped := true, journal := j } = none := hnone.1
        simp [closing, hfault, hnone.2, Span.abandoned]
      rw [hbefore, List.append_nil] at hlog
      simp only [hafter, Journal.note, Journal.returned, Journal.count, hlog]
      rfl
    · have hbefore : h.counted.documentsReturned = 0 := by simp [counted, hclosed]
      have hafter : ∀ j, History.isClosed { h with dropped := true, journal := j } = true := by
        simp [isClosed]
      rw [counted, hafter]
      simp only [Journal.note, Journal.returned, Journal.count, hcounters, ht.returned, hbefore,
        Nat.zero_add]
      rfl

/-- **The step lemma.**  Whatever happens, the journal tells the history. -/
theorem Recorded.after (hr : h.Recorded) (ht : h.Told filter options id now)
    (happening : Happening) : (h.after happening).Recorded := by
  cases hdropped : h.dropped with
  | true =>
      rwa [after_of_dropped hdropped]
  | false =>
      cases happening with
      | poll w =>
          cases hup : w.setting.upcoming h.query with
          | some p => exact hr.poll_live ht hdropped hup
          | none => exact hr.poll_over ht hdropped (stage_of_upcoming hup) w
      | release key => exact hr.release hdropped key
      | drop => exact hr.drop ht hdropped

/-- A query that was created has recorded that it begins. -/
theorem recorded_begin (filter : Filter) (options : Options) (id : String) (now : Nat) :
    (begin filter options id now).Recorded :=
  ⟨rfl, ⟨0, rfl⟩, rfl⟩

/-- **The run lemma.**  Every journal tells its history. -/
theorem recorded_run (filter : Filter) (options : Options) (id : String) (now : Nat)
    (happenings : List Happening) : (run filter options id now happenings).Recorded := by
  induction happenings using List.reverseRecOn with
  | nil => exact recorded_begin filter options id now
  | append_singleton happenings happening ih =>
      rw [run_concat]
      exact ih.after (told_run filter options id now happenings) happening

/-- The scope of a query is closed by one event, and only when the query is. -/
theorem length_closing (h : History) (elapsed : Nat) :
    (h.closing elapsed).length = if h.isClosed then 1 else 0 := by
  unfold closing isClosed isOver
  cases h.fault? with
  | some fault => rfl
  | none => cases h.answers.any Polled.isEnded <;> cases h.dropped <;> rfl

/-- **The shape and the scope of every query.**  Whatever a query finds around it
at its polls, and whether it is polled to its end or dropped before, it hands
out documents and then at most one fault.  After a fault, the end or the drop
nothing is handed out and no lookup is started any more.  And its log is one
event that begins its scope, the route once there is a plan, and exactly one
event that closes the scope as soon as it is closed: as failed if a fault was
handed out, as complete if the end came without one, with the number of the
documents, and as incomplete if the query was dropped before. -/
theorem scope_closes_once (filter : Filter) (options : Options) (id : String) (now : Nat)
    (happenings : List Happening) :
    let h := run filter options id now happenings
    (h.query.filter = filter ∧ h.query.options = options ∧ h.query.id = id) ∧
      handedOut h.answers = h.documents.map .ok ++ (h.fault?.map .error).toList ∧
      (h.isClosed = true → ∀ more, let h' := run filter options id now (happenings ++ more)
        handedOut h'.answers = handedOut h.answers ∧ h'.journal.lookups = h.journal.lookups) ∧
      ∃ elapsed, h.journal.events.filter (Severity.trace.admits ·.severity) =
          ⟨.info, "QUERY_BEGIN", [("query_id", id)]⟩ ::
            ((h.route?.map (Event.queryRoute · id)).toList ++ h.closing elapsed) ∧
        (h.closing elapsed).length = if h.isClosed then 1 else 0 := by
  intro h
  have ht := told_run filter options id now happenings
  have hr := recorded_run filter options id now happenings
  refine ⟨?_, ht.shape, fun hclosed more => (silent_run hclosed more).2, ?_⟩
  · rw [ht.query]
    exact ⟨rfl, rfl, rfl⟩
  · obtain ⟨elapsed, hlog⟩ := hr.log
    refine ⟨elapsed, ?_, h.length_closing elapsed⟩
    have hid : h.query.id = id := by rw [ht.query]
    have hall : ∀ e ∈ h.journal.events, Severity.trace.admits e.severity = true := by
      simp [Severity.admits, Severity.rank]
    rw [List.filter_eq_self.mpr hall, hlog, hid]

end Steps

end History

end Query

end DocQuery
