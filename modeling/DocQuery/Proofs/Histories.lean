import DocQuery.Proofs.Flow
import DocQuery.Proofs.Resolving
import Mathlib.Data.List.Induction

/-!
# Queries from their creation to their close

A query is polled, lookups that were found to be held may go on, and at some
point the query may be dropped.  The index and the store may be something else
at every poll, and reads may meet faults.  `Query.History` records what a query
found at its first poll, which lookups it started, what it answered, and what
it wrote into a journal of its own.

* `Told.after` — the step lemma: the answers are documents and then at most one
  fault, and they flow from the stages that the first poll set up;
* `told_run` — the run lemma: this holds of every history;
* `silent_run` — a query that is closed hands out nothing and looks nothing up
  any more.
-/

namespace DocQuery

/-- What a query works on while a world stays as it is. -/
def World.setting (w : World) : Setting := ⟨w.index, w.store, w.window⟩

/-- The route of a query that is first polled in a world, if a plan is found. -/
def World.route? (w : World) (filter : Filter) (options : Options) : Option Route :=
  match (Plan.choose w.index w.store filter options).outcome with
  | .ok plan => some plan.route
  | .error _ => none

/-- Whether an answer is the end. -/
def Polled.isEnded {α : Type} : Polled α → Bool
  | .ended => true
  | .item _ | .pending => false

namespace Query

/-- What may happen to a query after its creation. -/
inductive Happening where
  /-- the query is polled, and finds some world around it -/
  | poll (w : World)
  /-- lookups of an id that were found to be held may go on -/
  | release (id : String)
  /-- the query is dropped -/
  | drop

/-- A query and what it has done. -/
structure History where
  query : Query
  dropped : Bool
  /-- what the query has recorded -/
  journal : Journal
  /-- the world of the first poll -/
  first : Option World
  /-- the stages as the last poll left them -/
  stages : Option Pipeline
  /-- the lookups started, with what they found -/
  lookups : List Lookup
  /-- the answers to the polls -/
  answers : List (Polled (Except Fault Document))

/-- A journal once the query has a plan. -/
def chosen (q : Query) (w : World) (j : Journal) : Journal :=
  match q.stage with
  | .unpolled => (q.prepare w j).2
  | .running _ | .over => j

/-- A poll of a query that is not over polls its stages. -/
theorem poll_eq_advance {q : Query} {w : World} {p : Pipeline}
    (hq : w.setting.upcoming q = some p) (j : Journal) :
    q.poll w j = q.advance p w (q.chosen w j) := by
  unfold Setting.upcoming at hq
  unfold poll chosen
  cases hstage : q.stage with
  | unpolled =>
      simp only [hstage, Option.some.injEq] at hq
      have hprepared : (q.prepare w j).1 = p := by
        rw [← hq]
        simp only [prepare, Setting.pipeline, World.setting]
        cases (Plan.choose w.index w.store q.filter q.options).outcome <;> rfl
      rw [← hprepared]
  | running p₀ =>
      simp only [hstage, Option.some.injEq] at hq
      rw [hq]
  | _ => simp [hstage] at hq

/-- Choosing a plan looks nothing up. -/
theorem lookups_chosen (q : Query) (w : World) (j : Journal) :
    (q.chosen w j).lookups = j.lookups := by
  cases hstage : q.stage with
  | unpolled =>
      simp only [chosen, hstage, prepare]
      cases (Plan.choose w.index w.store q.filter q.options).outcome <;> rfl
  | _ => simp only [chosen, hstage]

/-- A poll records the lookups that the stages have started. -/
theorem lookups_poll {q : Query} {w : World} {p : Pipeline} (hq : w.setting.upcoming q = some p)
    (j : Journal) : (q.poll w j).2.2.lookups =
      j.lookups ++ (p.poll w.reads).2.source.started.drop p.source.started.length := by
  rw [poll_eq_advance hq, ← lookups_chosen q w j]
  simp only [advance]
  rcases p.poll w.reads with ⟨(fault | document) | _ | _, p'⟩ <;> rfl

/-- A poll leaves a query that goes on with its stages, or is over. -/
theorem query_poll {q : Query} {w : World} {p : Pipeline} (hq : w.setting.upcoming q = some p)
    (j : Journal) : (q.poll w j).2.1 =
      match p.poll w.reads with
      | (.pending, p') => { q with stage := .running p' }
      | (.item (.ok _), p') => { q with stage := .running p', returned := q.returned + 1 }
      | (.item (.error _), _) | (.ended, _) => { q with stage := .over } := by
  rw [poll_eq_advance hq]
  simp only [advance]
  rcases p.poll w.reads with ⟨(fault | document) | _ | _, p'⟩ <;> rfl

/-- A query that has nothing to poll is over. -/
theorem stage_of_upcoming {s : Setting} {q : Query} (hq : s.upcoming q = none) :
    q.stage = .over := by
  unfold Setting.upcoming at hq
  cases hstage : q.stage with
  | unpolled | running p => simp [hstage] at hq
  | _ => rfl

/-- Releasing lookups changes the stages only. -/
theorem releaseHeld_eq (q : Query) (id : String) :
    q.releaseHeld id = { q with stage :=
      match q.stage with
      | .running p => .running (p.releaseHeld id)
      | .unpolled => .unpolled
      | .over => .over } := by
  obtain ⟨filter, options, id, span, stage, returned⟩ := q
  cases stage <;> rfl

namespace History

/-- A new query. -/
def begin (filter : Filter) (options : Options) (id : String) (now : Nat) : History :=
  let (q, j) := Query.create filter options id now .blank
  ⟨q, false, j, none, none, [], []⟩

/-- What a journal is when something happens to the query. -/
def record (h : History) (happening : Happening) (j : Journal) : Journal :=
  match h.dropped, happening with
  | false, .poll w => (h.query.poll w j).2.2
  | false, .drop => h.query.drop j
  | false, .release _ | true, _ => j

/-- Something happens, unless the query was dropped. -/
def after (h : History) (happening : Happening) : History :=
  match h.dropped, happening with
  | false, .poll w =>
    { h with
      query := (h.query.poll w h.journal).2.1
      journal := h.record happening h.journal
      first := h.first.or (some w)
      stages := ((w.setting.upcoming h.query).map fun p => (p.poll w.reads).2).or h.stages
      lookups := h.lookups ++
        ((h.record happening h.journal).lookups.drop h.journal.lookups.length).map w.reads.lookup
      answers := h.answers ++ [(h.query.poll w h.journal).1] }
  | false, .release id =>
    { h with
      query := h.query.releaseHeld id
      stages := h.stages.map (·.releaseHeld id) }
  | false, .drop => { h with dropped := true, journal := h.record happening h.journal }
  | true, _ => h

/-- What has happened after a list of happenings. -/
def run (filter : Filter) (options : Options) (id : String) (now : Nat)
    (happenings : List Happening) : History :=
  happenings.foldl after (begin filter options id now)

/-- The documents handed out, in order. -/
def documents (h : History) : List Document := documentsOf (handedOut h.answers)

/-- The fault handed out, if there is one. -/
def fault? (h : History) : Option Fault := (faultsOf (handedOut h.answers)).head?

/-- Whether a poll has answered a fault or the end. -/
def isOver (h : History) : Bool := h.fault?.isSome || h.answers.any Polled.isEnded

/-- Whether the query is over or was dropped. -/
def isClosed (h : History) : Bool := h.isOver || h.dropped

/-- The route that the first poll chose, if it found a plan. -/
def route? (h : History) : Option Route :=
  h.first.bind (·.route? h.query.filter h.query.options)

/-- A history that holds together: the answers are documents and then at most
one fault, nothing follows the end, and what was handed out flowed out of the
stages that the first poll set up. -/
structure Told (filter : Filter) (options : Options) (id : String) (now : Nat) (h : History) :
    Prop where
  query : h.query = ⟨filter, options, id, ⟨"QUERY", [("query_id", id)], now⟩, h.query.stage,
    h.documents.length⟩
  shape : handedOut h.answers = h.documents.map .ok ++ (h.fault?.map .error).toList
  fresh : h.query.stage = .unpolled →
    h.first = none ∧ h.stages = none ∧ h.lookups = [] ∧ h.answers = []
  begun : h.query.stage ≠ .unpolled → ∃ w p came, h.first = some w ∧ h.stages = some p ∧
    (w.setting.pipeline filter options).Progress p h.lookups came (handedOut h.answers)
  running : ∀ p, h.query.stage = .running p → h.stages = some p ∧ h.isOver = false
  finished : h.query.stage = .over → h.isOver = true

section Steps

variable {filter : Filter} {options : Options} {id : String} {now : Nat} {h : History}

/-- Nothing happens to a query that was dropped. -/
theorem after_of_dropped (hdropped : h.dropped = true) (happening : Happening) :
    h.after happening = h := by
  unfold after
  simp [hdropped]

/-- Releasing lookups changes the query and its stages. -/
theorem after_release (hdropped : h.dropped = false) (key : String) :
    h.after (.release key) =
      { h with query := h.query.releaseHeld key, stages := h.stages.map (·.releaseHeld key) } := by
  simp [after, hdropped]

/-- Dropping a query changes its journal. -/
theorem after_drop (hdropped : h.dropped = false) :
    h.after .drop = { h with dropped := true, journal := h.query.drop h.journal } := by
  simp [after, record, hdropped]

/-- The span of a query has its id. -/
theorem Told.span (ht : h.Told filter options id now) :
    h.query.span = ⟨"QUERY", [("query_id", h.query.id)], now⟩ := by
  rw [ht.query]

/-- A query knows how many documents it has handed out. -/
theorem Told.returned (ht : h.Told filter options id now) :
    h.query.returned = h.documents.length := by
  rw [ht.query]

/-- A query whose stages go on has met no fault and not ended. -/
theorem Told.isOver_eq_false (ht : h.Told filter options id now) (hstage : h.query.stage ≠ .over) :
    h.isOver = false := by
  cases hstage' : h.query.stage with
  | unpolled =>
      obtain ⟨_, _, _, hanswers⟩ := ht.fresh hstage'
      simp [isOver, fault?, hanswers, handedOut, faultsOf]
  | running p => exact (ht.running p hstage').2
  | _ => exact absurd hstage' hstage

/-- A query that is not over will poll stages that have let through what it
handed out. -/
theorem Told.live (ht : h.Told filter options id now) {w : World} {p : Pipeline}
    (hup : w.setting.upcoming h.query = some p) :
    h.isOver = false ∧ ∃ w₀ came, h.first.or (some w) = some w₀ ∧
      (w₀.setting.pipeline filter options).Progress p h.lookups came (handedOut h.answers) := by
  unfold Setting.upcoming at hup
  refine ⟨ht.isOver_eq_false (by intro hover; simp [hover] at hup), ?_⟩
  cases hstage : h.query.stage with
  | unpolled =>
      obtain ⟨hfirst, _, hlookups, hanswers⟩ := ht.fresh hstage
      have hp : w.setting.pipeline filter options = p := by
        simp only [hstage, Option.some.injEq] at hup
        rw [← hup, ht.query]
      refine ⟨w, [], by simp [hfirst], ?_⟩
      rw [hlookups, hanswers, hp]
      exact Pipeline.Progress.refl p
  | running p₀ =>
      simp only [hstage, Option.some.injEq] at hup
      subst hup
      obtain ⟨w₀, p₁, came, hfirst, hstages, hflow⟩ := ht.begun (by simp [hstage])
      obtain rfl : p₀ = p₁ := by simpa [hstages, eq_comm] using (ht.running p₀ hstage).1
      exact ⟨w₀, came, by simp [hfirst], hflow⟩
  | _ => simp [hstage] at hup

/-- A poll that is made of the stages. -/
theorem after_poll (hdropped : h.dropped = false) {w : World} {p : Pipeline}
    (hup : w.setting.upcoming h.query = some p) :
    ∃ (taken : List String) (came : _),
      p.Progress (p.poll w.reads).2 (taken.map w.reads.lookup) came
        (p.poll w.reads).1.item?.toList ∧
      h.after (.poll w) =
        { h with
          query := (h.query.poll w h.journal).2.1
          journal := (h.query.poll w h.journal).2.2
          first := h.first.or (some w)
          stages := some (p.poll w.reads).2
          lookups := h.lookups ++ taken.map w.reads.lookup
          answers := h.answers ++ [(p.poll w.reads).1] } := by
  obtain ⟨taken, came, hprogress⟩ := p.poll_progress w.reads
  refine ⟨taken, came, hprogress, ?_⟩
  have hnew := lookups_poll hup h.journal
  rw [hprogress.source.started, Reads.map_id_lookup, List.drop_left] at hnew
  have hanswer : (h.query.poll w h.journal).1 = (p.poll w.reads).1 :=
    (Setting.poll_upcoming hup w.held w.now h.journal).1
  simp [after, record, hdropped, hup, hnew, hanswer]

/-- What one more answer changes while the query is not over. -/
theorem answer_open {h' : History} {a : Polled (Except Fault Document)} (hopen : h.isOver = false)
    (hanswers : h'.answers = h.answers ++ [a]) :
    h'.documents = h.documents ++ documentsOf a.item?.toList ∧
      faultsOf (handedOut h'.answers) = a.fault?.toList ∧ h'.fault? = a.fault? ∧
      h'.answers.any Polled.isEnded = a.isEnded ∧
      h'.isOver = (a.fault?.isSome || a.isEnded) := by
  simp only [isOver, fault?, Bool.or_eq_false_iff, Option.isSome_eq_false_iff,
    Option.isNone_iff_eq_none, List.head?_eq_none_iff] at hopen
  have hfaults : faultsOf (handedOut h'.answers) = a.fault?.toList := by
    rw [hanswers, handedOut_append, faultsOf_append, hopen.1]
    rcases a with (fault | document) | _ | _ <;> rfl
  have hfault : h'.fault? = a.fault? := by
    rw [fault?, hfaults]
    cases a.fault? <;> rfl
  have hended : h'.answers.any Polled.isEnded = a.isEnded := by
    rw [hanswers, List.any_append, hopen.2]
    simp
  refine ⟨?_, hfaults, hfault, hended, by rw [isOver, hfault, hended]⟩
  rw [documents, hanswers, handedOut_append, documentsOf_append]
  rfl

theorem Told.poll_live (ht : h.Told filter options id now) (hdropped : h.dropped = false)
    {w : World} {p : Pipeline} (hup : w.setting.upcoming h.query = some p) :
    (h.after (.poll w)).Told filter options id now := by
  obtain ⟨hopen, w₀, came, hfirst, hflow⟩ := ht.live hup
  obtain ⟨taken, came', hprogress, hafter⟩ := after_poll hdropped hup
  have hanswers : (h.after (.poll w)).answers = h.answers ++ [(p.poll w.reads).1] := by rw [hafter]
  have hquery : (h.after (.poll w)).query = (h.query.poll w h.journal).2.1 := by rw [hafter]
  have hstages : (h.after (.poll w)).stages = some (p.poll w.reads).2 := by rw [hafter]
  obtain ⟨hdocuments, _, hfault, _, hover⟩ := answer_open hopen hanswers
  rw [query_poll hup] at hquery
  refine ⟨?_, ?_, ?_, fun _ => ?_, ?_, ?_⟩
  · rw [hquery, hdocuments, ht.query]
    rcases p.poll w.reads with ⟨(fault | document) | _ | _, p'⟩ <;>
      simp [documentsOf, Polled.item?, Except.toOption]
  · have hshape : handedOut h.answers = h.documents.map .ok := by
      have hnone : h.fault? = none := by
        simp only [isOver, Bool.or_eq_false_iff] at hopen
        simpa using hopen.1
      simpa [hnone] using ht.shape
    rw [hdocuments, hfault, hanswers, handedOut_append, hshape, List.map_append, List.append_assoc,
      ← item?_toList_eq]
  · rw [hquery]
    rcases p.poll w.reads with ⟨(fault | document) | _ | _, p'⟩ <;> simp
  · rw [hanswers, handedOut_append, hafter]
    exact ⟨w₀, _, _, hfirst, rfl, hflow.trans hprogress⟩
  · rw [hquery, hstages, hover]
    rcases p.poll w.reads with ⟨(fault | document) | _ | _, p'⟩ <;>
      simp [Polled.fault?, Polled.isEnded]
  · rw [hquery, hover]
    rcases p.poll w.reads with ⟨(fault | document) | _ | _, p'⟩ <;>
      simp [Polled.fault?, Polled.isEnded]

/-- A poll of a query that is over answers the end, and nothing else happens. -/
theorem Told.after_poll_over (ht : h.Told filter options id now) (hdropped : h.dropped = false)
    (hover : h.query.stage = .over) (w : World) :
    h.after (.poll w) = { h with answers := h.answers ++ [.ended] } := by
  obtain ⟨w₀, _, _, hfirst, _⟩ := ht.begun (by simp [hover])
  have hup : w.setting.upcoming h.query = none := by simp [Setting.upcoming, hover]
  simp [after, record, hdropped, hup, Setting.poll_over hup, hfirst]

theorem Told.poll_over (ht : h.Told filter options id now) (hdropped : h.dropped = false)
    (hover : h.query.stage = .over) (w : World) :
    (h.after (.poll w)).Told filter options id now := by
  have hitems : handedOut (h.answers ++ [.ended]) = handedOut h.answers := by
    simp [handedOut_append, Polled.item?]
  rw [ht.after_poll_over hdropped hover w]
  refine ⟨?_, ?_, ?_, ?_, ?_, ?_⟩
  · rw [documents, hitems]
    exact ht.query
  · rw [documents, fault?, hitems]
    exact ht.shape
  · simp [hover]
  · rw [hitems]
    exact ht.begun
  · simp [hover]
  · simp [isOver, Polled.isEnded]

theorem Told.release (ht : h.Told filter options id now) (hdropped : h.dropped = false)
    (key : String) : (h.after (.release key)).Told filter options id now := by
  rw [after_release hdropped]
  refine ⟨?_, ht.shape, ?_, ?_, ?_, ?_⟩
  · show h.query.releaseHeld key = _
    rw [releaseHeld_eq, ht.query]
    rfl
  · rw [releaseHeld_eq]
    cases hstage : h.query.stage with
    | unpolled => simpa using ht.fresh hstage
    | _ => simp
  · rw [releaseHeld_eq]
    intro hstage
    have hbegun : h.query.stage ≠ .unpolled := by
      intro hunpolled
      simp [hunpolled] at hstage
    obtain ⟨w, p, came, hfirst, hstages, hflow⟩ := ht.begun hbegun
    refine ⟨w, p.releaseHeld key, came, hfirst, by simp [hstages], ?_⟩
    simpa using hflow.trans (p.releaseHeld_progress key)
  · rw [releaseHeld_eq]
    cases hstage : h.query.stage with
    | running p =>
        rintro p₁ hp₁
        obtain ⟨hstages, hopen⟩ := ht.running p hstage
        simp only [Stage.running.injEq] at hp₁
        exact ⟨by simp [hstages, hp₁], hopen⟩
    | _ => simp
  · rw [releaseHeld_eq]
    cases hstage : h.query.stage with
    | unpolled | running p => simp
    | _ => exact fun _ => ht.finished hstage

/-- **The step lemma.**  Whatever happens, a history holds together. -/
theorem Told.after (ht : h.Told filter options id now) (happening : Happening) :
    (h.after happening).Told filter options id now := by
  cases hdropped : h.dropped with
  | true =>
      rwa [after_of_dropped hdropped]
  | false =>
      cases happening with
      | poll w =>
          cases hup : w.setting.upcoming h.query with
          | some p => exact ht.poll_live hdropped hup
          | none => exact ht.poll_over hdropped (stage_of_upcoming hup) w
      | release key => exact ht.release hdropped key
      | drop =>
          rw [after_drop hdropped]
          exact ⟨ht.query, ht.shape, ht.fresh, ht.begun, ht.running, ht.finished⟩

/-- A new history holds together. -/
theorem told_begin (filter : Filter) (options : Options) (id : String) (now : Nat) :
    (begin filter options id now).Told filter options id now where
  query := rfl
  shape := rfl
  fresh _ := ⟨rfl, rfl, rfl, rfl⟩
  begun hstage := absurd rfl hstage
  running := nofun
  finished := nofun

/-- What happens last happens to what came before. -/
theorem run_concat (happenings : List Happening) (happening : Happening) :
    run filter options id now (happenings ++ [happening]) =
      (run filter options id now happenings).after happening := by
  simp [run]

/-- **The run lemma.**  Every history holds together. -/
theorem told_run (filter : Filter) (options : Options) (id : String) (now : Nat)
    (happenings : List Happening) :
    (run filter options id now happenings).Told filter options id now := by
  induction happenings using List.reverseRecOn with
  | nil => exact told_begin filter options id now
  | append_singleton happenings happening ih =>
      rw [run_concat]
      exact ih.after happening

/-- Once a query is closed, it stays closed, and hands out nothing and looks
nothing up any more. -/
theorem Told.silent (ht : h.Told filter options id now) (hclosed : h.isClosed = true)
    (happening : Happening) :
    (h.after happening).isClosed = true ∧
      handedOut (h.after happening).answers = handedOut h.answers ∧
      (h.after happening).journal.lookups = h.journal.lookups := by
  cases hdropped : h.dropped with
  | true =>
      rw [after_of_dropped hdropped]
      exact ⟨hclosed, rfl, rfl⟩
  | false =>
      have hover : h.query.stage = .over := by
        by_contra hstage
        simp [isClosed, ht.isOver_eq_false hstage, hdropped] at hclosed
      cases happening with
      | poll w =>
          rw [ht.after_poll_over hdropped hover w]
          refine ⟨by simp [isClosed, isOver, Polled.isEnded], ?_, rfl⟩
          simp [handedOut_append, Polled.item?]
      | release key =>
          rw [after_release hdropped]
          exact ⟨hclosed, rfl, rfl⟩
      | drop =>
          have hjournal : h.query.drop h.journal = h.journal := by simp [Query.drop, hover]
          rw [after_drop hdropped, hjournal]
          exact ⟨by simp [isClosed], rfl, rfl⟩

/-- A query that is closed stays as silent as it is, however long the run. -/
theorem silent_run {happenings : List Happening}
    (hclosed : (run filter options id now happenings).isClosed = true) (more : List Happening) :
    let h := run filter options id now happenings
    let h' := run filter options id now (happenings ++ more)
    h'.isClosed = true ∧ handedOut h'.answers = handedOut h.answers ∧
      h'.journal.lookups = h.journal.lookups := by
  induction more using List.reverseRecOn with
  | nil => simpa using hclosed
  | append_singleton more happening ih =>
      obtain ⟨hclosed', hitems, hlookups⟩ := ih
      have ht := told_run filter options id now (happenings ++ more)
      obtain ⟨hstill, hitems', hlookups'⟩ := ht.silent hclosed' happening
      rw [← List.append_assoc, run_concat]
      exact ⟨hstill, hitems'.trans hitems, hlookups'.trans hlookups⟩

end Steps

end History

end Query

end DocQuery
