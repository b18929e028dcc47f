import DocQuery.Proofs.Recording
import Mathlib

/-!
# What the counters of an engine account for

An engine runs any number of queries, which share one journal: they are created
and polled in any order, and lookups are released, queries dropped and other
queries explained in between.  What a query adds to the counters depends on
its own history only, whatever was recorded before; so the counters of the
engine are the sum of what its queries have counted.

* `Engine.after_poll` — a query answers the same whatever was recorded before;
* `record_counters` — whatever happens to a query adds the same to any journal;
* `balanced_run` — the run lemma: the counters are the sum over all queries;
* `counters_account` — what each counter says about all the queries.
-/

namespace DocQuery

namespace Counters

instance : Zero Counters := ⟨.zero⟩

instance : Add Counters where
  add a b :=
    { queriesExecuted := a.queriesExecuted + b.queriesExecuted
      indexPaths := a.indexPaths + b.indexPaths
      fullScans := a.fullScans + b.fullScans
      probeHits := a.probeHits + b.probeHits
      probeFallbacks := a.probeFallbacks + b.probeFallbacks
      lookupsDropped := a.lookupsDropped + b.lookupsDropped
      documentsReturned := a.documentsReturned + b.documentsReturned
      storeFaults := a.storeFaults + b.storeFaults }

theorem add_def (a b : Counters) : a + b =
    ⟨a.queriesExecuted + b.queriesExecuted, a.indexPaths + b.indexPaths,
      a.fullScans + b.fullScans, a.probeHits + b.probeHits, a.probeFallbacks + b.probeFallbacks,
      a.lookupsDropped + b.lookupsDropped, a.documentsReturned + b.documentsReturned,
      a.storeFaults + b.storeFaults⟩ := rfl

instance : AddCommMonoid Counters where
  add_assoc a b c := by simp [add_def, Nat.add_assoc]
  zero_add a := by
    rw [add_def]
    simp only [show (0 : Counters) = .zero from rfl, zero, Nat.zero_add]
  add_zero a := rfl
  add_comm a b := by simp [add_def, Nat.add_comm]
  nsmul := nsmulRec

/-- Every counter of a sum is the sum of the counters. -/
theorem sum_eq (all : List Counters) : all.sum =
    ⟨(all.map queriesExecuted).sum, (all.map indexPaths).sum, (all.map fullScans).sum,
      (all.map probeHits).sum, (all.map probeFallbacks).sum, (all.map lookupsDropped).sum,
      (all.map documentsReturned).sum, (all.map storeFaults).sum⟩ := by
  induction all with
  | nil => rfl
  | cons c rest ih => simp only [List.sum_cons, List.map_cons, ih, add_def]

/-- Counting a route adds the same to all counters. -/
theorem took_eq_add (c : Counters) (route : Route) : c.took route = c + zero.took route := by
  cases route <;> rfl

end Counters

/-- Whether a probe was made in vain. -/
def Route.isFallback : Route → Bool
  | .probeFallbackIndex | .probeFallbackScan => true
  | .indexDirect | .fullScan | .probeSatisfied => false

namespace Query

/-- What a query answers, and what becomes of it, does not depend on what was
recorded before. -/
theorem poll_eq_of_journals (q : Query) (w : World) (j j' : Journal) :
    (q.poll w j).1 = (q.poll w j').1 ∧ (q.poll w j).2.1 = (q.poll w j').2.1 := by
  cases hup : w.setting.upcoming q with
  | none => simp [Setting.poll_over hup]
  | some p =>
      have hanswer := fun j => (Setting.poll_upcoming hup w.held w.now j).1
      exact ⟨(hanswer j).trans (hanswer j').symm,
        (query_poll hup j).trans (query_poll hup j').symm⟩

/-- Choosing a plan adds the same to all counters. -/
theorem counters_chosen (q : Query) (w : World) (j : Journal) :
    (q.chosen w j).counters = j.counters + (q.chosen w .blank).counters := by
  cases hstage : q.stage with
  | unpolled =>
      rw [(chosen_unpolled hstage w j).2, (chosen_unpolled hstage w .blank).2]
      cases w.route? q.filter q.options with
      | none => rfl
      | some route => exact j.counters.took_eq_add route
  | _ =>
      simp only [chosen, hstage]
      rfl

namespace History

/-- The lookups that were started and whose results no poll has taken. -/
def outstanding (h : History) : List Lookup := h.stages.elim [] (·.source.outstanding)

/-- Whatever happens to a query adds the same to the counters of any journal. -/
theorem record_counters (h : History) (happening : Happening) (j : Journal) :
    (h.record happening j).counters = j.counters + (h.record happening .blank).counters := by
  cases hdropped : h.dropped with
  | true =>
      simp only [record, hdropped]
      rfl
  | false =>
      cases happening with
      | poll w =>
          simp only [record, hdropped]
          cases hup : w.setting.upcoming h.query with
          | none =>
              simp only [Setting.poll_over hup]
              rfl
          | some p =>
              rw [counters_poll hup, counters_poll hup, h.query.counters_chosen w j]
              simp only [Counters.add_def, Nat.add_assoc]
      | release key =>
          simp only [record, hdropped]
          rfl
      | drop =>
          simp only [record, hdropped, Query.drop]
          cases h.query.stage with
          | unpolled | running p =>
              simp [Journal.note, Journal.returned, Journal.count, Counters.add_def, Journal.blank,
                Counters.zero]
          | _ => rfl

/-- What happens to a query is recorded in its own journal. -/
theorem after_journal (h : History) (happening : Happening) :
    (h.after happening).journal = h.record happening h.journal := by
  cases hdropped : h.dropped with
  | true => simp [after_of_dropped hdropped, record, hdropped]
  | false => cases happening <;> simp [after, record, hdropped]

variable {filter : Filter} {options : Options} {id : String} {now : Nat} {h : History}

/-- The lookups that found nothing are counted or outstanding. -/
theorem Told.missing (ht : h.Told filter options id now) :
    h.counted.lookupsDropped + h.outstanding.countP Lookup.isMissing =
      h.lookups.countP Lookup.isMissing := by
  by_cases hstage : h.query.stage = .unpolled
  · obtain ⟨_, hstages, hlookups, _⟩ := ht.fresh hstage
    simp [counted, outstanding, hstages, hlookups]
  · obtain ⟨w, p, came, _, hstages, hflow⟩ := ht.begun hstage
    obtain ⟨_, houtstanding, hdropped⟩ := w.setting.pipeline_idle filter options
    have hmissing := hflow.source.missing
    rw [houtstanding, hdropped, Nat.zero_add, List.nil_append] at hmissing
    simp [counted, outstanding, hstages, hmissing]

/-- A query is counted by its route. -/
theorem counted_route (h : History) :
    h.counted.indexPaths + h.counted.fullScans + h.counted.probeHits =
        (if h.route?.isSome then 1 else 0) ∧
      h.counted.probeFallbacks = (if h.route?.any Route.isFallback then 1 else 0) ∧
      h.counted.probeFallbacks ≤ h.counted.indexPaths + h.counted.fullScans := by
  simp only [counted, routed]
  cases h.route? with
  | none => decide
  | some route => cases route <;> decide

end History

end Query

/-! ## The engine -/

/-- What is done with an engine. -/
inductive Deed where
  /-- a query is created -/
  | query (filter : Filter) (options : Options) (id : String) (now : Nat)
  /-- something happens to a query, the first one created being 0 -/
  | happening (k : Nat) (happening : Query.Happening)
  /-- a query is explained in some world -/
  | explain (w : World) (filter : Filter) (options : Options)

/-- Whether a query is created. -/
def Deed.isQuery : Deed → Bool
  | .query _ _ _ _ => true
  | .happening _ _ | .explain _ _ _ => false

/-- The journal of an engine, and the histories of its queries in the order of
their creation. -/
structure Engine where
  journal : Journal
  histories : List Query.History

namespace Engine

/-- Does something with an engine.  What happens to a query that was never
created does nothing. -/
def after (e : Engine) : Deed → Engine
  | .query filter options id now =>
    { journal := (Query.create filter options id now e.journal).2
      histories := e.histories ++ [.begin filter options id now] }
  | .happening k happening =>
    match e.histories[k]? with
    | some h =>
      { journal := h.record happening e.journal
        histories := e.histories.set k (h.after happening) }
    | none => e
  | .explain w filter options =>
    { e with journal := e.journal.asked (Plan.choose w.index w.store filter options).requests }

/-- An engine with which something was done. -/
def run (deeds : List Deed) : Engine := deeds.foldl after ⟨.blank, []⟩

/-- A poll that an engine makes is a poll of the query with the journal that all
queries share: a history, which has a journal of its own, tells the same. -/
theorem after_poll {e : Engine} {k : Nat} {h : Query.History} (hk : e.histories[k]? = some h)
    (hdropped : h.dropped = false) (w : World) :
    let polled := h.query.poll w e.journal
    ∃ h', (e.after (.happening k (.poll w))).histories[k]? = some h' ∧
      (e.after (.happening k (.poll w))).journal = polled.2.2 ∧ h'.query = polled.2.1 ∧
      h'.answers = h.answers ++ [polled.1] ∧ h'.dropped = false := by
  intro polled
  obtain ⟨hlt, hget⟩ := List.getElem?_eq_some_iff.mp hk
  obtain ⟨hanswer, hquery⟩ := h.query.poll_eq_of_journals w h.journal e.journal
  refine ⟨h.after (.poll w), ?_, ?_, ?_, ?_, ?_⟩
  · simp [after, hlt, hget]
  · simp [after, hk, Query.History.record, hdropped, polled]
  · simp [Query.History.after, hdropped, hquery, polled]
  · simp [Query.History.after, hdropped, hanswer, polled]
  · simp [Query.History.after, hdropped]

/-- A history that holds together, and that its journal tells. -/
def Kept (h : Query.History) : Prop :=
  ∃ filter options id now, h.Told filter options id now ∧ h.Recorded

/-- An engine that keeps the histories of its queries, and whose counters are the
sum of what they have counted. -/
structure Balanced (e : Engine) : Prop where
  kept : ∀ h ∈ e.histories, Kept h
  counters : e.journal.counters = (e.histories.map (·.journal.counters)).sum

/-- What one query has counted more is what all of them have. -/
theorem sum_set {histories : List Query.History} {k : Nat} {h h' : Query.History} {c : Counters}
    (hk : histories[k]? = some h) (hc : h'.journal.counters = h.journal.counters + c) :
    ((histories.set k h').map (·.journal.counters)).sum =
      (histories.map (·.journal.counters)).sum + c := by
  induction histories generalizing k with
  | nil => simp at hk
  | cons first rest ih =>
      cases k with
      | zero =>
          simp only [List.getElem?_cons_zero, Option.some.injEq] at hk
          subst hk
          simp only [List.set_cons_zero, List.map_cons, List.sum_cons, hc]
          exact add_right_comm _ _ _
      | succ k =>
          simp only [List.getElem?_cons_succ] at hk
          simp only [List.set_cons_succ, List.map_cons, List.sum_cons, ih hk, add_assoc]

/-- A query that is created is one more that is counted. -/
theorem Balanced.query {e : Engine} (he : e.Balanced) (filter : Filter) (options : Options)
    (id : String) (now : Nat) : (e.after (.query filter options id now)).Balanced := by
  have hcreated : (Query.create filter options id now e.journal).2.counters =
      e.journal.counters + (Query.History.begin filter options id now).journal.counters := by
    simp [Query.create, Query.History.begin, Journal.note, Journal.count, Counters.add_def,
      Journal.blank, Counters.zero]
  constructor
  · intro h hh
    rcases List.mem_append.mp hh with hh | hh
    · exact he.kept h hh
    · rw [List.mem_singleton.mp hh]
      exact ⟨filter, options, id, now, Query.History.told_begin filter options id now,
        Query.History.recorded_begin filter options id now⟩
  · simp only [Engine.after, hcreated, he.counters, List.map_append, List.sum_append,
      List.map_cons, List.map_nil, List.sum_cons, List.sum_nil, add_zero]

/-- What happens to a query counts for the engine what it counts for the query. -/
theorem Balanced.happening {e : Engine} (he : e.Balanced) (k : Nat)
    (happening : Query.Happening) : (e.after (.happening k happening)).Balanced := by
  cases hk : e.histories[k]? with
  | none =>
      have hafter : e.after (.happening k happening) = e := by simp [Engine.after, hk]
      rwa [hafter]
  | some h =>
      have hafter : e.after (.happening k happening) =
          ⟨h.record happening e.journal, e.histories.set k (h.after happening)⟩ := by
        simp [Engine.after, hk]
      have hown : (h.after happening).journal.counters =
          h.journal.counters + (h.record happening .blank).counters := by
        rw [h.after_journal, h.record_counters]
      obtain ⟨filter, options, id, now, ht, hr⟩ := he.kept h (List.mem_of_getElem? hk)
      rw [hafter]
      constructor
      · intro h' hh'
        rcases List.mem_or_eq_of_mem_set hh' with hh' | rfl
        · exact he.kept h' hh'
        · exact ⟨filter, options, id, now, ht.after happening, hr.after ht happening⟩
      · rw [sum_set hk hown, ← he.counters]
        exact h.record_counters happening e.journal

/-- **The step lemma.**  Whatever is done, the counters stay the sum. -/
theorem Balanced.after {e : Engine} (he : e.Balanced) (deed : Deed) : (e.after deed).Balanced := by
  cases deed with
  | query filter options id now => exact he.query filter options id now
  | happening k happening => exact he.happening k happening
  | explain w filter options => exact ⟨he.kept, he.counters⟩

/-- **The run lemma.**  Whatever was done with an engine, its counters are the
sum of what its queries have counted. -/
theorem balanced_run (deeds : List Deed) : (run deeds).Balanced := by
  suffices hfold : ∀ e : Engine, e.Balanced → (deeds.foldl Engine.after e).Balanced from
    hfold _ ⟨by simp, rfl⟩
  intro e he
  induction deeds generalizing e with
  | nil => exact he
  | cons deed rest ih => exact ih _ (he.after deed)

/-- The counters of an engine are the sum of what its histories tell. -/
theorem counters_run (deeds : List Deed) :
    (run deeds).journal.counters = ((run deeds).histories.map (·.counted)).sum := by
  have he := balanced_run deeds
  have hcounted : ∀ h ∈ (run deeds).histories, h.journal.counters = h.counted := by
    intro h hh
    obtain ⟨_, _, _, _, _, hr⟩ := he.kept h hh
    exact hr.counters
  rw [← List.map_congr_left hcounted]
  exact he.counters

/-- There are as many histories as queries were created. -/
theorem length_histories (deeds : List Deed) :
    (run deeds).histories.length = deeds.countP Deed.isQuery := by
  suffices hfold : ∀ e : Engine, (deeds.foldl Engine.after e).histories.length =
      e.histories.length + deeds.countP Deed.isQuery by
    simpa [run] using hfold ⟨.blank, []⟩
  intro e
  induction deeds generalizing e with
  | nil => rfl
  | cons deed rest ih =>
      rw [List.foldl_cons, ih]
      cases deed with
      | query filter options id now =>
          rw [List.countP_cons_of_pos rfl, Engine.after, List.length_append, List.length_singleton]
          omega
      | happening k happening =>
          cases hk : e.histories[k]? <;> simp [Engine.after, hk, Deed.isQuery]
      | explain w filter options => simp [Engine.after, Deed.isQuery]

/-- A sum of ones over those that have a property counts them. -/
theorem sum_ones (histories : List Query.History) (p : Query.History → Bool) :
    (histories.map fun h => if p h then 1 else 0).sum = histories.countP p := by
  rw [List.sum_map_ite, List.countP_eq_length_filter]
  simp

/-- **The counters account for every query.**  Whatever was done with an engine,
and in whatever order: `queriesExecuted` is the number of queries created;
`indexPaths`, `fullScans` and `probeHits` add up to the number of those that
were polled and found a plan, and `probeFallbacks` is the number of those whose
probe was made in vain, which are never more than the first two; `storeFaults`
is the number of faults handed out; `documentsReturned` is the number of
documents handed out by queries that ended, met a fault or were dropped; and
`lookupsDropped` is the number of lookups that found nothing, but for those
whose results no poll has taken.  Explaining a query changes no counter. -/
theorem counters_account (deeds : List Deed) :
    let e := run deeds
    let c := e.journal.counters
    c.queriesExecuted = deeds.countP Deed.isQuery ∧
      c.indexPaths + c.fullScans + c.probeHits = e.histories.countP (·.route?.isSome) ∧
      c.probeFallbacks = e.histories.countP (·.route?.any Route.isFallback) ∧
      c.probeFallbacks ≤ c.indexPaths + c.fullScans ∧
      c.storeFaults = (e.histories.map fun h => (faultsOf (handedOut h.answers)).length).sum ∧
      c.documentsReturned =
        (e.histories.map fun h => if h.isClosed then h.documents.length else 0).sum ∧
      c.lookupsDropped + (e.histories.map fun h => h.outstanding.countP Lookup.isMissing).sum =
        (e.histories.map fun h => h.lookups.countP Lookup.isMissing).sum ∧
      ∀ w filter options, (e.after (.explain w filter options)).journal.counters = c := by
  intro e c
  have hc : c = (e.histories.map (·.counted)).sum := counters_run deeds
  rw [Counters.sum_eq] at hc
  simp only [List.map_map, Function.comp_def] at hc
  refine ⟨?_, ?_, ?_, ?_, ?_, ?_, ?_, fun _ _ _ => rfl⟩
  · rw [hc, ← length_histories]
    simp [Query.History.counted, e]
  · rw [hc, ← List.sum_map_add, ← List.sum_map_add, ← sum_ones]
    simp only [(Query.History.counted_route _).1]
  · rw [hc, ← sum_ones]
    simp only [(Query.History.counted_route _).2.1]
  · rw [hc, ← List.sum_map_add]
    exact List.sum_le_sum fun h _ => h.counted_route.2.2
  · rw [hc]
    rfl
  · rw [hc]
    rfl
  · rw [hc, ← List.sum_map_add]
    refine congrArg List.sum (List.map_congr_left fun h hh => ?_)
    obtain ⟨_, _, _, _, ht, _⟩ := (balanced_run deeds).kept h hh
    exact ht.missing

end Engine

end DocQuery
