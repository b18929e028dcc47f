import DocQuery.Proofs.Counting
import DocQuery.Session

/-!
# Sessions as runs of an engine

A session knows its open queries by name.  It forgets those that have ended, drops
the one whose name is given to another, and may create a query, pull any number of
items and drop it in a single action.  An `Engine` keeps the histories of all its
queries by number, and what is done with it is done one poll at a time.

Yet every action of a session comes down to deeds on an engine.  Each name stands
for the place of a history; no two names that are in use share one, so that what
happens to one open query leaves the others alone.

* `Engine.exists_pull` — items are pulled by polls of one history, which hands out
  the same;
* `Session.followed_perform`, `Session.followed_run` — the step lemma and the run
  lemma: an engine follows every action, and so every session;
* `Session.exists_deeds` — every session has the counters of some run of an engine,
  and its open queries are histories of that engine;
* `Session.counters_run` — what this says about the counters of every session.
-/

namespace DocQuery

/-- Whether an action creates a query. -/
def Action.isQuery : Action → Bool
  | .query _ _ _ | .queryAll _ _ | .start _ _ _ => true
  | _ => false

namespace Query

/-- Pulling all items is pulling at most so many of them. -/
theorem exists_pull_eq (q : Query) (take : Option Nat) (w : World) (j : Journal) :
    ∃ n, q.pullUpTo take w j = pull w n q j := by
  cases take with
  | some n => exact ⟨n, rfl⟩
  | none => exact ⟨(q.poll w j).2.1.size + 2, by
      simp only [pullUpTo, pullAll, pull]
      rcases q.poll w j with ⟨item | _ | _, q', j'⟩ <;> rfl⟩

namespace History

variable {h : History}

theorem record_poll (hdropped : h.dropped = false) (w : World) (j : Journal) :
    h.record (.poll w) j = (h.query.poll w j).2.2 := by
  simp only [record, hdropped]

theorem record_drop (hdropped : h.dropped = false) (j : Journal) :
    h.record .drop j = h.query.drop j := by
  simp only [record, hdropped]

/-- What happens to a query counts the same in journals that have the same counters. -/
theorem record_counters_congr (h : History) (happening : Happening) {j j' : Journal}
    (hj : j.counters = j'.counters) :
    (h.record happening j).counters = (h.record happening j').counters := by
  rw [h.record_counters happening j, hj, ← h.record_counters happening j']

end History

end Query

namespace Engine

variable {e e' e'' : Engine} {k : Nat} {q : Query}

/-- The engine has a query at a place, which was not dropped. -/
def Runs (e : Engine) (k : Nat) (q : Query) : Prop :=
  ∃ h, e.histories[k]? = some h ∧ h.query = q ∧ h.dropped = false

/-- Nothing but the history at a place has changed. -/
def OnlyAt (k : Nat) (e e' : Engine) : Prop := ∀ i, i ≠ k → e'.histories[i]? = e.histories[i]?

theorem OnlyAt.refl (k : Nat) (e : Engine) : OnlyAt k e e := fun _ _ => rfl

theorem OnlyAt.trans (h : OnlyAt k e e') (h' : OnlyAt k e' e'') : OnlyAt k e e'' :=
  fun i hi => (h' i hi).trans (h i hi)

/-- Queries at other places stay as they are. -/
theorem Runs.of_onlyAt {i : Nat} (h : e.Runs i q) (honly : OnlyAt k e e') (hi : i ≠ k) :
    e'.Runs i q := by
  obtain ⟨history, hat, hquery, hdropped⟩ := h
  exact ⟨history, (honly i hi).trans hat, hquery, hdropped⟩

/-- What the engine runs is at one of its places. -/
theorem Runs.lt (h : e.Runs k q) : k < e.histories.length := by
  obtain ⟨history, hat, _⟩ := h
  exact (List.getElem?_eq_some_iff.mp hat).1

/-- What happens to a query changes its history only. -/
theorem onlyAt_happening (e : Engine) (k : Nat) (happening : Query.Happening) :
    OnlyAt k e (e.after (.happening k happening)) := by
  intro i hi
  cases hk : e.histories[k]? with
  | none => simp [after, hk]
  | some h => simp [after, hk, List.getElem?_set_ne (Ne.symm hi)]

/-- A query that is created takes the next place. -/
theorem onlyAt_query (e : Engine) (filter : Filter) (options : Options) (id : String)
    (now : Nat) : OnlyAt e.histories.length e (e.after (.query filter options id now)) := by
  intro i hi
  rcases Nat.lt_or_gt_of_ne hi with hlt | hgt
  · exact List.getElem?_append_left hlt
  · rw [List.getElem?_eq_none (Nat.le_of_lt hgt)]
    exact List.getElem?_eq_none (by simpa [after] using hgt)

/-- What happens to a query counts for the engine what it counts in a journal that has
the same counters. -/
theorem counters_happening {h : Query.History} {j : Journal} (hat : e.histories[k]? = some h)
    (hj : e.journal.counters = j.counters) (happening : Query.Happening) :
    (e.after (.happening k happening)).journal.counters = (h.record happening j).counters := by
  simp only [after, hat]
  exact h.record_counters_congr happening hj

/-- A poll of the history at a place is a poll of its query, with any journal that has
the same counters. -/
theorem after_poll_shared {h : Query.History} {j : Journal} (hat : e.histories[k]? = some h)
    (hdropped : h.dropped = false) (hj : e.journal.counters = j.counters) (w : World) :
    ∃ h', (e.after (.happening k (.poll w))).histories[k]? = some h' ∧ h'.dropped = false ∧
      h'.query = (h.query.poll w j).2.1 ∧ h'.answers = h.answers ++ [(h.query.poll w j).1] ∧
      (e.after (.happening k (.poll w))).journal.counters = (h.query.poll w j).2.2.counters := by
  obtain ⟨h', hat', _, hquery, hanswers, hdropped'⟩ := after_poll hat hdropped w
  obtain ⟨hanswer, hnext⟩ := h.query.poll_eq_of_journals w e.journal j
  refine ⟨h', hat', hdropped', hquery.trans hnext, hanswer ▸ hanswers, ?_⟩
  rw [counters_happening hat hj, Query.History.record_poll hdropped]

/-- What a batch leaves of a query: the history at its place has handed out the
items, and the counters are those of its journal. -/
structure Pulled (k : Nat) (h : Query.History) (batch : Query.Batch) (e : Engine) : Prop where
  history : ∃ h', e.histories[k]? = some h' ∧ h'.query = batch.query ∧ h'.dropped = false ∧
    handedOut h'.answers = handedOut h.answers ++ batch.items
  counters : e.journal.counters = batch.journal.counters

/-- **Pulling.**  Items are pulled from a query by polls of its history, which hands
out the same. -/
theorem exists_pull (w : World) (n : Nat) {j : Journal} {h : Query.History}
    (hat : e.histories[k]? = some h) (hdropped : h.dropped = false)
    (hj : e.journal.counters = j.counters) :
    ∃ polls, let e' := (List.replicate polls (.happening k (.poll w))).foldl after e
      Pulled k h (Query.pull w n h.query j) e' ∧ OnlyAt k e e' := by
  induction n generalizing e h j with
  | zero =>
      exact ⟨0, ⟨⟨h, hat, rfl, hdropped, (List.append_nil _).symm⟩, hj⟩, .refl k e⟩
  | succ n ih =>
      obtain ⟨h', hat', hdropped', hquery, hanswers, hcounters⟩ :=
        after_poll_shared hat hdropped hj w
      have hstep := onlyAt_happening e k (.poll w)
      have hout := congrArg handedOut hanswers
      rw [handedOut_append] at hout
      simp only [Query.pull]
      rcases hpolled : h.query.poll w j with ⟨item | _ | _, q', j'⟩
      · rw [hpolled] at hquery hcounters hout
        obtain ⟨polls, ⟨⟨h'', hat'', hquery'', hdropped'', hout''⟩, hcounters''⟩, honly⟩ :=
          ih hat' hdropped' hcounters
        rw [hquery] at hquery'' hout'' hcounters''
        refine ⟨polls + 1, ⟨⟨h'', hat'', hquery'', hdropped'', ?_⟩, hcounters''⟩, hstep.trans honly⟩
        rw [hout'', hout, List.append_assoc]
        rfl
      all_goals
        rw [hpolled] at hquery hcounters hout
        exact ⟨1, ⟨⟨h', hat', hquery, hdropped', hout⟩, hcounters⟩, hstep⟩

/-- **Releasing.**  Lookups of an id are released in all queries, one after the other. -/
theorem release_all (e : Engine) (id : String) (n : Nat) :
    let e' := ((List.range n).map fun k => .happening k (.release id)).foldl after e
    e'.journal = e.journal ∧ ∀ i, e'.histories[i]? =
      if i < n then e.histories[i]?.map (·.after (.release id)) else e.histories[i]? := by
  induction n with
  | zero => exact ⟨rfl, fun i => by simp⟩
  | succ n ih =>
      obtain ⟨hjournal, hat⟩ := ih
      simp only [List.range_succ, List.map_append, List.map_singleton, List.foldl_append,
        List.foldl_cons, List.foldl_nil]
      set earlier := ((List.range n).map fun k => Deed.happening k (.release id)).foldl after e
      have hn := hat n
      rw [if_neg (Nat.lt_irrefl n)] at hn
      refine ⟨?_, fun i => ?_⟩
      · rw [← hjournal, after]
        cases earlier.histories[n]? with
        | none => rfl
        | some h => cases hdropped : h.dropped <;> simp [Query.History.record, hdropped]
      · rcases Nat.lt_trichotomy i n with hlt | rfl | hgt
        · rw [onlyAt_happening earlier n _ i (by omega), hat i, if_pos hlt, if_pos (by omega)]
        · rw [if_pos (Nat.lt_succ_self i), ← hn, after]
          cases hhistory : earlier.histories[i]? with
          | none => simpa using hhistory
          | some h =>
              have hlt := (List.getElem?_eq_some_iff.mp hhistory).1
              simp [List.getElem?_set_self hlt]
        · rw [onlyAt_happening earlier n _ i (by omega), hat i, if_neg (by omega),
            if_neg (by omega)]

end Engine

namespace Session

variable {s s' s'' : Session} {e e' : Engine} {place : String → Nat} {name : String} {k : Nat}
  {q : Query}

/-- An engine that does what a session does: it has the same counters, and it runs the
open queries, each at the place that the name stands for. -/
structure Mirrored (s : Session) (e : Engine) (place : String → Nat) : Prop where
  counters : e.journal.counters = s.journal.counters
  runs : ∀ entry ∈ s.streams, e.Runs (place entry.1) entry.2
  apart : ∀ entry ∈ s.streams, ∀ other ∈ s.streams,
    place entry.1 = place other.1 → entry.1 = other.1

/-- Queries that are forgotten do not matter. -/
theorem Mirrored.of_subset (h : s.Mirrored e place)
    (hcounters : s'.journal.counters = s.journal.counters) (hsub : s'.streams ⊆ s.streams) :
    s'.Mirrored e place where
  counters := h.counters.trans hcounters.symm
  runs entry hentry := h.runs entry (hsub hentry)
  apart entry hentry other hother := h.apart entry (hsub hentry) other (hsub hother)

theorem Mirrored.forget (h : s.Mirrored e place) (name : String) :
    (s.forgetStream name).Mirrored e place :=
  h.of_subset rfl List.filter_sublist.subset

/-- What happens to a query that has no name leaves the open ones alone. -/
theorem Mirrored.beside (h : s.Mirrored e place) (honly : Engine.OnlyAt k e e')
    (hfree : ∀ entry ∈ s.streams, place entry.1 ≠ k) {j : Journal}
    (hj : e'.journal.counters = j.counters) : { s with journal := j }.Mirrored e' place where
  counters := hj
  runs entry hentry := (h.runs entry hentry).of_onlyAt honly (hfree entry hentry)
  apart := h.apart

/-- A query gets a name that is not in use any more. -/
theorem Mirrored.set (h : (s.forgetStream name).Mirrored e place) (hruns : e.Runs k q)
    (hfree : ∀ entry ∈ (s.forgetStream name).streams, place entry.1 ≠ k) :
    (s.setStream name q).Mirrored e (Function.update place name k) := by
  have hplace : ∀ entry ∈ (s.forgetStream name).streams,
      Function.update place name k entry.1 = place entry.1 := by
    intro entry hentry
    obtain ⟨_, hne⟩ := List.mem_filter.mp hentry
    exact Function.update_of_ne (by simpa using hne) k place
  refine ⟨h.counters, fun entry hentry => ?_, fun entry hentry other hother heq => ?_⟩
  · rcases List.mem_cons.mp hentry with rfl | hentry
    · simpa using hruns
    · rw [hplace entry hentry]
      exact h.runs entry hentry
  · rcases List.mem_cons.mp hentry with rfl | hentry <;>
      rcases List.mem_cons.mp hother with rfl | hother
    · rfl
    · rw [hplace other hother, Function.update_self] at heq
      exact absurd heq.symm (hfree other hother)
    · rw [hplace entry hentry, Function.update_self] at heq
      exact absurd heq (hfree entry hentry)
    · rw [hplace entry hentry, hplace other hother] at heq
      exact h.apart entry hentry other hother heq

/-- A query that is forgotten has a place of its own. -/
theorem Mirrored.forget_free (h : s.Mirrored e place) (hopen : (name, q) ∈ s.streams) :
    ∀ entry ∈ (s.forgetStream name).streams, place entry.1 ≠ place name := by
  intro entry hentry hplace
  obtain ⟨hentry, hne⟩ := List.mem_filter.mp hentry
  have hsame := h.apart entry hentry (name, q) hopen hplace
  simp [hsame] at hne

/-- An engine that mirrors the one session comes to mirror the other one by some deeds,
so many of which create a query. -/
def Followed (s s' : Session) (created : Nat) : Prop :=
  ∀ e place, s.Mirrored e place → ∃ (deeds : List Deed) (place' : String → Nat),
    s'.Mirrored (deeds.foldl Engine.after e) place' ∧ deeds.countP Deed.isQuery = created

theorem Followed.trans {m n : Nat} (h : s.Followed s' m) (h' : s'.Followed s'' n) :
    s.Followed s'' (m + n) := by
  intro e place hmirrored
  obtain ⟨deeds, place', hmirrored', hm⟩ := h e place hmirrored
  obtain ⟨deeds', place'', hmirrored'', hn⟩ := h' _ place' hmirrored'
  refine ⟨deeds ++ deeds', place'', ?_, by rw [List.countP_append, hm, hn]⟩
  rwa [List.foldl_append]

/-- Nothing is to be done if the counters stay and queries are at most forgotten. -/
theorem followed_of_subset (hcounters : s'.journal.counters = s.journal.counters)
    (hsub : s'.streams ⊆ s.streams) : s.Followed s' 0 :=
  fun _ place hmirrored => ⟨[], place, hmirrored.of_subset hcounters hsub, rfl⟩

/-- Answering for the lookups changes nothing that an engine knows of. -/
theorem Followed.report {n : Nat} (h : s.Followed s' n) : s.Followed s'.report n := by
  have hreport : s'.Followed s'.report 0 := followed_of_subset rfl (List.Subset.refl _)
  exact h.trans hreport

/-- An open query is found under its name. -/
theorem mem_of_lookup (hopen : s.streams.lookup name = some q) : (name, q) ∈ s.streams := by
  obtain ⟨before, after, heq, _⟩ := List.lookup_eq_some_iff.mp hopen
  simp [heq]

/-- An open query is dropped in the session and in the engine. -/
theorem Mirrored.drop (h : s.Mirrored e place) (hopen : s.streams.lookup name = some q) :
    (s.dropStream name).Mirrored (e.after (.happening (place name) .drop)) place := by
  have hmem := mem_of_lookup hopen
  obtain ⟨history, hat, hquery, hdropped⟩ := h.runs _ hmem
  have hjournal : (e.after (.happening (place name) .drop)).journal.counters =
      (q.drop s.journal).counters := by
    rw [Engine.counters_happening hat h.counters, Query.History.record_drop hdropped, hquery]
  simp only [dropStream, hopen]
  exact (h.forget name).beside (Engine.onlyAt_happening e _ .drop) (h.forget_free hmem) hjournal

/-- Lookups are released in the open queries, and in the engine in all of them: the others
are not looked at any more. -/
theorem followed_release (s : Session) (id : String) :
    s.Followed (s.perform (.release id)).2 0 := by
  intro e place h
  refine ⟨(List.range e.histories.length).map fun k => .happening k (.release id), place, ?_, ?_⟩
  · obtain ⟨hjournal, hat⟩ := e.release_all id e.histories.length
    refine ⟨by rw [hjournal]; exact h.counters, fun entry hentry => ?_,
      fun entry hentry other hother => ?_⟩
    · obtain ⟨original, horiginal, rfl⟩ := List.mem_map.mp hentry
      obtain ⟨history, hhistory, hquery, hdropped⟩ := h.runs original horiginal
      refine ⟨history.after (.release id), ?_, ?_, ?_⟩
      · rw [hat, if_pos (h.runs original horiginal).lt, hhistory]
        rfl
      · rw [Query.History.after_release hdropped, hquery]
      · rw [Query.History.after_release hdropped, hdropped]
    · obtain ⟨original, horiginal, rfl⟩ := List.mem_map.mp hentry
      obtain ⟨original', horiginal', rfl⟩ := List.mem_map.mp hother
      exact h.apart original horiginal original' horiginal'
  · simp [List.countP_eq_zero, Deed.isQuery]

/-- A query that is created in the engine counts as it does in the session, and takes
the next place. -/
theorem Mirrored.create (h : s.Mirrored e place) (filter : Filter) (options : Options)
    (id : String) (now : Nat) :
    let e' := e.after (.query filter options id now)
    let created := Query.create filter options id now s.journal
    e'.journal.counters = created.2.counters ∧
      ∃ history, e'.histories[e.histories.length]? = some history ∧
        history.query = created.1 ∧ history.dropped = false := by
  refine ⟨?_, .begin filter options id now, by simp [Engine.after], rfl, rfl⟩
  simp [Engine.after, Query.create, Journal.note, Journal.count, h.counters]

/-- A query that is not created yet has a place of its own. -/
theorem Mirrored.next_free (h : s.Mirrored e place) :
    ∀ entry ∈ s.streams, place entry.1 ≠ e.histories.length :=
  fun entry hentry => Nat.ne_of_lt (h.runs entry hentry).lt

/-- A query is run and dropped beside the open ones. -/
theorem followed_runQuery (s : Session) (filter : Filter) (options : Options)
    (take : Option Nat) : s.Followed (s.runQuery filter options take).2 1 := by
  intro e place h
  obtain ⟨hcreated, history, hat, hquery, hdropped⟩ :=
    h.create filter options s.nextId s.world.now
  set created := Query.create filter options s.nextId s.world.now s.journal
  set e₁ := e.after (.query filter options s.nextId s.world.now)
  obtain ⟨n, hn⟩ := created.1.exists_pull_eq take s.world created.2
  obtain ⟨polls, hpulled, honly⟩ := Engine.exists_pull s.world n hat hdropped hcreated
  rw [hquery, ← hn] at hpulled
  set batch := created.1.pullUpTo take s.world created.2
  set e₂ := (List.replicate polls (.happening e.histories.length (.poll s.world))).foldl
    Engine.after e₁
  obtain ⟨⟨history', hat', hquery', hdropped', _⟩, hcounters⟩ := hpulled
  have hdrop : (e₂.after (.happening e.histories.length .drop)).journal.counters =
      (batch.query.drop batch.journal).counters := by
    rw [Engine.counters_happening hat' hcounters, Query.History.record_drop hdropped', hquery']
  refine ⟨.query filter options s.nextId s.world.now ::
    (List.replicate polls (.happening e.histories.length (.poll s.world)) ++
      [.happening e.histories.length .drop]), place, ?_, ?_⟩
  · rw [List.foldl_cons, List.foldl_append]
    exact h.beside ((e.onlyAt_query _ _ _ _).trans (honly.trans (e₂.onlyAt_happening _ .drop)))
      h.next_free hdrop
  · simp [List.countP_cons, List.countP_append, List.countP_replicate, Deed.isQuery]

/-- A query is created and named beside the open ones, but for the one that had the
name, which is dropped. -/
theorem followed_start (s : Session) (name : String) (filter : Filter) (options : Options) :
    s.Followed (s.perform (.start name filter options)).2 1 := by
  intro e place h
  obtain ⟨hcreated, history, hat, hquery, hdropped⟩ :=
    h.create filter options s.nextId s.world.now
  have hmirrored := h.beside (e.onlyAt_query filter options s.nextId s.world.now) h.next_free
    hcreated
  have hruns : (e.after (.query filter options s.nextId s.world.now)).Runs e.histories.length _ :=
    ⟨history, hat, hquery, hdropped⟩
  cases hopen : s.streams.lookup name with
  | none =>
      refine ⟨[.query filter options s.nextId s.world.now],
        Function.update place name e.histories.length, ?_, rfl⟩
      simp only [perform, dropStream, hopen]
      exact (hmirrored.forget name).set hruns fun entry hentry =>
        h.next_free entry (List.mem_of_mem_filter hentry)
  | some q =>
      refine ⟨[.query filter options s.nextId s.world.now, .happening (place name) .drop],
        Function.update place name e.histories.length, ?_, rfl⟩
      have hruns' := hruns.of_onlyAt (Engine.onlyAt_happening _ (place name) .drop)
        (h.next_free _ (mem_of_lookup hopen)).symm
      refine ((hmirrored.drop hopen).forget name).set hruns' fun entry hentry => ?_
      have hentry := List.mem_of_mem_filter hentry
      simp only [dropStream, hopen] at hentry
      exact h.next_free entry (List.mem_of_mem_filter hentry)

/-- Items are pulled from an open query, which is forgotten when it has ended. -/
theorem followed_pull (s : Session) (name : String) (take : Option Nat) :
    s.Followed (s.perform (.pull name take)).2 0 := by
  cases hopen : s.streams.lookup name with
  | none =>
      simp only [perform, hopen]
      exact followed_of_subset rfl (List.Subset.refl _)
  | some q =>
      intro e place h
      have hmem := mem_of_lookup hopen
      obtain ⟨history, hat, hquery, hdropped⟩ := h.runs _ hmem
      obtain ⟨n, hn⟩ := q.exists_pull_eq take s.world s.journal
      obtain ⟨polls, hpulled, honly⟩ := Engine.exists_pull s.world n hat hdropped h.counters
      rw [hquery, ← hn] at hpulled
      obtain ⟨⟨history', hat', hquery', hdropped', _⟩, hcounters⟩ := hpulled
      have hforgotten := (h.forget name).beside honly (h.forget_free hmem) hcounters
      have hnone : (List.replicate polls (Deed.happening (place name) (.poll s.world))).countP
          Deed.isQuery = 0 := by
        simp [List.countP_replicate, Deed.isQuery]
      simp only [perform, hopen]
      split
      · exact ⟨_, place, hforgotten.of_subset rfl (List.Subset.refl _), hnone⟩
      · have hset := Mirrored.set (s := { s with journal := _ }) hforgotten
          ⟨history', hat', hquery', hdropped'⟩ (h.forget_free hmem)
        exact ⟨_, _, hset.of_subset rfl (List.Subset.refl _), hnone⟩

/-- **Explaining** does to the journal of a session what it does to that of an engine, adds
nothing to the counters, and leaves everything else as it is. -/
theorem perform_explain (s : Session) (histories : List Query.History) (filter : Filter)
    (options : Options) :
    (s.perform (.explain filter options)).2 = { s with
        journal := ((Engine.mk s.journal histories).after
          (.explain s.world filter options)).journal } ∧
      (s.perform (.explain filter options)).2.journal.counters = s.journal.counters :=
  ⟨rfl, rfl⟩

/-- **The step lemma.**  Every action of a session is followed by an engine, and creates a
query there if it does so here. -/
theorem followed_perform (s : Session) (a : Action) :
    s.Followed (s.perform a).2 (if a.isQuery then 1 else 0) := by
  cases a with
  | put | delete | file | unfile | get | scan | ask | probe | counters =>
      exact followed_of_subset rfl (List.Subset.refl _)
  | rebuild =>
      simp only [perform, rebuild]
      cases s.catalog.rebuild (s.storeView.scan .everything) <;>
        exact followed_of_subset rfl (List.Subset.refl _)
  | release id => exact s.followed_release id
  | explain filter options =>
      exact fun e place h => ⟨[.explain s.world filter options], place,
        ⟨h.counters, h.runs, h.apart⟩, rfl⟩
  | query filter options take =>
      exact (s.followed_runQuery filter options take).report
  | queryAll filter options =>
      have hrun := s.followed_runQuery filter options none
      simp only [perform]
      cases gather (s.runQuery filter options none).1.items with
      | ok => exact hrun.report
      | error => exact hrun
  | start name filter options => exact s.followed_start name filter options
  | pull name take => exact s.followed_pull name take
  | stop name =>
      cases hopen : s.streams.lookup name with
      | none =>
          simp only [perform, dropStream, hopen]
          exact followed_of_subset rfl (List.Subset.refl _)
      | some q =>
          exact fun e place h => ⟨[.happening (place name) .drop], place, h.drop hopen, rfl⟩

/-- **The run lemma.**  Whatever actions a session takes, an engine follows it. -/
theorem followed_run (s : Session) (actions : List Action) :
    s.Followed (s.run actions).2 (actions.countP Action.isQuery) := by
  induction actions generalizing s with
  | nil => exact followed_of_subset rfl (List.Subset.refl _)
  | cons a rest ih =>
      rw [List.countP_cons, Nat.add_comm]
      exact (s.followed_perform a).trans (ih _)

/-- **Sessions are runs of an engine.**  Whatever actions a session takes that starts with
no counters and no queries, the same counters come of some deeds on an engine, which has
as many queries as the session has created, among them each open one in a place of its own. -/
theorem exists_deeds (s : Session) (hcounters : s.journal.counters = .zero)
    (hstreams : s.streams = []) (actions : List Action) :
    ∃ (deeds : List Deed) (place : String → Nat),
      (s.run actions).2.Mirrored (Engine.run deeds) place ∧
      (Engine.run deeds).histories.length = actions.countP Action.isQuery := by
  have hstart : s.Mirrored ⟨.blank, []⟩ fun _ => 0 :=
    ⟨hcounters.symm, by simp [hstreams], by simp [hstreams]⟩
  obtain ⟨deeds, place, hmirrored, hcount⟩ := s.followed_run actions _ _ hstart
  exact ⟨deeds, place, hmirrored, (Engine.length_histories deeds).trans hcount⟩

/-- **What a session counts.**  It counts every query that it creates, at most one route
for each, and no more fallbacks than routes that can be one. -/
theorem counters_run (s : Session) (hcounters : s.journal.counters = .zero)
    (hstreams : s.streams = []) (actions : List Action) :
    let c := (s.run actions).2.journal.counters
    c.queriesExecuted = actions.countP Action.isQuery ∧
      c.indexPaths + c.fullScans + c.probeHits ≤ c.queriesExecuted ∧
      c.probeFallbacks ≤ c.indexPaths + c.fullScans := by
  intro c
  obtain ⟨deeds, place, hmirrored, hcount⟩ := s.exists_deeds hcounters hstreams actions
  have hc : c = ((Engine.run deeds).histories.map (·.counted)).sum :=
    hmirrored.counters.symm.trans (Engine.counters_run deeds)
  rw [Counters.sum_eq] at hc
  simp only [List.map_map, Function.comp_def] at hc
  have hqueries : c.queriesExecuted = (Engine.run deeds).histories.length := by
    rw [hc]
    simp [Query.History.counted]
  refine ⟨hqueries.trans hcount, ?_, ?_⟩
  · rw [hqueries, hc, ← List.sum_map_add, ← List.sum_map_add]
    simp only [(Query.History.counted_route _).1, Engine.sum_ones]
    exact List.countP_le_length
  · rw [hc, ← List.sum_map_add]
    exact List.sum_le_sum fun h _ => h.counted_route.2.2

end Session

end DocQuery
