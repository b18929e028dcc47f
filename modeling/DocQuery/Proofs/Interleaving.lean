import DocQuery.Proofs.Contributions
import Mathlib

/-!
# Queries over a store and a catalog that change

The store is written and the catalog is written, each at its own pace, while
any number of queries are polled.  A plan is chosen at the first poll, an id
is looked up some polls later, and the document is handed out later still; so
what a query hands out has been overtaken by writes.  But it was never wrong:
it matches the query's filter, and it is what the store held when the query
looked.

* `after_cases` — the step lemma: what an act does to the history of a query;
* `traced_run` — the run lemma: at which polls a query has read the store;
* `streams_never_leak` — what every query hands out, however writes and polls
  interleave.
-/

namespace DocQuery

/-! ## What one happening adds to a history -/

namespace Query.History

section Happens

variable {h : History}

/-- The ids whose lookups a poll starts. -/
def startedBy (h : History) (w : World) : List String :=
  (h.record (.poll w) h.journal).lookups.drop h.journal.lookups.length

/-- What a query asks for stays the same. -/
theorem asked_after (h : History) (happening : Happening) :
    (h.after happening).query.filter = h.query.filter ∧
      (h.after happening).query.options = h.query.options := by
  cases hdropped : h.dropped with
  | true =>
      rw [after_of_dropped hdropped]
      exact ⟨rfl, rfl⟩
  | false =>
      cases happening with
      | poll w =>
          simp only [after, hdropped]
          cases hup : w.setting.upcoming h.query with
          | none =>
              rw [Setting.poll_over hup]
              exact ⟨rfl, rfl⟩
          | some p =>
              rw [query_poll hup]
              rcases p.poll w.reads with ⟨(fault | document) | _ | _, p'⟩ <;> exact ⟨rfl, rfl⟩
      | release key =>
          rw [after_release hdropped, releaseHeld_eq]
          exact ⟨rfl, rfl⟩
      | drop =>
          rw [after_drop hdropped]
          exact ⟨rfl, rfl⟩

/-- The first world of a query comes from the poll that finds it there. -/
theorem first_after {happening : Happening} {w : World}
    (hfirst : (h.after happening).first = some w) :
    h.first = some w ∨ happening = .poll w ∧ h.first = none ∧ h.dropped = false := by
  cases hdropped : h.dropped with
  | true =>
      rw [after_of_dropped hdropped] at hfirst
      exact Or.inl hfirst
  | false =>
      cases happening with
      | poll w' =>
          simp only [after, hdropped] at hfirst
          cases hbefore : h.first with
          | none =>
              obtain rfl : w' = w := by simpa [hbefore] using hfirst
              exact Or.inr ⟨rfl, rfl, rfl⟩
          | some w₀ => exact Or.inl (by simpa [hbefore] using hfirst)
      | release key =>
          rw [after_release hdropped] at hfirst
          exact Or.inl hfirst
      | drop =>
          rw [after_drop hdropped] at hfirst
          exact Or.inl hfirst

/-- A lookup comes from the poll that starts it, and finds what the world of the
poll holds. -/
theorem lookups_after {happening : Happening} {l : Lookup} (hl : l ∈ (h.after happening).lookups) :
    l ∈ h.lookups ∨
      ∃ w, happening = .poll w ∧ l.id ∈ h.startedBy w ∧ l.found = w.store.lookup l.id := by
  cases hdropped : h.dropped with
  | true =>
      rw [after_of_dropped hdropped] at hl
      exact Or.inl hl
  | false =>
      cases happening with
      | poll w =>
          simp only [after, hdropped] at hl
          rcases List.mem_append.mp hl with hl | hl
          · exact Or.inl hl
          · obtain ⟨key, hkey, rfl⟩ := List.mem_map.mp hl
            exact Or.inr ⟨w, rfl, hkey, rfl⟩
      | release key =>
          rw [after_release hdropped] at hl
          exact Or.inl hl
      | drop =>
          rw [after_drop hdropped] at hl
          exact Or.inl hl

end Happens

end Query.History

/-! ## Writes and polls in turn -/

/-- A store, a catalog that may lag behind it, how many lookups of one query may
be outstanding, and the histories of the queries. -/
structure Scene where
  store : Store
  catalog : Catalog
  window : Nat
  histories : List Query.History

/-- What may happen in a scene. -/
inductive Act where
  /-- a document is put into the store -/
  | put (id : String) (document : Document)
  /-- a document is deleted from the store -/
  | delete (id : String)
  /-- the catalog follows a write -/
  | file (id : String) (document : Document)
  /-- the catalog follows a deletion -/
  | unfile (id : String)
  /-- the catalog is rebuilt from the store -/
  | rebuild
  /-- a query is created -/
  | query (filter : Filter) (options : Options) (id : String) (now : Nat)
  /-- a query is polled, the lookups of some ids being held back -/
  | poll (k : Nat) (held : String → Bool) (now : Nat)
  /-- lookups of a query that were found to be held may go on -/
  | release (k : Nat) (id : String)
  /-- a query is dropped -/
  | drop (k : Nat)

/-- What a query that is created asks for. -/
def Act.asked? : Act → Option (Filter × Options)
  | .query filter options _ _ => some (filter, options)
  | _ => none

namespace Scene

/-- What a query finds around it. -/
def world (s : Scene) (held : String → Bool) (now : Nat) : World where
  index := s.catalog.index
  store := s.store.view
  held := held
  window := s.window
  now := now

/-- Something happens to a query. -/
def happen (s : Scene) (k : Nat) (happening : Query.Happening) : Scene :=
  { s with histories := s.histories.modify k (·.after happening) }

/-- What a scene is after something happened. -/
def after (s : Scene) : Act → Scene
  | .put id document => { s with store := s.store.put id document }
  | .delete id => { s with store := s.store.delete id }
  | .file id document => { s with catalog := s.catalog.write id document }
  | .unfile id => { s with catalog := s.catalog.unfile id }
  | .rebuild =>
    match s.catalog.rebuild (s.store.view.scan .everything) with
    | .ok (catalog, _) => { s with catalog := catalog }
    | .error _ => s
  | .query filter options id now =>
    { s with histories := s.histories ++ [.begin filter options id now] }
  | .poll k held now => s.happen k (.poll (s.world held now))
  | .release k id => s.happen k (.release id)
  | .drop k => s.happen k .drop

/-- A scene without queries. -/
def begin (store : Store) (catalog : Catalog) (window : Nat) : Scene :=
  ⟨store, catalog, window, []⟩

/-- What a scene is after several things happened in turn. -/
def run (s : Scene) (acts : List Act) : Scene := acts.foldl after s

/-- In the course of some acts a query was polled while the scene was `s` and
its history was `h`, and found the world `w` around it. -/
def Polled (start : Scene) (acts : List Act) (k : Nat) (s : Scene) (h : Query.History)
    (w : World) : Prop :=
  ∃ before held now later, acts = before ++ .poll k held now :: later ∧ s = start.run before ∧
    s.histories[k]? = some h ∧ w = s.world held now

/-- A document that a query has handed out is what the store held under its id at
some poll of the query: at the first poll if the query scans, and otherwise at
the poll that started the lookup of the id. -/
def ReadAt (start : Scene) (acts : List Act) (k : Nat) (h : Query.History)
    (e : String × Document) : Prop :=
  ∃ s h₀ w, start.Polled acts k s h₀ w ∧ s.store.get? e.1 = some e.2 ∧
    if h.route?.any Route.isFullScan then h₀.first = none ∧ h₀.dropped = false
    else e.1 ∈ h₀.startedBy w

/-- A query all of whose reads of the store are known: it has read at its first
poll, and at the polls that started its lookups. -/
structure Traced (start : Scene) (acts : List Act) (k : Nat) (h : Query.History) : Prop where
  told : ∃ filter options id now, h.Told filter options id now
  first : ∀ w, h.first = some w → ∃ s h₀, start.Polled acts k s h₀ w ∧ h₀.first = none ∧
    h₀.dropped = false
  lookups : ∀ l ∈ h.lookups, ∃ s h₀ w, start.Polled acts k s h₀ w ∧ l.id ∈ h₀.startedBy w ∧
    l.found = w.store.lookup l.id

section Trace

variable {start s : Scene} {acts : List Act} {k : Nat} {h : Query.History}

/-- More acts leave what has happened before. -/
theorem Traced.snoc (ht : start.Traced acts k h) (a : Act) : start.Traced (acts ++ [a]) k h := by
  have hpolled : ∀ {s h₀ w}, start.Polled acts k s h₀ w → start.Polled (acts ++ [a]) k s h₀ w := by
    rintro s h₀ w ⟨before, held, now, later, rfl, hmoment⟩
    exact ⟨before, held, now, later ++ [a], by simp, hmoment⟩
  refine ⟨ht.told, fun w hw => ?_, fun l hl => ?_⟩
  · obtain ⟨s, h₀, hmoment, hfresh⟩ := ht.first w hw
    exact ⟨s, h₀, hpolled hmoment, hfresh⟩
  · obtain ⟨s, h₀, w, hmoment, hstarted⟩ := ht.lookups l hl
    exact ⟨s, h₀, w, hpolled hmoment, hstarted⟩

/-- **The step lemma.**  An act leaves the history of a query, begins it, or is
what happens to it next; and only a poll of this query polls it. -/
theorem after_cases {a : Act} (hk : (s.after a).histories[k]? = some h) :
    s.histories[k]? = some h ∨ (∃ filter options id now, h = .begin filter options id now) ∨
      ∃ h₀ happening, s.histories[k]? = some h₀ ∧ h = h₀.after happening ∧
        ∀ w, happening = .poll w → ∃ held now, a = .poll k held now ∧ w = s.world held now := by
  have hhappen : ∀ {j : Nat} {happening : Query.Happening},
      (s.happen j happening).histories[k]? = some h → s.histories[k]? = some h ∨
        ∃ h₀, j = k ∧ s.histories[k]? = some h₀ ∧ h = h₀.after happening := by
    intro j happening hk
    rw [happen, List.getElem?_modify] at hk
    obtain ⟨h₀, hh₀, heq⟩ := Option.map_eq_some_iff.mp hk
    split at heq
    · next hjk => exact Or.inr ⟨h₀, hjk, hh₀, heq.symm⟩
    · exact Or.inl (heq ▸ hh₀)
  cases a with
  | put id document | delete id | file id document | unfile id => exact Or.inl hk
  | rebuild =>
      left
      simp only [after] at hk
      split at hk <;> exact hk
  | query filter options id now =>
      simp only [after, List.getElem?_append] at hk
      split at hk
      · exact Or.inl hk
      · have hlast := List.mem_singleton.mp (List.mem_of_getElem? hk)
        exact Or.inr (Or.inl ⟨filter, options, id, now, hlast⟩)
  | poll j held now =>
      rcases hhappen hk with hk | ⟨h₀, rfl, hh₀, rfl⟩
      · exact Or.inl hk
      · refine Or.inr (Or.inr ⟨h₀, _, hh₀, rfl, ?_⟩)
        rintro w heq
        cases heq
        exact ⟨held, now, rfl, rfl⟩
  | release j id =>
      rcases hhappen hk with hk | ⟨h₀, rfl, hh₀, rfl⟩
      · exact Or.inl hk
      · exact Or.inr (Or.inr ⟨h₀, _, hh₀, rfl, nofun⟩)
  | drop j =>
      rcases hhappen hk with hk | ⟨h₀, rfl, hh₀, rfl⟩
      · exact Or.inl hk
      · exact Or.inr (Or.inr ⟨h₀, _, hh₀, rfl, nofun⟩)

/-- **The run lemma.**  Every read of every query is known. -/
theorem traced_run (store : Store) (catalog : Catalog) (window : Nat) (acts : List Act)
    (hk : ((begin store catalog window).run acts).histories[k]? = some h) :
    (begin store catalog window).Traced acts k h := by
  induction acts using List.reverseRecOn generalizing h with
  | nil => simp [run, begin] at hk
  | append_singleton acts a ih =>
      rw [run, List.foldl_append] at hk
      rcases after_cases hk with hk | ⟨filter, options, id, now, rfl⟩ |
        ⟨h₀, happening, hh₀, rfl, hpoll⟩
      · exact (ih hk).snoc a
      · refine ⟨⟨filter, options, id, now, Query.History.told_begin filter options id now⟩, ?_, ?_⟩
        · simp [Query.History.begin]
        · simp [Query.History.begin]
      · have hbefore := (ih hh₀).snoc a
        -- What the last act adds was read in the scene before it.
        have hmoment : ∀ w, happening = .poll w →
            (begin store catalog window).Polled (acts ++ [a]) k
              ((begin store catalog window).run acts) h₀ w := by
          intro w hw
          obtain ⟨held, now, rfl, rfl⟩ := hpoll w hw
          exact ⟨acts, held, now, [], rfl, rfl, hh₀, rfl⟩
        obtain ⟨filter, options, id, now, ht⟩ := hbefore.told
        refine ⟨⟨filter, options, id, now, ht.after happening⟩, fun w hw => ?_, fun l hl => ?_⟩
        · rcases Query.History.first_after hw with hw | ⟨hw, hfresh⟩
          · exact hbefore.first w hw
          · exact ⟨_, h₀, hmoment w hw, hfresh⟩
        · rcases Query.History.lookups_after hl with hl | ⟨w, hw, hstarted⟩
          · exact hbefore.lookups l hl
          · exact ⟨_, h₀, w, hmoment w hw, hstarted⟩

/-- Every query asks for what it was created with. -/
theorem asked_run (s : Scene) (acts : List Act) :
    (s.run acts).histories.map (fun h => (h.query.filter, h.query.options)) =
      s.histories.map (fun h => (h.query.filter, h.query.options)) ++
        acts.filterMap Act.asked? := by
  have hhappen : ∀ (s : Scene) (k : Nat) (happening : Query.Happening),
      (s.happen k happening).histories.map (fun h => (h.query.filter, h.query.options)) =
        s.histories.map (fun h => (h.query.filter, h.query.options)) := by
    intro s k happening
    refine List.ext_getElem? fun i => ?_
    rw [happen, List.getElem?_map, List.getElem?_map, List.getElem?_modify]
    cases s.histories[i]? with
    | none => rfl
    | some h =>
        obtain ⟨hfilter, hoptions⟩ := h.asked_after happening
        by_cases hik : k = i <;> simp [hik, hfilter, hoptions]
  induction acts generalizing s with
  | nil => simp [run]
  | cons a rest ih =>
      have hrest : s.run (a :: rest) = (s.after a).run rest := rfl
      rw [hrest, ih]
      cases a with
      | put id document | delete id | file id document | unfile id => rfl
      | rebuild =>
          simp only [after]
          split <;> rfl
      | query filter options id now =>
          simp [after, Act.asked?, Query.History.begin, Query.create]
      | poll k held now => exact congrArg (· ++ _) (hhappen s k _)
      | release k id => exact congrArg (· ++ _) (hhappen s k _)
      | drop k => exact congrArg (· ++ _) (hhappen s k _)

/-- What a query has handed out that is known by its reads: documents of the
scene of its first poll if it scans, and otherwise what its lookups found. -/
theorem Traced.contributions (htraced : start.Traced acts k h) :
    ∃ contributions, h.Contributes contributions ∧
      ∀ e ∈ contributions, start.ReadAt acts k h e := by
  obtain ⟨filter, options, id, now, ht⟩ := htraced.told
  cases hfirst : h.first with
  | none =>
      have hanswers : h.answers = [] := by
        by_contra hne
        have hbegun : h.query.stage ≠ .unpolled := fun hstage => hne (ht.fresh hstage).2.2.2
        obtain ⟨w, _, _, hw, _⟩ := ht.begun hbegun
        simp [hfirst] at hw
      exact ⟨[], ⟨by simp [hanswers, handedOut], by simp, by simp, by simp⟩, by simp⟩
  | some w =>
      obtain ⟨s, h₀, hmoment, hfresh⟩ := htraced.first w hfirst
      have hworld := hmoment
      obtain ⟨_, held, time, _, _, _, _, rfl⟩ := hworld
      have hfound : ∀ l ∈ h.lookups, ∀ fault, l.found ≠ .error fault := by
        intro l hl fault
        obtain ⟨_, _, _, ⟨_, _, _, _, _, _, _, rfl⟩, _, hfound⟩ := htraced.lookups l hl
        rw [hfound]
        simp [world, Store.view]
      obtain ⟨contributions, hcontributes, route, hroute, horigin⟩ := ht.contributions hfirst hfound
      refine ⟨contributions, hcontributes, fun e he => ?_⟩
      have hread := horigin e he
      rw [ReadAt, hroute, Option.any_some]
      cases hscan : route.isFullScan with
      | true =>
          rw [hscan, if_pos rfl] at hread
          exact ⟨s, h₀, _, hmoment, hread, hfresh⟩
      | false =>
          rw [hscan, if_neg (by simp)] at hread
          obtain ⟨s', h', w', hmoment', hstarted, hlookup⟩ := htraced.lookups _ hread
          refine ⟨s', h', w', hmoment', ?_, hstarted⟩
          obtain ⟨_, _, _, _, _, _, _, rfl⟩ := hmoment'
          simpa [world, Store.view] using hlookup.symm

end Trace

/-- **Concurrent writes never leak a wrong document.**  However the writes to the
store, the writes to the catalog, which may lag behind, and the polls, lookups
and drops of any number of queries interleave, a query hands out documents,
each under an id of its own, that match its filter, and no more than its limit.
Each of them is what the store held at some poll of the query: at the poll that
started the lookup of the id, or at the first poll if the query scans. -/
theorem streams_never_leak (store : Store) (catalog : Catalog) (window : Nat) (acts : List Act)
    (k : Nat) (h : Query.History)
    (hk : ((begin store catalog window).run acts).histories[k]? = some h) :
    (acts.filterMap Act.asked?)[k]? = some (h.query.filter, h.query.options) ∧
      ∃ contributions, h.Contributes contributions ∧
        ∀ e ∈ contributions, (begin store catalog window).ReadAt acts k h e := by
  refine ⟨?_, (traced_run store catalog window acts hk).contributions⟩
  have hasked : ((begin store catalog window).run acts).histories.map
      (fun h => (h.query.filter, h.query.options)) = acts.filterMap Act.asked? :=
    asked_run (begin store catalog window) acts
  rw [← hasked, List.getElem?_map, hk, Option.map_some]

/-- A scan whose documents are overtaken by writes between its polls. -/
def overtaken : List Act :=
  [.query .all ⟨none, some 2⟩ "q" 0, .poll 0 (fun _ => false) 0, .put "b" (.bool true),
    .put "c" .null, .poll 0 (fun _ => false) 0, .poll 0 (fun _ => false) 0]

/-- The scan hands out what the store held at the first poll. -/
theorem streams_never_leak_overtaken :
    let start := begin (.ofDocuments [("a", .bool true), ("b", .bool false)]) (.ofFields []) 1
    ∃ h, (start.run overtaken).histories[0]? = some h ∧
      handedOut h.answers = [.ok (.bool true), .ok (.bool false)] ∧
      ∃ contributions, h.Contributes contributions ∧
        ∀ e ∈ contributions, start.ReadAt overtaken 0 h e :=
  ⟨_, rfl, by cbv, (streams_never_leak _ _ _ overtaken 0 _ rfl).2⟩

end Scene

end DocQuery
