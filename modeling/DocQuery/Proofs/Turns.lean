import DocQuery.Proofs.Pipeline
import DocQuery.Query.Basic

/-!
# Queries from their creation to their end

A query is polled again and again, each time while the lookups of some ids
are held back, and in between lookups that were found to be held may go on.
`Setting.serve` makes such turns in any number and any order, over an index
and a store that stay as they are; so "for every order of completion and
every schedule of polls" is "for all lists of turns".

`Setting.Concludes` is the contract of a query: a run that has come to its
end has handed out what a postcondition allows, and every run, however far it
has come, can be brought to its end.

* `serve_owes` — the run lemma: what an ended run has handed out was owed;
* `exists_ended` — release what waits and poll: the query ends;
* `concludes_of_owes` — the contract, from what the first pipeline owes.
-/

namespace DocQuery

/-- What happens to a query after its creation. -/
inductive Turn where
  /-- the query is polled, the lookups of some ids being held back -/
  | poll (held : String → Bool) (now : Nat)
  /-- lookups of an id that were found to be held may go on -/
  | release (id : String)

/-- What stays the same while a query runs: the index, the store, and how many
lookups may be outstanding. -/
structure Setting where
  index : Index
  store : StoreView
  window : Nat

namespace Setting

/-- What a query finds around it at a poll. -/
def world (s : Setting) (held : String → Bool) (now : Nat) : World where
  index := s.index
  store := s.store
  held := held
  window := s.window
  now := now

/-- Makes some turns; the answers to the polls among them, in order. -/
def serve (s : Setting) :
    List Turn → Query → Journal → List (Polled (Except Fault Document)) × Query × Journal
  | [], q, j => ([], q, j)
  | .poll held now :: rest, q, j =>
    let (answer, q', j') := q.poll (s.world held now) j
    let (answers, q'', j'') := s.serve rest q' j'
    (answer :: answers, q'', j'')
  | .release id :: rest, q, j => s.serve rest (q.releaseHeld id) j

/-- The answers of a new query to the polls among some turns. -/
def answers (s : Setting) (filter : Filter) (options : Options) (id : String) (now : Nat)
    (j : Journal) (turns : List Turn) : List (Polled (Except Fault Document)) :=
  let (q, j) := Query.create filter options id now j
  (s.serve turns q j).1

end Setting

/-- The items among some answers. -/
def handedOut (answers : List (Polled (Except Fault Document))) : List (Except Fault Document) :=
  answers.filterMap Polled.item?

/-- The contract of a query.  Whatever turns it takes, once it has ended it has
handed out what `post` allows; and whatever turns it has taken, more turns
bring it to its end. -/
structure Setting.Concludes (s : Setting) (filter : Filter) (options : Options)
    (post : List (Except Fault Document) → Prop) : Prop where
  result : ∀ id now j turns, .ended ∈ s.answers filter options id now j turns →
    post (handedOut (s.answers filter options id now j turns))
  progress : ∀ id now j turns, ∃ more,
    .ended ∈ s.answers filter options id now j (turns ++ more)

/-- The contract of a query that meets no fault: it concludes with documents
that `post` allows. -/
def Setting.Delivers (s : Setting) (filter : Filter) (options : Options)
    (post : List Document → Prop) : Prop :=
  s.Concludes filter options fun items =>
    ∃ documents, items = documents.map .ok ∧ post documents

/-- A query that delivers what one postcondition allows delivers what any
weaker one does. -/
theorem Setting.Delivers.imp {s : Setting} {filter : Filter} {options : Options}
    {post post' : List Document → Prop} (h : s.Delivers filter options post)
    (hpost : ∀ documents, post documents → post' documents) : s.Delivers filter options post' where
  result id now j turns hended := by
    obtain ⟨documents, hitems, hdocuments⟩ := h.result id now j turns hended
    exact ⟨documents, hitems, hpost documents hdocuments⟩
  progress := h.progress

/-- Some documents are allowed by whatever a query delivers. -/
theorem Setting.Delivers.exists_both {s : Setting} {filter : Filter} {options : Options}
    {post post' : List Document → Prop} (h : s.Delivers filter options post)
    (h' : s.Delivers filter options post') : ∃ documents, post documents ∧ post' documents := by
  obtain ⟨turns, hended⟩ := h.progress "" 0 .blank []
  obtain ⟨documents, hitems, hpost⟩ := h.result "" 0 .blank turns hended
  obtain ⟨documents', hitems', hpost'⟩ := h'.result "" 0 .blank turns hended
  have heq : documents = documents' :=
    List.map_injective_iff.mpr (fun _ _ => Except.ok.inj) (hitems.symm.trans hitems')
  exact ⟨documents, hpost, heq ▸ hpost'⟩

namespace Setting

variable {s : Setting} {inOrder : Bool}

/-- The stages that the first poll of a query sets up. -/
def pipeline (s : Setting) (filter : Filter) (options : Options) : Pipeline :=
  match (Plan.choose s.index s.store filter options).outcome with
  | .ok plan => .ofPlan plan s.window (s.index.accepts filter)
  | .error fault => .ofFault fault

/-- The stages that the next poll of a query will poll, unless it is over. -/
def upcoming (s : Setting) (q : Query) : Option Pipeline :=
  match q.stage with
  | .unpolled => some (s.pipeline q.filter q.options)
  | .running p => some p
  | .over => none

/-- What a query may hand out until it ends. -/
def Owes (s : Setting) (inOrder : Bool) (q : Query) (items : List (Except Fault Document)) : Prop :=
  match s.upcoming q with
  | some p => p.Owes inOrder s.store.lookup items
  | none => items = []

/-- The stages of a query may go on. -/
def Sound (s : Setting) (inOrder : Bool) (q : Query) : Prop :=
  ∀ p, s.upcoming q = some p → p.source.Sound inOrder

/-- A query that is over answers that it has ended, for ever. -/
theorem poll_over {q : Query} (hq : s.upcoming q = none) (w : World) (j : Journal) :
    q.poll w j = (.ended, q, j) := by
  unfold upcoming at hq
  unfold Query.poll
  split at hq <;> simp_all

/-- A poll of a query answers as its stages do.  It goes on with them unless
they answered a fault or the end. -/
theorem poll_upcoming {q : Query} {p : Pipeline} (hq : s.upcoming q = some p)
    (held : String → Bool) (now : Nat) (j : Journal) :
    (q.poll (s.world held now) j).1 = (p.poll ⟨s.store.lookup, held⟩).1 ∧
      s.upcoming (q.poll (s.world held now) j).2.1 =
        match p.poll ⟨s.store.lookup, held⟩ with
        | (.pending, p') | (.item (.ok _), p') => some p'
        | (.item (.error _), _) | (.ended, _) => none := by
  have hadvance : ∃ j', q.poll (s.world held now) j = q.advance p (s.world held now) j' := by
    unfold upcoming at hq
    unfold Query.poll
    cases hstage : q.stage with
    | unpolled =>
        simp only [hstage, Option.some.injEq] at hq
        refine ⟨(q.prepare (s.world held now) j).2, ?_⟩
        have hprepared : (q.prepare (s.world held now) j).1 = p := by
          rw [← hq]
          simp only [Query.prepare, pipeline, world]
          cases (Plan.choose s.index s.store q.filter q.options).outcome <;> rfl
        rw [← hprepared]
    | running p₀ =>
        simp only [hstage, Option.some.injEq] at hq
        exact ⟨j, by rw [hq]⟩
    | _ => simp [hstage] at hq
  obtain ⟨j', hadvance⟩ := hadvance
  have hreads : (s.world held now).reads = ⟨s.store.lookup, held⟩ := rfl
  rw [hadvance]
  simp only [Query.advance, hreads]
  rcases p.poll ⟨s.store.lookup, held⟩ with ⟨(fault | document) | _ | _, p'⟩ <;>
    exact ⟨rfl, rfl⟩

/-- No lookup of a query waits before its first poll. -/
theorem pipeline_releaseHeld (filter : Filter) (options : Options) (id : String) :
    (s.pipeline filter options).releaseHeld id = s.pipeline filter options := by
  unfold pipeline
  cases (Plan.choose s.index s.store filter options).outcome with
  | error fault => rfl
  | ok plan =>
      cases hcandidates : plan.candidates <;>
        simp [Pipeline.releaseHeld, Pipeline.ofPlan, hcandidates, Source.release,
          Resolution.release, Resolution.ofIds, Resolution.idle]

/-- Releasing lookups releases those of the stages. -/
theorem upcoming_releaseHeld (q : Query) (id : String) :
    s.upcoming (q.releaseHeld id) = (s.upcoming q).map (·.releaseHeld id) := by
  cases hstage : q.stage with
  | unpolled =>
      have hq : q.releaseHeld id = q := by simp [Query.releaseHeld, hstage]
      simp [hq, upcoming, hstage, pipeline_releaseHeld]
  | running p => simp [Query.releaseHeld, upcoming, hstage]
  | _ =>
      have hq : q.releaseHeld id = q := by simp [Query.releaseHeld, hstage]
      simp [hq, upcoming, hstage]

/-- Turns that follow others follow the query and the journal these leave. -/
theorem serve_append (first second : List Turn) (q : Query) (j : Journal) :
    (s.serve (first ++ second) q j).1 =
      (s.serve first q j).1 ++
        (s.serve second (s.serve first q j).2.1 (s.serve first q j).2.2).1 := by
  induction first generalizing q j with
  | nil => rfl
  | cons turn rest ih =>
      cases turn with
      | poll held now => simp [serve, ih]
      | release id => simp [serve, ih]

/-- A query that is over hands out nothing any more. -/
theorem handedOut_serve_over {q : Query} (hq : s.upcoming q = none) (turns : List Turn)
    (j : Journal) : handedOut (s.serve turns q j).1 = [] := by
  induction turns generalizing q j with
  | nil => rfl
  | cons turn rest ih =>
      cases turn with
      | poll held now =>
          simp only [serve, poll_over hq]
          simpa [handedOut, Polled.item?] using ih hq j
      | release id => exact ih (by simp [upcoming_releaseHeld, hq]) j

/-- Turns leave stages that may go on. -/
theorem sound_serve {q : Query} (hq : s.Sound inOrder q) (turns : List Turn) (j : Journal) :
    s.Sound inOrder (s.serve turns q j).2.1 := by
  induction turns generalizing q j with
  | nil => exact hq
  | cons turn rest ih =>
      cases turn with
      | release id =>
          have hq' : s.Sound inOrder (q.releaseHeld id) := by
            intro p hp
            rw [upcoming_releaseHeld, Option.map_eq_some_iff] at hp
            obtain ⟨p₀, hp₀, rfl⟩ := hp
            exact (Pipeline.releaseHeld_owes ⟨s.store.lookup, fun _ => false⟩
              (hq p₀ hp₀) id).2
          exact ih hq' j
      | poll held now =>
          have hq' : s.Sound inOrder (q.poll (s.world held now) j).2.1 := by
            intro p hp
            cases hup : s.upcoming q with
            | none =>
                rw [poll_over hup] at hp
                exact hq p hp
            | some p₀ =>
                have howes := Pipeline.poll_owes ⟨s.store.lookup, held⟩ (hq p₀ hup)
                rw [(poll_upcoming hup held now j).2] at hp
                rcases hpoll : p₀.poll ⟨s.store.lookup, held⟩ with
                  ⟨(fault | document) | _ | _, p'⟩ <;> rw [hpoll] at howes hp <;>
                  simp only [reduceCtorEq, Option.some.injEq] at hp
                · exact hp ▸ howes.2
                · exact hp ▸ howes.2
          exact ih hq' _

/-- **The run lemma.**  What an ended run has handed out was owed at its start. -/
theorem serve_owes {q : Query} (hq : s.Sound inOrder q) (turns : List Turn) (j : Journal)
    (hended : .ended ∈ (s.serve turns q j).1) :
    s.Owes inOrder q (handedOut (s.serve turns q j).1) := by
  induction turns generalizing q j with
  | nil => simp [serve] at hended
  | cons turn rest ih =>
      cases turn with
      | release id =>
          have hq' : s.Sound inOrder (q.releaseHeld id) :=
            sound_serve hq [.release id] j
          have hturn : s.serve (.release id :: rest) q j = s.serve rest (q.releaseHeld id) j := rfl
          rw [hturn] at hended ⊢
          have hrest := ih hq' j hended
          cases hup : s.upcoming q with
          | none =>
              rw [Owes, upcoming_releaseHeld, hup] at hrest
              rwa [Owes, hup]
          | some p =>
              rw [Owes, upcoming_releaseHeld, hup] at hrest
              rw [Owes, hup]
              exact (Pipeline.releaseHeld_owes ⟨s.store.lookup, fun _ => false⟩ (hq p hup) id).1 _
                hrest
      | poll held now =>
          cases hup : s.upcoming q with
          | none =>
              rw [Owes, hup]
              exact handedOut_serve_over hup _ j
          | some p =>
              have hq' : s.Sound inOrder (q.poll (s.world held now) j).2.1 :=
                sound_serve hq [.poll held now] j
              obtain ⟨hanswer, hup'⟩ := poll_upcoming hup held now j
              have howes := Pipeline.poll_owes ⟨s.store.lookup, held⟩ (hq p hup)
              simp only [serve] at hended ⊢
              rw [hanswer] at hended ⊢
              simp only [Owes, hup]
              rcases hpoll : p.poll ⟨s.store.lookup, held⟩ with ⟨(fault | document) | _ | _, p'⟩ <;>
                rw [hpoll] at howes hup' hended <;>
                simp only [handedOut, Polled.item?, List.filterMap_cons]
              · rw [show List.filterMap Polled.item? _ = [] from handedOut_serve_over hup' _ _]
                exact howes
              · have hrest := ih hq' _ (by simpa using hended)
                rw [Owes, hup'] at hrest
                exact howes.1 _ hrest
              · have hrest := ih hq' _ (by simpa using hended)
                rw [Owes, hup'] at hrest
                exact howes.1 _ hrest
              · rw [show List.filterMap Polled.item? _ = [] from handedOut_serve_over hup' _ _]
                exact howes

/-! ## Progress -/

/-- Polls of a query none of whose lookups waits bring it to its end, as many
as there are items left and one more. -/
theorem exists_ended_of_free {q : Query} (hq : s.Sound inOrder q)
    (hfree : ∀ p, s.upcoming q = some p → p.source.Free) (j : Journal) :
    ∃ more, .ended ∈ (s.serve more q j).1 := by
  cases hup : s.upcoming q with
  | none => exact ⟨[.poll (fun _ => false) 0], by simp [serve, poll_over hup]⟩
  | some p =>
      induction hsize : p.size using Nat.strongRecOn generalizing q p j with
      | ind n ih =>
          have hq' : s.Sound inOrder (q.poll (s.world (fun _ => false) 0) j).2.1 :=
            sound_serve hq [.poll (fun _ => false) 0] j
          obtain ⟨hanswer, hup'⟩ := poll_upcoming hup (fun _ => false) 0 j
          obtain ⟨hbusy, hfree'⟩ := Pipeline.poll_free (hq p hup) (hfree p hup)
            (show ∀ id, (⟨s.store.lookup, fun _ => false⟩ : Reads).held id = false from
              fun _ => rfl)
          rcases hpoll : p.poll ⟨s.store.lookup, fun _ => false⟩ with
            ⟨(fault | document) | _ | _, p'⟩ <;>
            rw [hpoll] at hup' hanswer hbusy hfree'
          · refine ⟨[.poll (fun _ => false) 0, .poll (fun _ => false) 0], ?_⟩
            simp [serve, poll_over hup']
          · have hlt := Pipeline.size_poll_lt hpoll
            obtain ⟨more, hmore⟩ := ih p'.size (by omega) hq'
              (fun p₁ hp₁ => by
                rw [hup', Option.some.injEq] at hp₁
                exact hp₁ ▸ hfree')
              (q.poll (s.world (fun _ => false) 0) j).2.2 p' hup' rfl
            exact ⟨.poll (fun _ => false) 0 :: more, by simp [serve, hmore]⟩
          · exact absurd rfl hbusy
          · exact ⟨[.poll (fun _ => false) 0], by simp [serve, hanswer]⟩

/-- Releasing the lookups of some ids is one turn after the other, and reaches
the stages. -/
theorem serve_release (ids : List String) (q : Query) (turns : List Turn) (j : Journal) :
    s.serve (ids.map .release ++ turns) q j = s.serve turns (ids.foldl Query.releaseHeld q) j ∧
      s.upcoming (ids.foldl Query.releaseHeld q) =
        (s.upcoming q).map (ids.foldl Pipeline.releaseHeld ·) := by
  induction ids generalizing q with
  | nil => exact ⟨rfl, by simp⟩
  | cons id rest ih =>
      obtain ⟨hturns, hup⟩ := ih (q.releaseHeld id)
      refine ⟨hturns, hup.trans ?_⟩
      rw [upcoming_releaseHeld, Option.map_map]
      rfl

/-- Releasing what waits and polling brings any query to its end. -/
theorem exists_ended {q : Query} (hq : s.Sound inOrder q) (j : Journal) :
    ∃ more, .ended ∈ (s.serve more q j).1 := by
  cases hup : s.upcoming q with
  | none => exact exists_ended_of_free hq (by simp [hup]) j
  | some p =>
      obtain ⟨ids, hids⟩ := p.exists_release_free
      have hq' : s.Sound inOrder (ids.foldl Query.releaseHeld q) := by
        have hsound := sound_serve hq (ids.map .release) j
        rwa [← List.append_nil (ids.map Turn.release), (serve_release ids q [] j).1] at hsound
      have hfree : ∀ p', s.upcoming (ids.foldl Query.releaseHeld q) = some p' →
          p'.source.Free := by
        intro p' hp'
        rw [(serve_release ids q [] j).2, hup, Option.map_some, Option.some.injEq] at hp'
        exact hp' ▸ hids
      obtain ⟨more, hmore⟩ := exists_ended_of_free hq' hfree j
      exact ⟨ids.map .release ++ more, by rwa [(serve_release ids q more j).1]⟩

/-- A query concludes with what its first stages owe. -/
theorem concludes_of_owes {filter : Filter} {options : Options}
    {post : List (Except Fault Document) → Prop}
    (hsound : (s.pipeline filter options).source.Sound inOrder)
    (hpost : ∀ items, (s.pipeline filter options).Owes inOrder s.store.lookup items → post items) :
    s.Concludes filter options post := by
  have hcreated : ∀ id now j, s.upcoming (Query.create filter options id now j).1 =
      some (s.pipeline filter options) := fun _ _ _ => rfl
  have hq : ∀ id now j, s.Sound inOrder (Query.create filter options id now j).1 := by
    intro id now j p hp
    rw [hcreated, Option.some.injEq] at hp
    exact hp ▸ hsound
  constructor
  · intro id now j turns hended
    have howes := serve_owes (hq id now j) turns _ hended
    rw [Owes, hcreated] at howes
    exact hpost _ howes
  · intro id now j turns
    obtain ⟨more, hmore⟩ := exists_ended (sound_serve (hq id now j) turns _) _
    refine ⟨more, ?_⟩
    simp only [answers, serve_append]
    exact List.mem_append_right _ hmore

/-- More turns leave handed out what was handed out before. -/
theorem mem_handedOut_append {filter : Filter} {options : Options} {id : String} {now : Nat}
    {j : Journal} {turns : List Turn} (more : List Turn) {item : Except Fault Document}
    (h : item ∈ handedOut (s.answers filter options id now j turns)) :
    item ∈ handedOut (s.answers filter options id now j (turns ++ more)) := by
  simp only [answers, serve_append, handedOut, List.filterMap_append] at h ⊢
  exact List.mem_append_left _ h

/-- What a query has never handed out when it has ended it never hands out at all. -/
theorem Concludes.never {filter : Filter} {options : Options}
    {post : List (Except Fault Document) → Prop} (h : s.Concludes filter options post)
    {item : Except Fault Document} (hpost : ∀ items, post items → item ∉ items)
    (id : String) (now : Nat) (j : Journal) (turns : List Turn) :
    item ∉ handedOut (s.answers filter options id now j turns) := by
  intro hitem
  obtain ⟨more, hended⟩ := h.progress id now j turns
  exact hpost _ (h.result id now j _ hended) (mem_handedOut_append more hitem)

end Setting

end DocQuery
