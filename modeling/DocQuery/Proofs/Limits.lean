import DocQuery.Proofs.SortLimit

/-!
# Limits cut off and replace nothing

A catalog that is asked with a limit answers with the first of the references
it would answer with without one.  They name the first distinct documents, as
many as the limit allows; a document that is named already takes no room
(`ask_limited`, `limit_keeps_first`).

So it is with the documents of a query without a sort, also when the catalog
has not kept up with the store and some of the documents named are gone or
match no more.  For every limit there is a list of documents that the query
hands out in some order, and in this very order if it scans
(`delivers_inTurn`); a limit cuts this list, or the ids that it is looked up
by (`inTurn_cases`).  Whatever the windows and the orders of completion, what a
smaller limit lets through is among what a larger one does
(`limits_only_cut`).
-/

namespace DocQuery

/-- The ids of the documents that an answer names, each where it is first named. -/
def Answer.named (answer : Answer) : List String :=
  (answer.references.filterMap fun
    | .ok reference => reference.documentId?
    | .error _ => none).eraseDups

/-- A smaller limit lets less of the same items through. -/
theorem takeUpTo_mono {α : Type} {limit : Nat} {limit' : Option Nat}
    (hle : ∀ n, limit' = some n → limit ≤ n) (items : List α) :
    takeUpTo (some limit) items <+: takeUpTo limit' items := by
  cases limit' with
  | none => exact List.take_prefix limit items
  | some n => exact List.take_prefix_take_left (hle n rfl)

/-! ## Answers -/

namespace Catalog

/-- The documents that references to pairs name are those of the pairs. -/
theorem named_pairs (field : String) (pairs : List (IndexKey × String)) (limitApplied : Bool) :
    Answer.named ⟨pairs.map fun e => .ok ⟨[field, e.1.encode, e.2]⟩, limitApplied⟩ =
      (pairs.map Prod.snd).eraseDups := by
  simp [Answer.named, List.filterMap_map, Function.comp_def, Reference.documentId?]

section Ask

variable {c : Catalog} {filter : Filter} {reverse : Bool} {orderBy : Option String}

/-- Whether a request is declined does not depend on its limit. -/
theorem ask_eq_none_of_limit (limit limit' : Option Nat) :
    c.ask ⟨filter, limit, reverse, orderBy⟩ = none ↔
      c.ask ⟨filter, limit', reverse, orderBy⟩ = none := by
  simp only [ask, Option.map_eq_none_iff]
  exact Iff.rfl

/-- A request that is served without a limit is served with any limit, by the
first references; they name the first documents, and the limit is applied. -/
theorem ask_limited {all : Answer} (hall : c.ask ⟨filter, none, reverse, orderBy⟩ = some all)
    (limit : Option Nat) :
    ∃ answer, c.ask ⟨filter, limit, reverse, orderBy⟩ = some answer ∧
      answer.references <+: all.references ∧ answer.named = takeUpTo limit all.named ∧
      answer.limitApplied = limit.isSome := by
  obtain ⟨d, hd, rfl⟩ := Option.map_eq_some_iff.mp hall
  obtain ⟨hcontains, _, _⟩ := mem_drives (Drive.best?_mem hd)
  obtain ⟨postings, hpostings⟩ := Option.isSome_iff_exists.mp hcontains
  have haccepted : c.referred d ⟨filter, none, reverse, orderBy⟩ =
      c.accepted d postings ⟨filter, none, reverse, orderBy⟩ := by
    simp only [referred, hpostings, refer_unlimited, accepted]
  cases hask : c.ask ⟨filter, limit, reverse, orderBy⟩ with
  | none =>
      rw [ask_eq_none_of_limit limit none, hall] at hask
      cases hask
  | some answer =>
      obtain ⟨d', postings', cut, hd', hpostings', rfl, hfirst, hnamed⟩ := ask_cases hask
      -- the limit plays no part in the choice of the drive
      cases hd.symm.trans hd'
      cases hpostings.symm.trans hpostings'
      refine ⟨_, rfl, ?_, ?_, rfl⟩
      · rw [haccepted]
        exact hfirst.map _
      · rw [named_pairs, named_pairs, haccepted]
        exact hnamed

/-- **A limit keeps the first references.**  A catalog that serves a request
without a limit serves it with any, and says that it has applied the limit.
The references are the first of those without the limit, and they name the
first of the distinct documents, as many as the limit allows or all of them. -/
theorem limit_keeps_first {all : Answer} (hall : c.ask ⟨filter, none, reverse, orderBy⟩ = some all)
    (limit : Nat) :
    ∃ answer, c.ask ⟨filter, some limit, reverse, orderBy⟩ = some answer ∧
      answer.references <+: all.references ∧
      answer.named = all.named.take limit ∧
      answer.named.length = min limit all.named.length ∧
      answer.limitApplied = true := by
  obtain ⟨answer, hask, hfirst, hnamed, happlied⟩ := ask_limited hall (some limit)
  refine ⟨answer, hask, hfirst, hnamed, ?_, happlied⟩
  rw [hnamed, length_takeUpTo, cappedAt]

/-- A catalog of two documents, the first of which has two keys. -/
def twoFiled : Catalog :=
  ((ofFields ["tags"]).write "d1" (.object [("tags", .array [.string "a", .string "b"])])).write
    "d2" (.object [("tags", .array [.string "c"])])

/-- A limit of two documents lets three references through. -/
theorem limit_keeps_first_twoFiled :
    twoFiled.ask ⟨tagsDefined, none, false, none⟩ =
        some ⟨[.ok ⟨["tags", "s:a", "d1"]⟩, .ok ⟨["tags", "s:b", "d1"]⟩,
          .ok ⟨["tags", "s:c", "d2"]⟩], false⟩ ∧
      ∃ answer, twoFiled.ask ⟨tagsDefined, some 2, false, none⟩ = some answer ∧
        answer.references.length = 3 ∧ answer.named = ["d1", "d2"] ∧
        answer.limitApplied = true := by
  have hall : twoFiled.ask ⟨tagsDefined, none, false, none⟩ =
      some ⟨[.ok ⟨["tags", "s:a", "d1"]⟩, .ok ⟨["tags", "s:b", "d1"]⟩,
        .ok ⟨["tags", "s:c", "d2"]⟩], false⟩ := rfl
  obtain ⟨answer, hask, _, hnamed, _, happlied⟩ := limit_keeps_first hall 2
  refine ⟨hall, answer, hask, ?_, hnamed, happlied⟩
  cases hask
  rfl

end Ask

end Catalog

/-! ## Queries -/

section Queries

variable (c : Catalog) (s : Store) (filter : Filter)

/-- The documents of a query without a sort, in the order of its candidates: those
that match, as many as a limit that is owed allows. -/
def Plan.inTurn (plan : Plan) (s : Store) (filter : Filter) : List Document :=
  takeUpTo plan.postLimit (plan.candidatesIn s filter)

/-- Without a sort a query scans, and then its candidates keep their order, or its
references are limited by the index and no limit is owed. -/
theorem general_unsorted (limit : Option Nat) {plan : Plan}
    (hplan : plan = Plan.general c.index s.view filter none limit) :
    plan.sort = none ∧
      (plan.route = .fullScan ∧ plan.keepsOrder = true ∨
        plan.route = .indexDirect ∧ plan.postLimit = none) := by
  unfold Plan.general at hplan
  cases hask : c.ask (Plan.generalRequest filter none limit) with
  | none =>
      rw [show c.index.ask _ = none from hask] at hplan
      subst hplan
      exact ⟨rfl, Or.inl ⟨rfl, rfl⟩⟩
  | some answer =>
      rw [show c.index.ask _ = some answer from hask] at hplan
      obtain ⟨_, _, _, _, _, rfl, _⟩ := Catalog.ask_cases hask
      subst hplan
      refine ⟨rfl, Or.inr ⟨rfl, ?_⟩⟩
      cases limit <;> rfl

/-- Without a sort the documents are handed out in some order, and if the query
scans, in that of its candidates. -/
theorem delivers_inTurn (limit : Option Nat) (window : Nat) :
    Setting.Delivers ⟨c.index, s.view, window⟩ filter ⟨none, limit⟩ fun documents =>
      documents.Perm ((Plan.general c.index s.view filter none limit).inTurn s filter) ∧
        ((Plan.general c.index s.view filter none limit).route = .fullScan →
          documents = (Plan.general c.index s.view filter none limit).inTurn s filter) := by
  obtain ⟨hstands, _⟩ := general_standsFor c.index_faultless s.view_steady filter none limit
  obtain ⟨hsort, hcases⟩ := general_unsorted c s filter limit rfl
  apply delivers_of_plan (s := ⟨c.index, s.view, window⟩) rfl rfl hstands
  intro arrived harrived
  have hbatch : (Plan.general c.index s.view filter none limit).batch filter.accepts arrived =
      takeUpTo (Plan.general c.index s.view filter none limit).postLimit
        (arrived.filter filter.accepts) := by
    rw [Plan.batch, hsort]
  rw [show c.index.accepts filter = filter.accepts from rfl, hbatch, Plan.inTurn]
  rcases hcases with ⟨_, hkeeps⟩ | ⟨hroute, hpost⟩
  · rw [hkeeps] at harrived
    cases (show _ = arrived from harrived)
    exact ⟨List.Perm.refl _, fun _ => rfl⟩
  · -- the index has applied the limit, so nothing is cut off afterwards
    rw [hpost, hroute]
    exact ⟨(harrived.filter filter.accepts).perm.symm, Route.noConfusion⟩

/-- A limit cuts off the documents of a scan, or the ids that the references name
before they are looked up. -/
theorem inTurn_cases :
    (∃ documents, ∀ limit,
        (Plan.general c.index s.view filter none limit).route = .fullScan ∧
        (Plan.general c.index s.view filter none limit).inTurn s filter =
          takeUpTo limit documents) ∨
      ∃ ids : List String, ∀ limit,
        (Plan.general c.index s.view filter none limit).route = .indexDirect ∧
        (Plan.general c.index s.view filter none limit).inTurn s filter =
          ((takeUpTo limit ids).filterMap s.get?).filter filter.accepts := by
  cases hall : c.ask ⟨filter, none, false, none⟩ with
  | none =>
      have hask : ∀ limit, c.index.ask (Plan.generalRequest filter none limit) = none :=
        fun limit => (Catalog.ask_eq_none_of_limit none limit).mp hall
      refine Or.inl ⟨(Plan.general c.index s.view filter none none).candidatesIn s filter, ?_⟩
      intro limit
      simp only [Plan.inTurn, Plan.general, hask]
      exact ⟨trivial, rfl⟩
  | some all =>
      refine Or.inr ⟨all.named, ?_⟩
      intro limit
      obtain ⟨answer, hask, _, hnamed, happlied⟩ := Catalog.ask_limited hall limit
      have hgeneral : Plan.general c.index s.view filter none limit =
          ⟨.references answer.references, .indexDirect, none, none, false⟩ := by
        unfold Plan.general
        rw [show c.index.ask (Plan.generalRequest filter none limit) = some answer from hask]
        simp only [happlied]
        cases limit <;> rfl
      rw [hgeneral, ← hnamed]
      exact ⟨rfl, rfl⟩

/-- As many documents at most as a limit allows, and the first of those that a
larger limit, or none, would let through. -/
theorem inTurn_cut (limit : Nat) (limit' : Option Nat)
    (hle : ∀ n, limit' = some n → limit ≤ n) :
    ((Plan.general c.index s.view filter none (some limit)).inTurn s filter).length ≤ limit ∧
      (Plan.general c.index s.view filter none (some limit)).inTurn s filter <+:
        (Plan.general c.index s.view filter none limit').inTurn s filter ∧
      (Plan.general c.index s.view filter none (some limit)).route =
        (Plan.general c.index s.view filter none limit').route := by
  rcases inTurn_cases c s filter with ⟨documents, hcut⟩ | ⟨ids, hcut⟩
  · obtain ⟨hroute, hinTurn⟩ := hcut (some limit)
    obtain ⟨hroute', hinTurn'⟩ := hcut limit'
    rw [hroute, hinTurn, hroute', hinTurn']
    exact ⟨List.length_take_le _ _, takeUpTo_mono hle documents, rfl⟩
  · obtain ⟨hroute, hinTurn⟩ := hcut (some limit)
    obtain ⟨hroute', hinTurn'⟩ := hcut limit'
    rw [hroute, hinTurn, hroute', hinTurn']
    refine ⟨?_, ((takeUpTo_mono hle ids).filterMap _).filter _, rfl⟩
    calc (((takeUpTo (some limit) ids).filterMap s.get?).filter filter.accepts).length
        ≤ ((takeUpTo (some limit) ids).filterMap s.get?).length := List.length_filter_le _ _
      _ ≤ (takeUpTo (some limit) ids).length := List.length_filterMap_le _ _
      _ ≤ limit := List.length_take_le _ _

/-- **Limits only cut.**  Whether or not the catalog has kept up with the store,
a query with a limit hands out as many documents at most as the limit allows.
Together with their repetitions they are among those that any run of the query
with a larger limit hands out, and these among those that any run without a
limit does.  If the query scans, they are the first of them. -/
theorem limits_only_cut {limit limit' : Nat} (hle : limit ≤ limit')
    (window window' window'' : Nat) :
    ∃ plan, (Plan.choose c.index s.view filter ⟨none, some limit⟩).outcome = .ok plan ∧
      Setting.Delivers ⟨c.index, s.view, window⟩ filter ⟨none, some limit⟩ fun few =>
        few.length ≤ limit ∧
        Setting.Delivers ⟨c.index, s.view, window'⟩ filter ⟨none, some limit'⟩ fun more =>
          few.Subperm more ∧
          Setting.Delivers ⟨c.index, s.view, window''⟩ filter ⟨none, none⟩ fun all =>
            more.Subperm all ∧
            (plan.route = .fullScan → few <+: more ∧ more <+: all) := by
  obtain ⟨hlength, hfirst, hroute⟩ := inTurn_cut c s filter limit (some limit')
    (fun n hn => Option.some.inj hn ▸ hle)
  obtain ⟨_, hfirst', hroute'⟩ := inTurn_cut c s filter limit' none nofun
  refine ⟨_, rfl, (delivers_inTurn c s filter (some limit) window).imp ?_⟩
  intro few hfew
  refine ⟨hfew.1.length_eq.trans_le hlength,
    (delivers_inTurn c s filter (some limit') window').imp ?_⟩
  intro more hmore
  have hsub : few.Subperm more :=
    (hfew.1.subperm.trans hfirst.sublist.subperm).trans hmore.1.symm.subperm
  refine ⟨hsub, (delivers_inTurn c s filter none window'').imp ?_⟩
  intro all hall
  have hsub' : more.Subperm all :=
    (hmore.1.subperm.trans hfirst'.sublist.subperm).trans hall.1.symm.subperm
  refine ⟨hsub', fun hscan => ?_⟩
  rw [hfew.2 hscan, hmore.2 (hroute ▸ hscan), hall.2 (hroute' ▸ hroute ▸ hscan)]
  exact ⟨hfirst, hfirst'⟩

/-- A catalog that still files a document that is gone from the store: a limit of
one document may hand out none, and not the next one instead. -/
theorem limits_only_cut_twoFiled :
    1 ≤ 2 ∧
      Setting.Delivers ⟨Catalog.twoFiled.index, (twoTagged.delete "d1").view, 3⟩ tagsDefined
        ⟨none, some 1⟩ fun few => few.length ≤ 1 ∧
          Setting.Delivers ⟨Catalog.twoFiled.index, (twoTagged.delete "d1").view, 1⟩ tagsDefined
            ⟨none, some 2⟩ (few.Subperm ·) := by
  obtain ⟨_, _, hcut⟩ := limits_only_cut Catalog.twoFiled (twoTagged.delete "d1") tagsDefined
    (by decide : 1 ≤ 2) 3 1 2
  exact ⟨by decide, hcut.imp fun few hfew =>
    ⟨hfew.1, hfew.2.imp fun more hmore => hmore.1⟩⟩

end Queries

end DocQuery
