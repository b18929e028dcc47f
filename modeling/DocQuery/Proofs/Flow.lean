import DocQuery.Proofs.Settling
import Mathlib.Data.List.Perm.Subperm

/-!
# How items flow through a pipeline

A source holds items, or lookups that will become items; a poll starts more
lookups, and lets items out.  `Source.Progress` says which lookups were
started and which items came out, and that nothing else has changed: the stock
of a source and the items found since are the items that came out and the
stock that is left.  Behind the source a filter leaves items out and a sort
holds documents back, so whatever a pipeline hands out, or still holds, was
in it before or was found since.

Unlike what a pipeline owes, none of this depends on what later lookups will
find, so it holds over a store that changes from poll to poll.

* `Source.Progress.trans` — what several polls of a source do;
* `Source.poll_progress`, `Source.next_progress`, `Source.collect_progress` —
  what each stage lets out;
* `Pipeline.poll_progress` — the step lemma: one poll of all stages.
-/

namespace DocQuery

/-- The fault in place of an id, as an item. -/
def faultItem? : Except Fault String → Option (Except Fault Document)
  | .ok _ => none
  | .error fault => some (.error fault)

namespace Source

/-- The lookups outstanding. -/
def outstanding : Source → List Lookup
  | .snapshot _ => []
  | .resolution r => r.outstanding

/-- The items that are in a source: those of a snapshot, or those that were
found by lookups outstanding, and faults in place of ids. -/
def stock : Source → List (Except Fault Document)
  | .snapshot rest => rest
  | .resolution r => r.outstanding.filterMap Lookup.item? ++ r.arrived.filterMap faultItem?

/-- The ids that have been looked up or are to be looked up. -/
def named : Source → List String
  | .snapshot _ => []
  | .resolution r => r.started ++ r.arrived.filterMap Except.toOption

/-- The ids looked up are the first of those named. -/
theorem started_prefix_named (s : Source) : s.started <+: s.named := by
  cases s with
  | snapshot rest => exact List.prefix_rfl
  | resolution r => exact List.prefix_append _ _

/-- What has happened from `s` to `s'`: the lookups `lookups` were started, and
`items` came out. -/
structure Progress (s s' : Source) (lookups : List Lookup) (items : List (Except Fault Document)) :
    Prop where
  started : s'.started = s.started ++ lookups.map Lookup.id
  named : s'.named = s.named
  dropped : s.dropped ≤ s'.dropped
  missing : s.dropped + (s.outstanding ++ lookups).countP Lookup.isMissing =
    s'.dropped + s'.outstanding.countP Lookup.isMissing
  flow : (s.stock ++ lookups.filterMap Lookup.item?).Perm (items ++ s'.stock)

namespace Progress

variable {s s₁ s₂ : Source} {lookups lookups' : List Lookup}
  {items items' : List (Except Fault Document)}

/-- Nothing has happened. -/
theorem refl (s : Source) : Progress s s [] [] where
  started := by simp
  named := rfl
  dropped := Nat.le_refl _
  missing := by simp
  flow := by simp

/-- One stretch of progress after the other is progress. -/
theorem trans (h : Progress s s₁ lookups items) (h' : Progress s₁ s₂ lookups' items') :
    Progress s s₂ (lookups ++ lookups') (items ++ items') where
  started := by rw [h'.started, h.started, List.map_append, List.append_assoc]
  named := h'.named.trans h.named
  dropped := h.dropped.trans h'.dropped
  missing := by
    have hfirst := h.missing
    have hsecond := h'.missing
    simp only [List.countP_append] at hfirst hsecond ⊢
    omega
  flow := by
    have hfirst := h.flow.append_right (lookups'.filterMap Lookup.item?)
    have hsecond := h'.flow.append_left items
    simp only [List.filterMap_append, List.append_assoc] at hfirst hsecond ⊢
    exact hfirst.trans hsecond

end Progress

section Poll

variable (reads : Reads) (accepts : Document → Bool)

/-- The progress of a resolution is progress of the source. -/
theorem progress_of_resolution {r r' : Resolution} {taken : List String} {settled : List Lookup}
    {met : List Fault} (h : Resolution.Progress reads r r' taken settled met) :
    Progress (.resolution r) (.resolution r') (taken.map reads.lookup)
      (settled.filterMap Lookup.item? ++ met.map .error) where
  started := by
    simp only [started, h.started, reads.map_id_lookup]
  named := by
    have hfaults : (met.map (.error : Fault → Except Fault String)).filterMap Except.toOption =
        [] := by simp [List.filterMap_map, Function.comp_def, Except.toOption]
    simp only [named, h.started, h.arrived, List.filterMap_append, hfaults]
    simp [List.filterMap_map, Function.comp_def, Except.toOption]
  dropped := by
    show r.dropped ≤ r'.dropped
    rw [h.dropped]
    exact Nat.le_add_right _ _
  missing := by
    have hcount := h.account.countP_eq Lookup.isMissing
    show r.dropped + (r.outstanding ++ taken.map reads.lookup).countP Lookup.isMissing =
      r'.dropped + r'.outstanding.countP Lookup.isMissing
    rw [h.dropped, hcount, List.countP_append, Nat.add_assoc]
  flow := by
    have hitems := h.account.filterMap Lookup.item?
    have hids : (taken.map (.ok : String → Except Fault String)).filterMap faultItem? = [] := by
      simp [List.filterMap_map, Function.comp_def, faultItem?]
    have hmet : (met.map (.error : Fault → Except Fault String)).filterMap faultItem? =
        met.map .error := by
      simp [List.filterMap_map, Function.comp_def, faultItem?]
    simp only [stock, h.arrived, List.filterMap_append, hids, hmet, List.nil_append] at hitems ⊢
    have hall := hitems.append_right (met.map .error ++ r'.arrived.filterMap faultItem?)
    simp only [List.append_assoc] at hall ⊢
    refine List.Perm.trans ?_ (hall.trans (List.Perm.append_left _ ?_))
    · refine List.Perm.append_left _ (List.Perm.trans ?_ (List.perm_append_comm_assoc _ _ _))
      exact List.Perm.append_left _ List.perm_append_comm
    · exact List.perm_append_comm_assoc _ _ _

/-- A poll lets out the item that it answers. -/
theorem poll_progress (s : Source) :
    ∃ taken : List String,
      Progress s (s.poll reads).2 (taken.map reads.lookup) (s.poll reads).1.item?.toList := by
  cases s with
  | snapshot rest =>
      cases rest with
      | nil => exact ⟨[], Progress.refl _⟩
      | cons next rest =>
          exact ⟨[], by simp [poll, started], rfl, Nat.le_refl _, rfl,
            by simp [poll, stock, Polled.item?]⟩
  | resolution r =>
      obtain ⟨taken, settled, met, hprogress, hitem, _⟩ := Resolution.poll_progress reads r
      refine ⟨taken, ?_⟩
      simp only [poll, ← hitem]
      exact progress_of_resolution reads hprogress

/-- Polling for an accepted item lets others out before it. -/
theorem next_progress (s : Source) :
    ∃ (taken : List String) (items : _),
      Progress s (s.next reads accepts).2 (taken.map reads.lookup) items ∧
      items.filter (passes accepts) = (s.next reads accepts).1.item?.toList := by
  fun_induction next reads accepts s with
  | case1 s document s₁ hpoll haccepts =>
      obtain ⟨taken, hprogress⟩ := poll_progress reads s
      rw [hpoll] at hprogress
      exact ⟨taken, _, hprogress, by simp [Polled.item?, passes, haccepts]⟩
  | case2 s document s₁ hpoll haccepts ih =>
      obtain ⟨taken, hprogress⟩ := poll_progress reads s
      obtain ⟨taken', items, hprogress', hitems⟩ := ih
      rw [hpoll] at hprogress
      refine ⟨taken ++ taken', .ok document :: items, ?_, ?_⟩
      · rw [List.map_append]
        exact hprogress.trans hprogress'
      · simpa [Polled.item?, passes, haccepts] using hitems
  | case3 s fault s₁ hpoll =>
      obtain ⟨taken, hprogress⟩ := poll_progress reads s
      rw [hpoll] at hprogress
      exact ⟨taken, _, hprogress, by simp [Polled.item?, passes]⟩
  | case4 s s₁ hpoll | case5 s s₁ hpoll =>
      obtain ⟨taken, hprogress⟩ := poll_progress reads s
      rw [hpoll] at hprogress
      exact ⟨taken, _, hprogress, rfl⟩

/-- Collecting lets items out, and keeps the accepted documents among them; a
fault is the last of them. -/
theorem collect_progress (s : Source) (found : List Document) :
    ∃ (taken : List String) (items : _),
      Progress s (s.collect reads accepts found).2 (taken.map reads.lookup) items ∧
      match (s.collect reads accepts found).1 with
      | .all documents | .sofar documents =>
        documents.reverse.map .ok = found.reverse.map .ok ++ items.filter (passes accepts)
      | .fault fault => .error fault ∈ items.filter (passes accepts) := by
  fun_induction collect reads accepts s found with
  | case1 s found document s₁ hnext ih =>
      obtain ⟨taken, items, hprogress, hitem⟩ := next_progress reads accepts s
      obtain ⟨taken', items', hprogress', hfound⟩ := ih
      rw [hnext] at hprogress hitem
      refine ⟨taken ++ taken', items ++ items', ?_, ?_⟩
      · rw [List.map_append]
        exact hprogress.trans hprogress'
      have hfilter : (items ++ items').filter (passes accepts) =
          .ok document :: items'.filter (passes accepts) := by
        rw [List.filter_append, hitem]
        rfl
      rw [hfilter]
      split at hfound
      · simpa using hfound
      · simpa using hfound
      · exact List.mem_cons_of_mem _ hfound
  | case2 s found fault s₁ hnext =>
      obtain ⟨taken, items, hprogress, hitem⟩ := next_progress reads accepts s
      rw [hnext] at hprogress hitem
      exact ⟨taken, items, hprogress, by simp [hitem, Polled.item?]⟩
  | case3 s found s₁ hnext | case4 s found s₁ hnext =>
      obtain ⟨taken, items, hprogress, hitem⟩ := next_progress reads accepts s
      rw [hnext] at hprogress hitem
      exact ⟨taken, items, hprogress, by simp [hitem, Polled.item?]⟩

end Poll

end Source

namespace Pipeline

/-- The documents that a sort holds back. -/
def held (p : Pipeline) : List (Except Fault Document) :=
  match p.sorting with
  | .unsorted => []
  | .collecting _ found => found.map .ok
  | .released rest => rest.map .ok

/-- Documents that are released are handed out or still held, and nothing else
changes. -/
theorem release_held (p : Pipeline) (rest : List Document) :
    (p.release rest).1.item?.toList ++ (p.release rest).2.held = rest.map .ok ∧
      (p.release rest).2.source = p.source ∧ (p.release rest).2.accepts = p.accepts ∧
      (p.release rest).2.remaining = p.remaining := by
  cases rest <;> exact ⟨rfl, rfl, rfl, rfl⟩

/-- What has happened from `p` to `p'`: the lookups `lookups` were started, the
items `came` came out of the source, and `out` was handed out. -/
structure Progress (p p' : Pipeline) (lookups : List Lookup)
    (came out : List (Except Fault Document)) : Prop where
  source : p.source.Progress p'.source lookups came
  accepts : p'.accepts = p.accepts
  kept : (out ++ p'.held).Subperm (p.held ++ came.filter (passes p.accepts))
  limit : p.remaining = p'.remaining.map (· + out.length)

namespace Progress

variable {p p₁ p₂ : Pipeline} {lookups lookups' : List Lookup}
  {came came' out out' : List (Except Fault Document)}

/-- Nothing has happened. -/
theorem refl (p : Pipeline) : Progress p p [] [] [] where
  source := Source.Progress.refl _
  accepts := rfl
  kept := by simp [List.Subperm.refl]
  limit := by simp

/-- One stretch of progress after the other is progress. -/
theorem trans (h : Progress p p₁ lookups came out) (h' : Progress p₁ p₂ lookups' came' out') :
    Progress p p₂ (lookups ++ lookups') (came ++ came') (out ++ out') where
  source := h.source.trans h'.source
  accepts := h'.accepts.trans h.accepts
  kept := by
    have hfirst := h.kept.append (List.Subperm.refl (came'.filter (passes p.accepts)))
    have hsecond := (List.Subperm.refl out).append h'.kept
    rw [h.accepts] at hsecond
    simp only [List.filter_append, List.append_assoc] at hfirst hsecond ⊢
    exact hsecond.trans hfirst
  limit := by
    rw [h.limit, h'.limit, Option.map_map]
    congr 1
    funext n
    simp only [Function.comp_apply, List.length_append]
    omega

end Progress

section Poll

variable (reads : Reads) (p : Pipeline)

/-- A poll without the limit: what is handed out or still held was held before,
or came out of the source and passed the filter. -/
theorem pollSorted_progress :
    ∃ (taken : List String) (came : _),
      p.source.Progress (p.pollSorted reads).2.source (taken.map reads.lookup) came ∧
      ((p.pollSorted reads).1.item?.toList ++ (p.pollSorted reads).2.held).Subperm
        (p.held ++ came.filter (passes p.accepts)) ∧
      (p.pollSorted reads).2.accepts = p.accepts ∧
      (p.pollSorted reads).2.remaining = p.remaining := by
  obtain ⟨source, accepts, sorting, remaining⟩ := p
  cases sorting with
  | unsorted =>
      obtain ⟨taken, came, hprogress, hitem⟩ := Source.next_progress reads accepts source
      refine ⟨taken, came, hprogress, ?_, rfl, rfl⟩
      simp [pollSorted, held, hitem, List.Subperm.refl]
  | released rest =>
      obtain ⟨hitems, hsource, haccepts, hremaining⟩ :=
        release_held ⟨source, accepts, .released rest, remaining⟩ rest
      simp only [pollSorted, hitems, hsource, haccepts, hremaining]
      exact ⟨[], [], Source.Progress.refl _, by simp [held, List.Subperm.refl], trivial, trivial⟩
  | collecting sort found =>
      obtain ⟨taken, came, hprogress, hfound⟩ := Source.collect_progress reads accepts source found
      refine ⟨taken, came, ?_⟩
      rcases hcollect : source.collect reads accepts found with
        ⟨documents | documents | fault, source'⟩ <;>
        rw [hcollect] at hprogress hfound <;> simp only [pollSorted, hcollect]
      -- Everything has come and is released in its order; or more is to come, and
      -- what has come is held back; or a fault is handed out, and the rest is lost.
      · obtain ⟨hitems, hsource, haccepts, hremaining⟩ :=
          release_held ⟨source', accepts, .collecting sort found, remaining⟩
            (sort.apply documents.reverse)
        simp only [hitems, hsource, haccepts, hremaining]
        refine ⟨hprogress, List.Perm.subperm ?_, trivial, trivial⟩
        have hsorted := (List.mergeSort_perm documents.reverse sort.admits).map
          (.ok : Document → Except Fault Document)
        rw [hfound] at hsorted
        exact hsorted.trans ((found.reverse_perm.map _).append_right _)
      · refine ⟨hprogress, List.Perm.subperm ?_, trivial, trivial⟩
        have hcame := (documents.reverse_perm.map (.ok : Document → Except Fault Document)).symm
        rw [hfound] at hcame
        exact hcame.trans ((found.reverse_perm.map _).append_right _)
      · refine ⟨hprogress, ?_, trivial, trivial⟩
        exact List.singleton_subperm_iff.mpr (List.mem_append_right _ hfound)

/-- **The step lemma.**  A poll of all stages is progress. -/
theorem poll_progress :
    ∃ (taken : List String) (came : _),
      p.Progress (p.poll reads).2 (taken.map reads.lookup) came (p.poll reads).1.item?.toList := by
  by_cases hlimit : p.remaining = some 0
  · have hpoll : p.poll reads = (.ended, p) := by simp [poll, hlimit]
    rw [hpoll]
    exact ⟨[], [], Progress.refl p⟩
  · obtain ⟨taken, came, hsource, hkept, haccepts, hremaining⟩ := p.pollSorted_progress reads
    refine ⟨taken, came, ?_⟩
    simp only [poll, hlimit, if_false]
    rcases hpoll : p.pollSorted reads with ⟨item | _ | _, p'⟩ <;>
      rw [hpoll] at hsource hkept haccepts hremaining
    · refine ⟨hsource, haccepts, hkept, ?_⟩
      show p.remaining = (p'.remaining.map (· - 1)).map (· + 1)
      rw [show p'.remaining = p.remaining from hremaining]
      cases hleft : p.remaining with
      | none => rfl
      | some n =>
          have hn : n ≠ 0 := by
            rintro rfl
            exact hlimit hleft
          simp [Nat.sub_add_cancel (Nat.one_le_iff_ne_zero.mpr hn)]
    · exact ⟨hsource, haccepts, hkept, by simpa [Polled.item?] using hremaining.symm⟩
    · exact ⟨hsource, haccepts, hkept, by simpa [Polled.item?] using hremaining.symm⟩

end Poll

/-- Releasing lookups is no more than that. -/
theorem releaseHeld_progress (p : Pipeline) (id : String) :
    p.Progress (p.releaseHeld id) [] [] [] := by
  refine ⟨?_, rfl, by simp [releaseHeld, held, List.Subperm.refl], by simp [releaseHeld]⟩
  obtain ⟨source, accepts, sorting, remaining⟩ := p
  cases source with
  | snapshot rest => exact Source.Progress.refl _
  | resolution r =>
      have hperm := Resolution.perm_release (r := r) id
      refine ⟨by simp [releaseHeld, Source.started, Source.release, Resolution.release], rfl,
        Nat.le_refl _, ?_, ?_⟩
      · simpa [releaseHeld, Source.outstanding, Source.release, Source.dropped,
          Resolution.release] using (hperm.countP_eq Lookup.isMissing).symm
      · have hstock := (hperm.filterMap Lookup.item?).append_right (r.arrived.filterMap faultItem?)
        simpa [releaseHeld, Source.stock, Source.release, Resolution.release] using hstock.symm

end Pipeline

end DocQuery
