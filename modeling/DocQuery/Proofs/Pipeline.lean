import DocQuery.Proofs.Resolution
import DocQuery.Query.Pipeline

/-!
# What a pipeline owes

A source owes the documents and faults that it has not handed out.  The
filter, the sort and the limit turn what arrives into what the pipeline hands
out, and `Pipeline.evaluate` says at once what they make of all that arrives.
`Pipeline.Owes` lists what a pipeline may still hand out: what `evaluate`
makes of some arrival of what its source owes.

* `Source.poll_account`, `Source.next_account`, `Source.collect_account` —
  each stage takes items off what is owed, and nothing else;
* `Pipeline.poll_owes` — the step lemma: an item handed out in front of what
  is owed afterwards was owed before;
* `Pipeline.poll_free`, `Pipeline.size_poll_lt` — while nothing is held back
  a poll hands out an item or ends, and items run out.
-/

namespace DocQuery

/-- The item of an answer, if it is one. -/
def Polled.item? {α : Type} : Polled α → Option α
  | .item a => some a
  | .pending | .ended => none

/-- Whether a filter lets an item through; faults always pass. -/
def passes (accepts : Document → Bool) : Except Fault Document → Bool
  | .ok document => accepts document
  | .error _ => true

/-- What is handed out for an outcome: nothing if nothing was found. -/
def delivered : Except Fault (Option Document) → Option (Except Fault Document)
  | .ok found => found.map .ok
  | .error fault => some (.error fault)

/-- Items up to the first fault. -/
def untilFault : List (Except Fault Document) → List (Except Fault Document)
  | [] => []
  | .ok document :: rest => .ok document :: untilFault rest
  | .error fault :: _ => [.error fault]

/-- Without a fault nothing is cut off. -/
theorem untilFault_map_ok (documents : List Document) :
    untilFault (documents.map .ok) = documents.map .ok := by
  induction documents with
  | nil => rfl
  | cons document rest ih => simp [untilFault, ih]

/-- Values in front are gathered first. -/
theorem gather_append_ok {ε α : Type} (values : List α) (rest : List (Except ε α)) :
    gather (values.map .ok ++ rest) = (gather rest).map (values ++ ·) := by
  induction values with
  | nil => cases hrest : gather rest <;> simp [hrest, Except.map]
  | cons a more ih =>
      simp only [List.map_cons, List.cons_append, gather, ih]
      cases gather rest <;> rfl

namespace Source

/-- What a source has not handed out. -/
def owed (find : String → Except Fault (Option Document)) : Source → List (Except Fault Document)
  | .snapshot rest => rest
  | .resolution r => (r.owed find).filterMap delivered

/-- A source that may go on, and to which no more ids will come. -/
def Sound (inOrder : Bool) : Source → Prop
  | .snapshot _ => True
  | .resolution r => r.Sound inOrder ∧ r.closed = true

/-- A source whose lookups all are in the queue. -/
def Free : Source → Prop
  | .snapshot _ => True
  | .resolution r => r.waiting = []

/-- What is owed and let through by a filter. -/
def awaited (find : String → Except Fault (Option Document)) (accepts : Document → Bool)
    (s : Source) : List (Except Fault Document) :=
  (s.owed find).filter (passes accepts)

section Account

variable {inOrder : Bool} {s : Source} (reads : Reads) (accepts : Document → Bool)

/-- A poll takes the item handed out off what is owed. -/
theorem poll_account (hs : s.Sound inOrder) :
    Arrives inOrder (s.owed reads.find)
        ((s.poll reads).1.item?.toList ++ (s.poll reads).2.owed reads.find) ∧
      ((∀ fault, (s.poll reads).1 ≠ .item (.error fault)) → (s.poll reads).2.Sound inOrder) ∧
      ((s.poll reads).1 = .ended → (s.poll reads).2.owed reads.find = []) := by
  cases s with
  | snapshot rest =>
      cases rest with
      | nil => exact ⟨Arrives.refl _, fun _ => trivial, fun _ => rfl⟩
      | cons next rest => exact ⟨Arrives.refl _, fun _ => trivial, by simp [poll]⟩
  | resolution r =>
      obtain ⟨n, _, harr, hsound, hended, hclosed⟩ := Resolution.poll_account reads hs.1
      refine ⟨?_, fun hok => ⟨hsound hok, hclosed.trans hs.2⟩, fun h => by simp [poll, owed, hended h]⟩
      have hdropped : (List.replicate n (.ok none)).filterMap delivered = [] := by
        simp [delivered]
      have hsettled : (Resolution.settledBy (r.poll reads).1).filterMap delivered =
          (r.poll reads).1.item?.toList := by
        rcases (r.poll reads).1 with (_ | _) | _ | _ <;> rfl
      have harr := harr.filterMap delivered
      rw [List.filterMap_append, List.filterMap_append, hdropped, hsettled, List.nil_append] at harr
      exact harr

/-- Polling for an accepted document takes the item off what is awaited. -/
theorem next_account (hs : s.Sound inOrder) :
    Arrives inOrder (s.awaited reads.find accepts)
        ((s.next reads accepts).1.item?.toList ++
          (s.next reads accepts).2.awaited reads.find accepts) ∧
      ((∀ fault, (s.next reads accepts).1 ≠ .item (.error fault)) →
        (s.next reads accepts).2.Sound inOrder) ∧
      ((s.next reads accepts).1 = .ended →
        (s.next reads accepts).2.awaited reads.find accepts = []) := by
  fun_induction next reads accepts s with
  | case1 s document s₁ hpoll haccepts =>
      obtain ⟨harr, hsound, _⟩ := poll_account reads hs
      rw [hpoll] at harr hsound
      refine ⟨?_, fun _ => hsound (by simp), by simp⟩
      simpa [awaited, passes, Polled.item?, haccepts] using harr.filter (passes accepts)
  | case2 s document s₁ hpoll haccepts ih =>
      obtain ⟨harr, hsound, _⟩ := poll_account reads hs
      rw [hpoll] at harr hsound
      obtain ⟨harr', hrest⟩ := ih (hsound (by simp))
      refine ⟨Arrives.trans ?_ harr', hrest⟩
      simpa [awaited, passes, Polled.item?, haccepts] using harr.filter (passes accepts)
  | case3 s fault s₁ hpoll =>
      obtain ⟨harr, _, _⟩ := poll_account reads hs
      rw [hpoll] at harr
      refine ⟨?_, fun h => absurd rfl (h fault), by simp⟩
      simpa [awaited, passes, Polled.item?, List.filter_cons] using harr.filter (passes accepts)
  | case4 s s₁ hpoll =>
      obtain ⟨harr, hsound, _⟩ := poll_account reads hs
      rw [hpoll] at harr hsound
      refine ⟨?_, fun _ => hsound (by simp), by simp⟩
      simpa [awaited, Polled.item?] using harr.filter (passes accepts)
  | case5 s s₁ hpoll =>
      obtain ⟨harr, hsound, hended⟩ := poll_account reads hs
      rw [hpoll] at harr hsound hended
      refine ⟨?_, fun _ => hsound (by simp), fun _ => by simp [awaited, hended rfl]⟩
      simpa [awaited, Polled.item?] using harr.filter (passes accepts)

/-- Collecting takes accepted documents off what is awaited, in the order in
which they come; a fault is the first one to come. -/
theorem collect_account (hs : s.Sound inOrder) (found : List Document) :
    match s.collect reads accepts found with
    | (.all documents, s') => ∃ came, documents.reverse = found.reverse ++ came ∧
        Arrives inOrder (s.awaited reads.find accepts) (came.map .ok) ∧ s'.Sound inOrder
    | (.sofar documents, s') => ∃ came, documents.reverse = found.reverse ++ came ∧
        Arrives inOrder (s.awaited reads.find accepts)
          (came.map .ok ++ s'.awaited reads.find accepts) ∧ s'.Sound inOrder
    | (.fault fault, s') => ∃ came, Arrives inOrder (s.awaited reads.find accepts)
        ((came : List Document).map .ok ++ .error fault :: s'.awaited reads.find accepts) := by
  fun_induction collect reads accepts s found with
  | case1 s found document s₁ hnext ih =>
      obtain ⟨harr, hsound, _⟩ := next_account reads accepts hs
      rw [hnext] at harr hsound
      have ih := ih (hsound (by simp))
      have hcons : ∀ {rest : List (Except Fault Document)},
          Arrives inOrder (s₁.awaited reads.find accepts) rest →
          Arrives inOrder (s.awaited reads.find accepts) (.ok document :: rest) :=
        fun hrest => harr.trans (Arrives.cons _ hrest)
      split at ih
      · obtain ⟨came, hcame, harr', hs'⟩ := ih
        exact ⟨document :: came, by simp [hcame], hcons harr', hs'⟩
      · obtain ⟨came, hcame, harr', hs'⟩ := ih
        exact ⟨document :: came, by simp [hcame], hcons harr', hs'⟩
      · obtain ⟨came, harr'⟩ := ih
        exact ⟨document :: came, hcons harr'⟩
  | case2 s found fault s₁ hnext =>
      obtain ⟨harr, _, _⟩ := next_account reads accepts hs
      rw [hnext] at harr
      exact ⟨[], harr⟩
  | case3 s found s₁ hnext =>
      obtain ⟨harr, hsound, _⟩ := next_account reads accepts hs
      rw [hnext] at harr hsound
      exact ⟨[], by simp, harr, hsound (by simp)⟩
  | case4 s found s₁ hnext =>
      obtain ⟨harr, hsound, hended⟩ := next_account reads accepts hs
      rw [hnext] at harr hsound hended
      refine ⟨[], by simp, ?_, hsound (by simp)⟩
      simpa [Polled.item?, hended rfl] using harr

end Account

end Source

/-! ## What a pipeline makes of what arrives -/

/-- What a sort makes of accepted items.  Without a sort, or while nothing was
released, a fault ends everything; a sort releases nothing before a fault. -/
def Sorting.outcome (items : List (Except Fault Document)) :
    Sorting → List (Except Fault Document)
  | .unsorted => untilFault items
  | .collecting sort found =>
    match gather items with
    | .ok documents => (sort.apply (found.reverse ++ documents)).map .ok
    | .error fault => [.error fault]
  | .released rest => rest.map .ok

namespace Pipeline

/-- What a pipeline hands out when accepted items arrive in a given order. -/
def evaluate (p : Pipeline) (items : List (Except Fault Document)) :
    List (Except Fault Document) :=
  takeUpTo p.remaining (p.sorting.outcome items)

/-- The items that a pipeline awaits from its source. -/
def awaited (find : String → Except Fault (Option Document)) (p : Pipeline) :
    List (Except Fault Document) :=
  p.source.awaited find p.accepts

/-- What a pipeline may hand out until it ends. -/
def Owes (inOrder : Bool) (find : String → Except Fault (Option Document)) (p : Pipeline)
    (items : List (Except Fault Document)) : Prop :=
  ∃ arrived, Arrives inOrder (p.awaited find) arrived ∧ items = p.evaluate arrived

section Account

variable {inOrder : Bool} {p : Pipeline} (reads : Reads)

/-- The step lemma without the limit. -/
theorem pollSorted_owes (hp : p.source.Sound inOrder) :
    match p.pollSorted reads with
    | (.item (.ok document), p') =>
        (∀ rest, Arrives inOrder (p'.awaited reads.find) rest →
          ∃ arrived, Arrives inOrder (p.awaited reads.find) arrived ∧
            p.sorting.outcome arrived = .ok document :: p'.sorting.outcome rest) ∧
          p'.source.Sound inOrder ∧ p'.remaining = p.remaining
    | (.item (.error fault), _) =>
        ∃ arrived, Arrives inOrder (p.awaited reads.find) arrived ∧
          p.sorting.outcome arrived = [.error fault]
    | (.pending, p') =>
        (∀ rest, Arrives inOrder (p'.awaited reads.find) rest →
          ∃ arrived, Arrives inOrder (p.awaited reads.find) arrived ∧
            p.sorting.outcome arrived = p'.sorting.outcome rest) ∧
          p'.source.Sound inOrder ∧ p'.remaining = p.remaining
    | (.ended, _) =>
        ∃ arrived, Arrives inOrder (p.awaited reads.find) arrived ∧
          p.sorting.outcome arrived = [] := by
  obtain ⟨source, accepts, sorting, remaining⟩ := p
  cases sorting with
  | unsorted =>
      obtain ⟨harr, hsound, hended⟩ := Source.next_account reads accepts hp
      simp only [pollSorted]
      rcases hnext : source.next reads accepts with ⟨(fault | document) | _ | _, source'⟩ <;>
        rw [hnext] at harr hsound hended
      · refine ⟨_, harr, rfl⟩
      · exact ⟨fun rest hrest => ⟨_, harr.trans (Arrives.cons _ hrest), rfl⟩, hsound (by simp), rfl⟩
      · exact ⟨fun rest hrest => ⟨rest, harr.trans hrest, rfl⟩, hsound (by simp), rfl⟩
      · refine ⟨_, harr, ?_⟩
        simp [Polled.item?, hended rfl, Sorting.outcome, untilFault]
  | collecting sort found =>
      have haccount := Source.collect_account reads accepts hp found
      simp only [pollSorted]
      rcases hcollect : source.collect reads accepts found with
        ⟨documents | documents | fault, source'⟩ <;> rw [hcollect] at haccount
      · obtain ⟨came, hcame, harr, hs'⟩ := haccount
        have houtcome : (Sorting.collecting sort found).outcome (came.map .ok) =
            (sort.apply documents.reverse).map .ok := by
          simp [Sorting.outcome, gather_map_ok, hcame]
        cases hsorted : sort.apply documents.reverse with
        | nil =>
            rw [hsorted] at houtcome
            simp only [hsorted, release]
            exact ⟨_, harr, houtcome⟩
        | cons first rest =>
            rw [hsorted] at houtcome
            simp only [hsorted, release]
            exact ⟨fun _ _ => ⟨_, harr, houtcome⟩, hs', trivial⟩
      · obtain ⟨came, hcame, harr, hs'⟩ := haccount
        refine ⟨fun rest hrest => ⟨_, harr.trans_append hrest, ?_⟩, hs', rfl⟩
        simp only [Sorting.outcome, gather_append_ok, hcame]
        cases gather rest with
        | error fault => rfl
        | ok more => simp [Except.map]
      · obtain ⟨came, harr⟩ := haccount
        refine ⟨_, harr, ?_⟩
        simp [Sorting.outcome, gather_append_ok, gather, Except.map]
  | released rest =>
      cases rest with
      | nil => exact ⟨_, Arrives.refl _, rfl⟩
      | cons document rest => exact ⟨fun _ _ => ⟨_, Arrives.refl _, rfl⟩, hp, rfl⟩

/-- **The step lemma.**  An item handed out in front of what is owed afterwards
was owed before, so was a fault alone, and a pipeline ends only when it may
owe nothing. -/
theorem poll_owes (hp : p.source.Sound inOrder) :
    match p.poll reads with
    | (.item (.ok document), p') =>
        (∀ items, p'.Owes inOrder reads.find items → p.Owes inOrder reads.find (.ok document :: items)) ∧
          p'.source.Sound inOrder
    | (.item (.error fault), _) => p.Owes inOrder reads.find [.error fault]
    | (.pending, p') =>
        (∀ items, p'.Owes inOrder reads.find items → p.Owes inOrder reads.find items) ∧
          p'.source.Sound inOrder
    | (.ended, _) => p.Owes inOrder reads.find [] := by
  by_cases hzero : p.remaining = some 0
  · simp only [poll, hzero, if_true]
    exact ⟨_, Arrives.refl _, by simp [evaluate, hzero, takeUpTo]⟩
  · have hsorted := pollSorted_owes reads hp
    have htake : ∀ (a : Except Fault Document) (items : List (Except Fault Document)),
        takeUpTo p.remaining (a :: items) = a :: takeUpTo (p.remaining.map (· - 1)) items := by
      intro a items
      cases hr : p.remaining with
      | none => rfl
      | some n =>
          cases n with
          | zero => exact absurd hr hzero
          | succ n => rfl
    simp only [poll, hzero, if_false]
    rcases hpoll : p.pollSorted reads with ⟨(fault | document) | _ | _, p'⟩ <;>
      rw [hpoll] at hsorted
    · obtain ⟨arrived, harr, houtcome⟩ := hsorted
      refine ⟨arrived, harr, ?_⟩
      rw [evaluate, houtcome, htake]
      cases p.remaining <;> simp [takeUpTo]
    · obtain ⟨hstep, hsound, hremaining⟩ := hsorted
      refine ⟨?_, hsound⟩
      intro items hitems
      obtain ⟨rest, hrest, rfl⟩ := hitems
      obtain ⟨arrived, harr, houtcome⟩ := hstep rest hrest
      exact ⟨arrived, harr, by rw [evaluate, evaluate, houtcome, htake, hremaining]⟩
    · obtain ⟨hstep, hsound, hremaining⟩ := hsorted
      refine ⟨?_, hsound⟩
      intro items hitems
      obtain ⟨rest, hrest, rfl⟩ := hitems
      obtain ⟨arrived, harr, houtcome⟩ := hstep rest hrest
      exact ⟨arrived, harr, by rw [evaluate, evaluate, houtcome, hremaining]⟩
    · obtain ⟨arrived, harr, houtcome⟩ := hsorted
      refine ⟨arrived, harr, ?_⟩
      rw [evaluate, houtcome]
      cases p.remaining <;> simp [takeUpTo]

/-- Releasing lookups leaves what is owed as it was. -/
theorem releaseHeld_owes (hp : p.source.Sound inOrder) (id : String) :
    (∀ items, (p.releaseHeld id).Owes inOrder reads.find items →
        p.Owes inOrder reads.find items) ∧
      (p.releaseHeld id).source.Sound inOrder := by
  obtain ⟨source, accepts, sorting, remaining⟩ := p
  cases source with
  | snapshot rest => exact ⟨fun items h => h, trivial⟩
  | resolution r =>
      obtain ⟨harr, hsound⟩ := Resolution.release_account reads hp.1 id
      refine ⟨?_, hsound, hp.2⟩
      intro items hitems
      obtain ⟨arrived, hrest, rfl⟩ := hitems
      exact ⟨arrived, ((harr.filterMap delivered).filter (passes accepts)).trans hrest, rfl⟩

end Account

end Pipeline

/-! ## Progress -/

namespace Source

variable {inOrder : Bool} {s : Source} {reads : Reads} (accepts : Document → Bool)

/-- While nothing is held back or waits, a source is never pending. -/
theorem poll_free (hs : s.Sound inOrder) (hfree : s.Free) (hheld : ∀ id, reads.held id = false) :
    (s.poll reads).1 ≠ .pending ∧ (s.poll reads).2.Free := by
  cases s with
  | snapshot rest => cases rest <;> exact ⟨by simp [poll], trivial⟩
  | resolution r => exact Resolution.poll_free hs.1 hheld hfree hs.2

theorem next_free (hs : s.Sound inOrder) (hfree : s.Free) (hheld : ∀ id, reads.held id = false) :
    (s.next reads accepts).1 ≠ .pending ∧ (s.next reads accepts).2.Free := by
  fun_induction next reads accepts s with
  | case1 s document s₁ hpoll haccepts =>
      obtain ⟨_, hfree₁⟩ := poll_free hs hfree hheld
      exact ⟨by simp, by simpa [hpoll] using hfree₁⟩
  | case2 s document s₁ hpoll haccepts ih =>
      obtain ⟨_, hfree₁⟩ := poll_free hs hfree hheld
      have hsound := (poll_account reads hs).2.1
      rw [hpoll] at hfree₁ hsound
      exact ih (hsound (by simp)) hfree₁
  | case3 s fault s₁ hpoll =>
      obtain ⟨_, hfree₁⟩ := poll_free hs hfree hheld
      exact ⟨by simp, by simpa [hpoll] using hfree₁⟩
  | case4 s s₁ hpoll =>
      obtain ⟨hbusy, _⟩ := poll_free hs hfree hheld
      simp [hpoll] at hbusy
  | case5 s s₁ hpoll =>
      obtain ⟨_, hfree₁⟩ := poll_free hs hfree hheld
      exact ⟨by simp, by simpa [hpoll] using hfree₁⟩

/-- While nothing is held back or waits, a collection comes to its end or
meets a fault. -/
theorem collect_free (hs : s.Sound inOrder) (hfree : s.Free)
    (hheld : ∀ id, reads.held id = false) (found : List Document) :
    (∀ documents, (s.collect reads accepts found).1 ≠ .sofar documents) ∧
      (s.collect reads accepts found).2.Free := by
  fun_induction collect reads accepts s found with
  | case1 s found document s₁ hnext ih =>
      obtain ⟨_, hfree₁⟩ := next_free accepts hs hfree hheld
      have hsound := (next_account reads accepts hs).2.1
      rw [hnext] at hfree₁ hsound
      exact ih (hsound (by simp)) hfree₁
  | case2 s found fault s₁ hnext =>
      obtain ⟨_, hfree₁⟩ := next_free accepts hs hfree hheld
      exact ⟨by simp, by simpa [hnext] using hfree₁⟩
  | case3 s found s₁ hnext =>
      obtain ⟨hbusy, _⟩ := next_free accepts hs hfree hheld
      simp [hnext] at hbusy
  | case4 s found s₁ hnext =>
      obtain ⟨_, hfree₁⟩ := next_free accepts hs hfree hheld
      exact ⟨by simp, by simpa [hnext] using hfree₁⟩

/-- A collection that ended, or met a fault, is no larger than what was left. -/
theorem size_collect (reads : Reads) (accepts : Document → Bool) (s : Source)
    (found : List Document) :
    match (s.collect reads accepts found).1 with
    | .all documents => documents.length ≤ s.size + found.length
    | .sofar _ => True
    | .fault _ => 0 < s.size := by
  fun_induction collect reads accepts s found with
  | case1 s found document s₁ hnext ih =>
      have hlt := size_next_lt hnext
      split at ih
      · simp only [List.length_cons] at ih
        omega
      · trivial
      · omega
  | case2 s found fault s₁ hnext =>
      have hlt := size_next_lt hnext
      show 0 < s.size
      omega
  | case3 => trivial
  | case4 s found => exact Nat.le_add_left _ _

end Source

namespace Pipeline

variable {inOrder : Bool} {p : Pipeline} {reads : Reads}

/-- The free poll without the limit. -/
theorem pollSorted_free (hp : p.source.Sound inOrder) (hfree : p.source.Free)
    (hheld : ∀ id, reads.held id = false) :
    (p.pollSorted reads).1 ≠ .pending ∧ (p.pollSorted reads).2.source.Free := by
  unfold pollSorted
  cases p.sorting with
  | unsorted => exact Source.next_free p.accepts hp hfree hheld
  | collecting sort found =>
      obtain ⟨hbusy, hfree'⟩ := Source.collect_free p.accepts hp hfree hheld found
      rcases hcollect : p.source.collect reads p.accepts found with
        ⟨documents | documents | fault, source'⟩ <;>
        simp only [hcollect] at hbusy hfree' ⊢
      · cases sort.apply documents.reverse <;> exact ⟨by simp [release], hfree'⟩
      · exact absurd rfl (hbusy documents)
      · exact ⟨by simp, hfree'⟩
  | released rest => cases rest <;> exact ⟨by simp [release], hfree⟩

/-- While nothing is held back or waits, a pipeline is never pending. -/
theorem poll_free (hp : p.source.Sound inOrder) (hfree : p.source.Free)
    (hheld : ∀ id, reads.held id = false) :
    (p.poll reads).1 ≠ .pending ∧ (p.poll reads).2.source.Free := by
  have hsorted := pollSorted_free hp hfree hheld
  by_cases hzero : p.remaining = some 0
  · simp [poll, hzero, hfree]
  · simp only [poll, hzero, if_false]
    rcases hpoll : p.pollSorted reads with ⟨a | _ | _, p'⟩ <;> rw [hpoll] at hsorted
    · exact ⟨by simp, hsorted.2⟩
    · exact absurd rfl hsorted.1
    · exact ⟨by simp, hsorted.2⟩

/-- An item that a sort lets go leaves less to come. -/
theorem size_pollSorted_lt {p' : Pipeline} {a : Except Fault Document}
    (h : p.pollSorted reads = (.item a, p')) : p'.size < p.size := by
  obtain ⟨source, accepts, sorting, remaining⟩ := p
  cases sorting with
  | unsorted =>
      simp only [pollSorted, Prod.mk.injEq] at h
      obtain ⟨hitem, rfl⟩ := h
      exact Source.size_next_lt (Prod.ext hitem rfl)
  | collecting sort found =>
      have hsize := Source.size_collect reads accepts source found
      simp only [pollSorted] at h
      rcases hcollect : source.collect reads accepts found with
        ⟨documents | documents | fault, source'⟩ <;> rw [hcollect] at h hsize
      · have hlength : (sort.apply documents.reverse).length = documents.length := by
          simp [SortBy.apply]
        simp only at h
        cases hrest : sort.apply documents.reverse with
        | nil => simp [hrest, release] at h
        | cons first rest =>
            rw [hrest, List.length_cons] at hlength
            simp only [hrest, release, Prod.mk.injEq] at h
            obtain ⟨_, rfl⟩ := h
            simp only [size] at hsize ⊢
            omega
      · simp at h
      · simp only [Prod.mk.injEq] at h
        obtain ⟨_, rfl⟩ := h
        simp only [size, List.length_nil] at hsize ⊢
        omega
  | released rest =>
      cases rest with
      | nil => simp [pollSorted, release] at h
      | cons document rest =>
          simp only [pollSorted, release, Prod.mk.injEq] at h
          obtain ⟨_, rfl⟩ := h
          simp [size]

/-- An item handed out leaves less to come. -/
theorem size_poll_lt {p' : Pipeline} {a : Except Fault Document}
    (h : p.poll reads = (.item a, p')) : p'.size < p.size := by
  by_cases hzero : p.remaining = some 0
  · simp [poll, hzero] at h
  · simp only [poll, hzero, if_false] at h
    rcases hpoll : p.pollSorted reads with ⟨a' | _ | _, p₁⟩ <;> rw [hpoll] at h
    · simp only [Prod.mk.injEq] at h
      obtain ⟨_, rfl⟩ := h
      have hlt := size_pollSorted_lt hpoll
      exact hlt
    · simp at h
    · simp at h

/-- Releases reach the resolution of a pipeline. -/
theorem source_foldl_releaseHeld (ids : List String) {r : Resolution}
    (hr : p.source = .resolution r) :
    (ids.foldl releaseHeld p).source = .resolution (ids.foldl Resolution.release r) := by
  induction ids generalizing p r with
  | nil => exact hr
  | cons id rest ih => exact ih (by simp [releaseHeld, hr, Source.release])

/-- Some releases put every lookup that waits into the queue. -/
theorem exists_release_free (p : Pipeline) :
    ∃ ids : List String, (ids.foldl releaseHeld p).source.Free := by
  cases hsource : p.source with
  | snapshot rest => exact ⟨[], by simp [hsource, Source.Free]⟩
  | resolution r =>
      refine ⟨r.waiting.map Lookup.id, ?_⟩
      rw [source_foldl_releaseHeld _ hsource]
      exact Resolution.waiting_foldl_release _ r fun l hl => List.mem_map_of_mem hl

end Pipeline

end DocQuery
