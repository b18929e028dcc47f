import DocQuery.Store.Basic

/-!
# Resolving ids to documents

A `Resolution` turns ids into documents by lookups, several at a time.  It
looks ids up in the order in which they arrive, at most `window` of them
being outstanding, and what a lookup finds is settled when it starts.  Some
lookups are held back: they stay outstanding until their id is released.

In order of completion, lookups wait in a queue of their own until polled:
a lookup enters the queue when it starts, leaves it when it is found to be
held, and enters it again when it is released.  In order of arrival, the
oldest lookup is always the next, and holds up the others.  In which turn a
queue asks its lookups, and after how many it gives up, is its own affair:
`Queue` is any one that hands out every lookup once, and `Queue.eager` asks
them all, the first ones first.

A poll first starts lookups and then takes one that is finished.  One that
found nothing is dropped, and the poll begins anew.  The first fault, of a
lookup or among the ids, ends the resolution.

* `size_fill` — starting lookups moves ids, and loses none without a fault;
* `size_poll_lt` — an item leaves less to do, which bounds every run.
-/

namespace DocQuery

/-- What a stream answers when it is polled. -/
inductive Polled (α : Type) where
  | item (a : α)
  | pending
  | ended
deriving DecidableEq, Repr

/-- A lookup under way, with what it found when it started. -/
structure Lookup where
  id : String
  found : Except Fault (Option Document)

/-- What comes of polling a queue of lookups. -/
structure Round where
  /-- the lookup handed out, if there is one -/
  found : Option Lookup
  /-- the lookups that were asked whether they are finished, now or when they fell asleep -/
  asked : List Lookup
  /-- the lookups that stay in the queue -/
  ready : List Lookup
  /-- the lookups that leave it to wait, in the order in which they were asked -/
  parked : List Lookup

/-- What a queue promises of a round.  Every lookup is handed out, stays or waits,
and in order of arrival the oldest is the next.  Those that wait were held, and so
were those asked in vain that could have been handed out; and something is handed
out unless a lookup is held. -/
structure Round.Lawful (ordered : Bool) (held : String → Bool) (ready : List Lookup)
    (round : Round) : Prop where
  account : (round.found.toList ++ round.ready ++ round.parked).Perm ready
  inTurn : ordered = true → round.found.toList ++ round.ready = ready ∧ round.parked = []
  parked_held : ∀ l ∈ round.parked, held l.id = true
  asked_held : round.found = none → ∀ l ∈ round.asked,
    (ordered = true → ready.head? = some l) → held l.id = true
  some_held : round.found = none → ready ≠ [] → ∃ l ∈ ready, held l.id = true

/-- How queues of lookups are polled, in order of arrival or of completion, while
the lookups of some ids are held back. -/
class Queue where
  poll (ordered : Bool) (held : String → Bool) (ready : List Lookup) : Round
  lawful (ordered : Bool) (held : String → Bool) (ready : List Lookup) :
    (poll ordered held ready).Lawful ordered held ready

namespace Queue

/-- Asks lookups one after the other until one is finished; those before it wait. -/
def askInTurn (held : String → Bool) : List Lookup → Round
  | [] => ⟨none, [], [], []⟩
  | l :: rest =>
    if held l.id then
      let round := askInTurn held rest
      { round with asked := l :: round.asked, parked := l :: round.parked }
    else ⟨some l, [l], rest, []⟩

/-- Asks the oldest lookup; if it is held, the others are asked and stay behind it. -/
def askOldest (held : String → Bool) : List Lookup → Round
  | [] => ⟨none, [], [], []⟩
  | l :: rest => if held l.id then ⟨none, l :: rest, l :: rest, []⟩ else ⟨some l, [l], rest, []⟩

theorem lawful_askInTurn (held : String → Bool) (ready : List Lookup) :
    (askInTurn held ready).Lawful false held ready := by
  induction ready with
  | nil => exact ⟨.refl _, nofun, nofun, nofun, fun _ h => absurd rfl h⟩
  | cons l rest ih =>
    cases hheld : held l.id with
    | true =>
      simp only [askInTurn, hheld, if_true]
      refine ⟨List.perm_middle.trans (ih.account.cons l), nofun, ?_, fun hnone l' hl' _ => ?_,
        fun _ _ => ⟨l, List.mem_cons_self, hheld⟩⟩
      · exact List.forall_mem_cons.mpr ⟨hheld, ih.parked_held⟩
      · rcases List.mem_cons.mp hl' with rfl | hl'
        · exact hheld
        · exact ih.asked_held hnone l' hl' nofun
    | false =>
      simp only [askInTurn, hheld, Bool.false_eq_true, if_false]
      exact ⟨by simp, nofun, nofun, nofun, nofun⟩

theorem lawful_askOldest (held : String → Bool) (ready : List Lookup) :
    (askOldest held ready).Lawful true held ready := by
  cases ready with
  | nil => exact ⟨.refl _, fun _ => ⟨rfl, rfl⟩, nofun, nofun, fun _ h => absurd rfl h⟩
  | cons l rest =>
    cases hheld : held l.id with
    | true =>
      simp only [askOldest, hheld, if_true]
      refine ⟨by simp, fun _ => ⟨rfl, rfl⟩, nofun, fun _ l' _ holdest => ?_,
        fun _ _ => ⟨l, List.mem_cons_self, hheld⟩⟩
      cases holdest rfl
      exact hheld
    | false =>
      simp only [askOldest, hheld, Bool.false_eq_true, if_false]
      exact ⟨by simp, fun _ => ⟨rfl, rfl⟩, nofun, nofun, nofun⟩

/-- The queue that asks all its lookups if need be, the first ones first. -/
instance eager : Queue where
  poll ordered held ready := if ordered then askOldest held ready else askInTurn held ready
  lawful
    | true, held, ready => lawful_askOldest held ready
    | false, held, ready => lawful_askInTurn held ready

end Queue

/-- What lookups find at the moment, whose lookups are held back, and how queues of
them are polled. -/
structure Reads where
  find : String → Except Fault (Option Document)
  held : String → Bool
  [queue : Queue]

/-- Ids being resolved to documents. -/
structure Resolution where
  /-- documents come in order of arrival, not of completion -/
  ordered : Bool
  /-- how many lookups may be outstanding -/
  window : Nat
  /-- ids that have arrived, or faults in their place -/
  arrived : List (Except Fault String)
  /-- no more ids will arrive -/
  closed : Bool
  /-- the last id has been taken -/
  exhausted : Bool
  /-- lookups in the queue -/
  ready : List Lookup
  /-- lookups found to be held, in the order in which they began to wait -/
  waiting : List Lookup
  /-- a fault has been handed out -/
  failed : Bool
  /-- ids whose lookups were started, in order -/
  started : List String
  /-- how many lookups found nothing -/
  dropped : Nat

namespace Resolution

/-- Nothing to resolve yet; the window is at least one lookup. -/
def idle (ordered : Bool) (window : Nat) : Resolution where
  ordered := ordered
  window := max 1 window
  arrived := []
  closed := false
  exhausted := false
  ready := []
  waiting := []
  failed := false
  started := []
  dropped := 0

/-- The resolution of a known list of ids. -/
def ofIds (ordered : Bool) (window : Nat) (ids : List (Except Fault String)) : Resolution :=
  { idle ordered window with arrived := ids, closed := true }

/-- More ids arrive. -/
def feed (r : Resolution) (ids : List (Except Fault String)) : Resolution :=
  { r with arrived := r.arrived ++ ids }

/-- No more ids will arrive. -/
def close (r : Resolution) : Resolution := { r with closed := true }

/-- How many lookups are outstanding. -/
def inFlight (r : Resolution) : Nat := r.ready.length + r.waiting.length

/-- How much is left to do: ids not looked up, and lookups outstanding. -/
def size (r : Resolution) : Nat := r.arrived.length + r.inFlight

/-- Starts the lookup of an id. -/
def start (r : Resolution) (reads : Reads) (id : String) : Resolution :=
  { r with ready := r.ready ++ [⟨id, reads.find id⟩], started := r.started ++ [id] }

/-- Starts lookups of ids until the window is full or no id is left; a fault
in place of an id is handed out at once. -/
def fillFrom (reads : Reads) :
    List (Except Fault String) → Resolution → Resolution × Option Fault
  | [], r =>
    if r.inFlight < r.window ∧ r.closed then ({ r with arrived := [], exhausted := true }, none)
    else ({ r with arrived := [] }, none)
  | next :: rest, r =>
    if r.inFlight < r.window then
      match next with
      | .error fault => ({ r with arrived := rest, failed := true }, some fault)
      | .ok id => fillFrom reads rest (r.start reads id)
    else ({ r with arrived := next :: rest }, none)

/-- Starts as many lookups as possible. -/
def fill (r : Resolution) (reads : Reads) : Resolution × Option Fault :=
  if r.exhausted then (r, none) else fillFrom reads r.arrived r

/-- Polls the queue for a finished lookup. -/
def takeFinished (r : Resolution) (reads : Reads) : Option Lookup × Resolution :=
  let round := reads.queue.poll r.ordered reads.held r.ready
  (round.found, { r with ready := round.ready, waiting := r.waiting ++ round.parked })

/-- The lookups of an id that wait enter the queue again. -/
def release (r : Resolution) (id : String) : Resolution :=
  { r with
    ready := r.ready ++ r.waiting.filter fun l => l.id == id
    waiting := r.waiting.filter fun l => l.id != id }

theorem size_fillFrom (reads : Reads) (ids : List (Except Fault String)) (r : Resolution) :
    (fillFrom reads ids r).1.size ≤ ids.length + r.inFlight := by
  induction ids generalizing r with
  | nil =>
    simp only [fillFrom]
    split <;> simp [size, inFlight]
  | cons next rest ih =>
    simp only [fillFrom]
    split
    · cases next with
      | error fault =>
        simp only [size, inFlight, List.length_cons]
        omega
      | ok id =>
        have h := ih (r.start reads id)
        simp only [start, inFlight, List.length_append, List.length_cons, List.length_nil] at h ⊢
        omega
    · simp [size, inFlight]

/-- Starting lookups leaves no more to do than before. -/
theorem size_fill (r : Resolution) (reads : Reads) : (r.fill reads).1.size ≤ r.size := by
  unfold fill
  split
  · exact Nat.le_refl _
  · exact size_fillFrom reads r.arrived r

/-- A fault in place of an id is taken from the ids. -/
theorem size_fillFrom_fault {reads : Reads} {ids : List (Except Fault String)} {r r' : Resolution}
    {fault : Fault} (h : fillFrom reads ids r = (r', some fault)) :
    r'.size < ids.length + r.inFlight := by
  induction ids generalizing r with
  | nil =>
    simp only [fillFrom] at h
    split at h <;> simp at h
  | cons next rest ih =>
    simp only [fillFrom] at h
    split at h
    · cases next with
      | error fault =>
        cases h
        simp only [size, inFlight, List.length_cons]
        omega
      | ok id =>
        have h := ih h
        simp only [start, inFlight, List.length_append, List.length_cons, List.length_nil] at h ⊢
        omega
    · simp at h

theorem size_fill_fault {r r' : Resolution} {reads : Reads} {fault : Fault}
    (h : r.fill reads = (r', some fault)) : r'.size < r.size := by
  unfold fill at h
  split at h
  · simp at h
  · exact size_fillFrom_fault h

/-- A lookup taken is one less outstanding. -/
theorem size_takeFinished {r r' : Resolution} {reads : Reads} {l : Lookup}
    (h : r.takeFinished reads = (some l, r')) : r'.size < r.size := by
  simp only [takeFinished, Prod.mk.injEq] at h
  obtain ⟨hfound, rfl⟩ := h
  have hcount := (reads.queue.lawful r.ordered reads.held r.ready).account.length_eq
  simp only [hfound, List.length_append, Option.toList_some, List.length_cons,
    List.length_nil] at hcount
  simp only [size, inFlight, List.length_append]
  omega

/-- Polls for a document. -/
def poll (r : Resolution) (reads : Reads) : Polled (Except Fault Document) × Resolution :=
  if r.failed then (.ended, r)
  else
    match _hf : r.fill reads with
    | (r', some fault) => (.item (.error fault), r')
    | (r', none) =>
      match _ht : r'.takeFinished reads with
      | (none, r'') => (if r''.exhausted ∧ r''.inFlight = 0 then .ended else .pending, r'')
      | (some l, r'') =>
        match l.found with
        | .ok (some document) => (.item (.ok document), r'')
        | .ok none => poll { r'' with dropped := r''.dropped + 1 } reads
        | .error fault => (.item (.error fault), { r'' with failed := true })
termination_by r.size
decreasing_by
  have hfill := size_fill r reads
  have htake := size_takeFinished _ht
  rw [_hf] at hfill
  exact Nat.lt_of_lt_of_le htake hfill

/-- An item leaves less to do. -/
theorem size_poll_lt {r r' : Resolution} {reads : Reads} {a : Except Fault Document}
    (h : r.poll reads = (.item a, r')) : r'.size < r.size := by
  fun_induction poll r reads with
  | case1 => simp at h
  | case2 r hfailed r₁ fault hfill =>
    cases h
    exact size_fill_fault hfill
  | case3 r hfailed r₁ hfill r₂ htake =>
    split at h <;> simp at h
  | case4 r hfailed r₁ hfill l r₂ htake document hfound =>
    have hle := size_fill r reads
    have hlt := size_takeFinished htake
    rw [hfill] at hle
    cases h
    exact Nat.lt_of_lt_of_le hlt hle
  | case5 r hfailed r₁ hfill l r₂ htake hfound ih =>
    have hle := size_fill r reads
    have hlt := size_takeFinished htake
    rw [hfill] at hle
    exact Nat.lt_trans (ih h) (Nat.lt_of_lt_of_le hlt hle)
  | case6 r hfailed r₁ hfill l r₂ htake fault hfound =>
    have hle := size_fill r reads
    have hlt := size_takeFinished htake
    rw [hfill] at hle
    cases h
    exact Nat.lt_of_lt_of_le hlt hle

/-! ## Runs -/

/-- What is done to a resolution. -/
inductive Move where
  /-- ids arrive, or faults in their place -/
  | feed (ids : List (Except Fault String))
  /-- no more ids will arrive -/
  | close
  /-- the lookups of an id are no longer held back -/
  | release (id : String)
  /-- the resolution is polled -/
  | poll

/-- A resolution and the ids whose lookups are held back. -/
structure Run where
  resolution : Resolution
  held : List String

/-- The lookups of a run. -/
def Run.reads (run : Run) (find : String → Except Fault (Option Document)) : Reads :=
  ⟨find, fun id => run.held.contains id⟩

/-- Makes one move; a poll has an answer. -/
def Run.step (find : String → Except Fault (Option Document)) (run : Run) :
    Move → Option (Polled (Except Fault Document)) × Run
  | .feed ids => (none, { run with resolution := run.resolution.feed ids })
  | .close => (none, { run with resolution := run.resolution.close })
  | .release id => (none, ⟨run.resolution.release id, run.held.filter (· != id)⟩)
  | .poll =>
    let (answer, r) := run.resolution.poll (run.reads find)
    (some answer, { run with resolution := r })

end Resolution

end DocQuery
