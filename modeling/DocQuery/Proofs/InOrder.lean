import DocQuery.Proofs.Resolving
import Mathlib.Data.List.Induction

/-!
# Resolutions in order of arrival

A resolution that keeps its lookups in order of arrival hands out what they
find in that order, however long each of them takes and however many are
outstanding.  What a later lookup has found, be it nothing or a fault, is kept
until the earlier ones are finished.

* `InTurn.after` — the step lemma: whatever happens, what was handed out and
  counted is what the first lookups have found, and the rest is owed;
* `inTurn_run` — the run lemma: this holds of every run;
* `Feeds.exists_drives` — whatever has happened, more polls bring a run to its end;
* `ordered_runs_agree` — two runs that find the same tell the same and count the
  same.
-/

namespace DocQuery

/-- What a poll tells its caller: an item or the end, unless it is pending. -/
def Polled.told? {α : Type} : Polled α → Option (Option α)
  | .item a => some (some a)
  | .ended => some none
  | .pending => none

namespace Resolution

/-- What lookups find before the first of them that finds a fault, and this fault. -/
def upToFault : List (Except Fault (Option Document)) → List (Option Document) × Option Fault
  | [] => ([], none)
  | .error fault :: _ => ([], some fault)
  | .ok found :: rest => (found :: (upToFault rest).1, (upToFault rest).2)

theorem upToFault_map_ok (found : List (Option Document)) :
    upToFault (found.map .ok) = (found, none) := by
  induction found with
  | nil => rfl
  | cons first rest ih => simp [upToFault, ih]

theorem upToFault_append_error (found : List (Option Document)) (fault : Fault)
    (rest : List (Except Fault (Option Document))) :
    upToFault (found.map .ok ++ .error fault :: rest) = (found, some fault) := by
  induction found with
  | nil => rfl
  | cons first found ih => simp [upToFault, ih]

/-- What is handed out of what was found: the documents, and then the fault. -/
def itemsOf (found : List (Option Document)) (fault : Option Fault) :
    List (Except Fault Document) :=
  (found.filterMap id).map .ok ++ (fault.map .error).toList

/-- Nothing is handed out of lookups that find nothing. -/
theorem itemsOf_append_missing (found : List (Option Document)) (n : Nat) (fault : Option Fault) :
    itemsOf (found ++ List.replicate n none) fault = itemsOf found fault := by
  simp [itemsOf]

/-- More ids are owed when they arrive. -/
theorem owed_feed (find : String → Except Fault (Option Document)) (r : Resolution)
    (ids : List (Except Fault String)) :
    (r.feed ids).owed find = r.owed find ++ ids.map (outcomeOf find) := by
  simp [owed, feed]

namespace History

/-- What a run has told its caller, in order. -/
def told (h : History) : List (Option (Except Fault Document)) :=
  h.answers.filterMap Polled.told?

/-- What has been fed stays fed. -/
theorem fed_after (h : History) (happening : Happening) :
    ∃ more, (h.after happening).fed = h.fed ++ more := by
  cases happening with
  | feed ids =>
      unfold after
      dsimp only
      split
      · exact ⟨[], by simp⟩
      · exact ⟨ids, rfl⟩
  | close | release | wake | poll => exact ⟨[], by simp [after]⟩

/-- A poll tells what it answers. -/
theorem told_poll (h : History) (reads : Reads) :
    (h.after (.poll reads)).told = h.told ++ (h.resolution.poll reads).1.told?.toList := by
  cases hanswer : (h.resolution.poll reads).1.told? <;> simp [after, told, hanswer]

/-- The end has been answered exactly if it has been told. -/
theorem ended_mem_answers {h : History} : .ended ∈ h.answers ↔ none ∈ h.told := by
  have htold : ∀ a : Polled (Except Fault Document), a.told? = some none ↔ a = .ended := by
    intro a
    cases a <;> simp [Polled.told?]
  simp [told, htold]

/-- Where a run stands that was fed ids only.  Without a fault the outcomes that
are not settled are owed; after one they are left. -/
def Stands (find : String → Except Fault (Option Document)) (h : History)
    (found : List (Option Document)) : Option Fault → Prop
  | none => h.resolution.Sound true ∧
      h.fed.map (outcomeOf find) = found.map .ok ++ h.resolution.owed find
  | some fault => h.resolution.failed = true ∧
      ∃ left, h.fed.map (outcomeOf find) = found.map .ok ++ .error fault :: left

/-- A run that goes in order: the first lookups have found what was handed out or
counted, up to a fault, and after that only ends were told. -/
structure InTurn (find : String → Except Fault (Option Document)) (h : History)
    (found : List (Option Document)) (fault : Option Fault) : Prop where
  stands : h.Stands find found fault
  told : ∃ n, h.told = (itemsOf found fault).map some ++ List.replicate n none
  dropped : h.resolution.dropped = found.countP Option.isNone

section Steps

variable {find : String → Except Fault (Option Document)} {h : History}
  {found : List (Option Document)} {fault : Option Fault}

/-- Before the end a run has told the items and nothing else. -/
theorem InTurn.told_eq (hi : h.InTurn find found fault) (hnew : .ended ∉ h.answers) :
    h.told = (itemsOf found fault).map some := by
  obtain ⟨n, hn⟩ := hi.told
  cases n with
  | zero => simpa using hn
  | succ n => exact absurd (ended_mem_answers.mpr (by simp [hn])) hnew

/-- A poll that changes nothing and answers the end tells one more end. -/
theorem InTurn.poll_still (hi : h.InTurn find found fault) {reads : Reads}
    (hstill : h.resolution.poll reads = (.ended, h.resolution)) :
    (h.after (.poll reads)).InTurn find found fault := by
  obtain ⟨n, hn⟩ := hi.told
  have hafter : h.after (.poll reads) = { h with answers := h.answers ++ [.ended] } := by
    simp [after, hstill]
  refine ⟨?_, ⟨n + 1, ?_⟩, ?_⟩
  · rw [hafter]
    cases fault with
    | none => exact hi.stands
    | some f => exact hi.stands
  · rw [told_poll, hstill, hn, List.replicate_succ', List.append_assoc]
    rfl
  · rw [hafter]
    exact hi.dropped

/-- A poll before the end settles the next lookups, up to one that hands something
out or is not finished. -/
theorem InTurn.poll_new (hi : h.InTurn find found none) (hnew : .ended ∉ h.answers)
    {reads : Reads} (hfind : reads.find = find) :
    ∃ found fault, (h.after (.poll reads)).InTurn find found fault := by
  subst hfind
  obtain ⟨hsound, howed⟩ := hi.stands
  obtain ⟨n, hdropped, harr, hgoes, _, _⟩ := poll_account reads hsound
  obtain ⟨_, _, _, _, _, hfailed, _⟩ := poll_progress reads h.resolution
  have htold := told_poll h reads
  rw [hi.told_eq hnew, ← itemsOf_append_missing found n] at htold
  have hrest : h.fed.map (outcomeOf reads.find) = (found ++ List.replicate n none).map .ok ++
      (settledBy (h.resolution.poll reads).1 ++ (h.resolution.poll reads).2.owed reads.find) := by
    rw [howed, show h.resolution.owed reads.find = _ from harr]
    simp
  have hcount : (h.resolution.poll reads).2.dropped =
      (found ++ List.replicate n none).countP Option.isNone := by
    rw [hdropped, hi.dropped, List.countP_append]
    simp [List.countP_replicate]
  -- the lookups dropped on the way hand out nothing, but are settled with the others
  generalize found ++ List.replicate n none = skipped at htold hrest hcount
  rcases hanswer : (h.resolution.poll reads).1 with (fault | document) | _ | _
  all_goals rw [hanswer] at htold hrest
  · refine ⟨skipped, some fault, ⟨hfailed.mpr (Or.inr ⟨fault, hanswer⟩), _, hrest⟩, ⟨0, ?_⟩, hcount⟩
    simpa [itemsOf, Polled.told?] using htold
  · refine ⟨skipped ++ [some document], none, ⟨hgoes (by simp [hanswer]), ?_⟩, ⟨0, ?_⟩, ?_⟩
    · exact hrest.trans (by simp [settledBy, after])
    · simpa [itemsOf, Polled.told?] using htold
    · exact hcount.trans (by simp)
  · exact ⟨skipped, none, ⟨hgoes (by simp [hanswer]), hrest⟩, ⟨0, htold⟩, hcount⟩
  · exact ⟨skipped, none, ⟨hgoes (by simp [hanswer]), hrest⟩, ⟨1, htold⟩, hcount⟩

/-- What leaves the outcomes owed as they are leaves a run in order. -/
theorem InTurn.of_owed (hi : h.InTurn find found fault) {r : Resolution}
    (howed : h.resolution.Sound true →
      r.Sound true ∧ r.owed find = h.resolution.owed find)
    (hfailed : r.failed = h.resolution.failed) (hdropped : r.dropped = h.resolution.dropped) :
    InTurn find { h with resolution := r } found fault := by
  refine ⟨?_, hi.told, hdropped.trans hi.dropped⟩
  cases fault with
  | none =>
      obtain ⟨hsound, hfed⟩ := hi.stands
      exact ⟨(howed hsound).1, hfed.trans (congrArg _ (howed hsound).2.symm)⟩
  | some f => exact ⟨hfailed.trans hi.stands.1, hi.stands.2⟩

/-- Ids that are fed are owed, or left if there was a fault. -/
theorem InTurn.feed (hi : h.InTurn find found fault) (hopen : h.resolution.exhausted = false)
    {ids : List (Except Fault String)} (hids : ∀ a ∈ ids, ∃ id, a = .ok id) :
    InTurn find { h with resolution := h.resolution.feed ids, fed := h.fed ++ ids }
      found fault := by
  refine ⟨?_, hi.told, hi.dropped⟩
  cases fault with
  | none =>
      obtain ⟨hsound, hfed⟩ := hi.stands
      refine ⟨⟨hsound.running, hsound.roomy, by simp [Resolution.feed, hopen], fun _ => ?_⟩, ?_⟩
      · obtain ⟨hordered, hwaiting, hok⟩ := hsound.kept rfl
        exact ⟨hordered, hwaiting, fun a ha => (List.mem_append.mp ha).elim (hok a) (hids a)⟩
      · rw [List.map_append, hfed, owed_feed, List.append_assoc]
  | some f =>
      obtain ⟨hfailed, left, hfed⟩ := hi.stands
      exact ⟨hfailed, left ++ ids.map (outcomeOf find), by simp [hfed]⟩

/-- **The step lemma.**  Whatever happens to a run that goes in order, it still does,
as long as lookups find the same and only ids are fed. -/
theorem InTurn.after {window : Nat} {settled : List Lookup} {met : List Fault}
    {fault' : Option Fault} (hi : h.InTurn find found fault)
    (ha : h.Accounted window settled met fault') {happening : Happening}
    (hfind : ∀ reads, happening = .poll reads → reads.find = find)
    (hfed : ∀ a ∈ (h.after happening).fed, ∃ id, a = .ok id) :
    ∃ found fault, (h.after happening).InTurn find found fault := by
  cases happening with
  | feed ids =>
      refine ⟨found, fault, ?_⟩
      by_cases hclosed : h.resolution.closed = true
      · have hafter : h.after (.feed ids) = h := by simp [History.after, hclosed]
        rwa [hafter]
      · have hafter : h.after (.feed ids) =
            { h with resolution := h.resolution.feed ids, fed := h.fed ++ ids } := by
          simp [History.after, hclosed]
        rw [hafter] at hfed ⊢
        have hopen : h.resolution.exhausted = false := by
          by_contra hex
          exact hclosed (ha.fit.spent (by simpa using hex)).2
        exact hi.feed hopen fun a ha => hfed a (List.mem_append_right _ ha)
  | close =>
      exact ⟨found, fault, hi.of_owed
        (fun hs => ⟨⟨hs.running, hs.roomy, hs.taken, hs.kept⟩, rfl⟩) rfl rfl⟩
  | release id =>
      refine ⟨found, fault, hi.of_owed (fun hs => ?_) rfl rfl⟩
      obtain ⟨hsame, hsound⟩ := release_account ⟨find, fun _ => false⟩ hs id
      exact ⟨hsound, (show _ = _ from hsame).symm⟩
  | wake k =>
      -- in order of arrival no lookup waits outside the queue
      refine ⟨found, fault, hi.of_owed (fun hs => ?_) rfl rfl⟩
      obtain ⟨hordered, hwaiting, hok⟩ := hs.kept rfl
      exact ⟨⟨hs.running, hs.roomy, hs.taken, fun _ => ⟨hordered, by simp [wake, hwaiting], hok⟩⟩,
        by simp [owed, wake, hwaiting]⟩
  | poll reads =>
      by_cases hfailed : h.resolution.failed = true
      · exact ⟨found, fault, hi.poll_still (poll_of_failed reads hfailed)⟩
      · have hrunning : h.resolution.failed = false := by simpa using hfailed
        by_cases hnew : .ended ∈ h.answers
        · obtain ⟨hex, hidle⟩ := ha.ended hnew hrunning
          exact ⟨found, fault, hi.poll_still (poll_of_done reads hrunning hex hidle)⟩
        · cases fault with
          | none => exact hi.poll_new hnew (hfind reads rfl)
          | some f => exact absurd hi.stands.1 hfailed

end Steps

section Runs

variable {find find' : String → Except Fault (Option Document)} {ids ids' : List String}
  {window window' : Nat} {happenings happenings' : List Happening}

/-- **The run lemma.**  Every run that is fed only ids goes in order. -/
theorem inTurn_run (window : Nat) (happenings : List Happening)
    (hfind : ∀ reads, .poll reads ∈ happenings → reads.find = find)
    (hfed : ∀ a ∈ (run true window happenings).fed, ∃ id, a = .ok id) :
    ∃ found fault, (run true window happenings).InTurn find found fault := by
  induction happenings using List.reverseRecOn with
  | nil =>
      refine ⟨[], none, ⟨⟨rfl, Nat.lt_of_lt_of_le Nat.one_pos (Nat.le_max_left 1 window),
        by simp [run, begin, idle], fun _ => ⟨rfl, rfl, by simp [run, begin, idle]⟩⟩, rfl⟩,
        ⟨0, rfl⟩, rfl⟩
  | append_singleton earlier happening ih =>
      rw [run_concat] at hfed ⊢
      obtain ⟨more, hmore⟩ := fed_after (run true window earlier) happening
      obtain ⟨found, fault, hi⟩ := ih (fun reads h => hfind reads (List.mem_append_left _ h))
        fun a ha => hfed a (hmore ▸ List.mem_append_left _ ha)
      obtain ⟨settled, met, fault', ha⟩ := accounted_run true window earlier
      exact hi.after ha (fun reads h => hfind reads (by simp [h])) hfed

/-- A run that is fed some ids and no faults, and where every lookup finds what there is
to find for its id. -/
structure Feeds (find : String → Except Fault (Option Document)) (ids : List String)
    (window : Nat) (happenings : List Happening) : Prop where
  finds : ∀ reads, .poll reads ∈ happenings → reads.find = find
  fed : (run true window happenings).fed = ids.map .ok

/-- Such a run that is driven to its end. -/
structure Drives (find : String → Except Fault (Option Document)) (ids : List String)
    (window : Nat) (happenings : List Happening) : Prop extends
    Feeds find ids window happenings where
  ended : .ended ∈ (run true window happenings).answers

/-- A run that is fed ids goes in order. -/
theorem Feeds.inTurn (hf : Feeds find ids window happenings) :
    ∃ found fault, (run true window happenings).InTurn find found fault := by
  refine inTurn_run window happenings hf.finds ?_
  rw [hf.fed]
  simp

/-- A run driven to its end has told what its lookups find up to the first fault, and
has counted those of them that find nothing. -/
theorem Drives.told_eq (hd : Drives find ids window happenings) :
    ∃ n, (run true window happenings).told =
        (itemsOf (upToFault (ids.map find)).1 (upToFault (ids.map find)).2).map some ++
          List.replicate (n + 1) none ∧
      (run true window happenings).resolution.dropped =
        (upToFault (ids.map find)).1.countP Option.isNone := by
  obtain ⟨found, fault, hi⟩ := hd.inTurn
  have houtcomes : (run true window happenings).fed.map (outcomeOf find) = ids.map find := by
    simp [hd.fed, outcomeOf]
  have hsplit : upToFault (ids.map find) = (found, fault) := by
    rw [← houtcomes]
    cases fault with
    | none =>
        obtain ⟨hsound, howed⟩ := hi.stands
        obtain ⟨settled, met, fault', ha⟩ := accounted_run true window happenings
        obtain ⟨hex, hidle⟩ := ha.ended hd.ended hsound.running
        simp only [inFlight, Nat.add_eq_zero_iff, List.length_eq_zero_iff] at hidle
        have hnothing : (run true window happenings).resolution.owed find = [] := by
          simp [owed, hidle, hsound.taken hex]
        rw [howed, hnothing, List.append_nil, upToFault_map_ok]
    | some f =>
        obtain ⟨_, left, hleft⟩ := hi.stands
        rw [hleft, upToFault_append_error]
  obtain ⟨n, hn⟩ := hi.told
  rw [hsplit]
  cases n with
  | succ n => exact ⟨n, hn, hi.dropped⟩
  | zero =>
      have hended := ended_mem_answers.mp hd.ended
      simp [hn] at hended

/-- Polls feed nothing. -/
theorem fed_foldl_poll (h : History) (reads : Reads) (n : Nat) :
    ((List.replicate n (.poll reads)).foldl after h).fed = h.fed := by
  induction n generalizing h with
  | zero => rfl
  | succ n ih => exact ih (h.after (.poll reads))

/-- While nothing is held back, enough polls bring a run that goes on to its end. -/
theorem exists_ended {free : Reads} (hfree : ∀ id, free.held id = false) {h : History}
    (hsound : h.resolution.Sound true) (hclosed : h.resolution.closed = true) :
    ∃ n, .ended ∈ ((List.replicate n (.poll free)).foldl after h).answers := by
  induction hsize : h.resolution.size using Nat.strongRecOn generalizing h with
  | ind size ih =>
      obtain ⟨_, _, _, hgoes, _, hstill⟩ := poll_account free hsound
      obtain ⟨hanswers, _⟩ := poll_free hsound hfree (hsound.kept rfl).2.1 hclosed
      obtain ⟨_, _, _, _, _, hfailed, _⟩ := poll_progress free h.resolution
      rcases hpoll : h.resolution.poll free with ⟨(fault | document) | _ | _, r⟩
      all_goals rw [hpoll] at hgoes hstill hanswers hfailed
      · -- the poll after a fault answers the end
        have hover : r.failed = true := hfailed.mpr (Or.inr ⟨fault, rfl⟩)
        exact ⟨2, by simp [List.replicate, after, hpoll, poll_of_failed free hover]⟩
      · have hlt : (h.after (.poll free)).resolution.size < size := by
          simpa [after, hpoll, ← hsize] using size_poll_lt hpoll
        obtain ⟨n, hn⟩ := ih _ hlt (h := h.after (.poll free))
          (by simpa [after, hpoll] using hgoes) (by simpa [after, hpoll, hclosed] using hstill) rfl
        exact ⟨n + 1, hn⟩
      · exact absurd rfl hanswers
      · exact ⟨1, by simp [after, hpoll]⟩

/-- However far a run has come, more polls drive it to its end once no more ids arrive. -/
theorem Feeds.exists_drives (hf : Feeds find ids window happenings)
    (hclosed : (run true window happenings).resolution.closed = true) :
    ∃ more, Drives find ids window (happenings ++ more) := by
  have hpolls : ∃ n, .ended ∈ ((List.replicate n (.poll ⟨find, fun _ => false⟩)).foldl after
      (run true window happenings)).answers := by
    obtain ⟨found, fault, hi⟩ := hf.inTurn
    cases fault with
    | none => exact exists_ended (fun _ => rfl) hi.stands.1 hclosed
    | some f => exact ⟨1, by simp [after, poll_of_failed _ hi.stands.1]⟩
  obtain ⟨n, hn⟩ := hpolls
  have hrun : ∀ more, run true window (happenings ++ more) =
      more.foldl after (run true window happenings) := fun more => List.foldl_append
  refine ⟨List.replicate n (.poll ⟨find, fun _ => false⟩), ⟨?_, ?_⟩, ?_⟩
  · intro reads hreads
    rcases List.mem_append.mp hreads with hbefore | hmore
    · exact hf.finds reads hbefore
    · cases List.eq_of_mem_replicate hmore
      rfl
  · rw [hrun, fed_foldl_poll, hf.fed]
  · rwa [hrun]

/-- **Ordered resolution does not depend on latency or window.**  Two runs in order of
arrival whose lookups find the same one by one, and that are both driven to their
end, tell the same: the documents found before the first fault, in the order of
the ids, then this fault, if there is one, and then only the end.  Both count as
dropped the lookups before this point that find nothing.  The ids themselves may
differ, so the lookups of an id that comes twice may also be finished apart.  And
whatever has happened to a run, once no more ids arrive it can be driven on to
its end. -/
theorem ordered_runs_agree (h : Drives find ids window happenings)
    (h' : Drives find' ids' window' happenings') (hsame : ids.map find = ids'.map find') :
    (∃ found fault, upToFault (ids.map find) = (found, fault) ∧
      (∃ n, (run true window happenings).told =
        (itemsOf found fault).map some ++ List.replicate (n + 1) none) ∧
      (∃ n, (run true window' happenings').told =
        (itemsOf found fault).map some ++ List.replicate (n + 1) none) ∧
      (run true window happenings).resolution.dropped = found.countP Option.isNone ∧
      (run true window' happenings').resolution.dropped = found.countP Option.isNone) ∧
    ∀ window happenings, Feeds find ids window happenings →
      (run true window happenings).resolution.closed = true →
      ∃ more, Drives find ids window (happenings ++ more) := by
  obtain ⟨n, htold, hdropped⟩ := h.told_eq
  obtain ⟨n', htold', hdropped'⟩ := h'.told_eq
  rw [← hsame] at htold' hdropped'
  exact ⟨⟨_, _, rfl, ⟨n, htold⟩, ⟨n', htold'⟩, hdropped, hdropped'⟩,
    fun _ _ hf hclosed => hf.exists_drives hclosed⟩

/-- Lookups of which one finds a document, one nothing, and the others a fault. -/
def someFail (id : String) : Except Fault (Option Document) :=
  if id = "a" then .ok (some (.bool true))
  else if id = "b" then .ok none
  else .error (.unavailable "offline")

/-- All ids are looked up at once, and the first lookup takes longest. -/
def firstSlow : List Happening :=
  [.feed [.ok "a", .ok "b", .ok "c", .ok "b"], .close, .poll ⟨someFail, (· == "a")⟩,
    .poll ⟨someFail, fun _ => false⟩, .poll ⟨someFail, fun _ => false⟩,
    .poll ⟨someFail, fun _ => false⟩]

/-- The same ids come bit by bit, and the lookup that finds a fault takes longest. -/
def faultSlow : List Happening :=
  [.feed [.ok "a"], .poll ⟨someFail, fun _ => false⟩, .feed [.ok "b", .ok "c"],
    .poll ⟨someFail, (· == "c")⟩, .feed [.ok "b"], .close, .poll ⟨someFail, fun _ => false⟩,
    .poll ⟨someFail, fun _ => false⟩]

/-- Whether four lookups may be outstanding or one, the document comes first, then the
fault, and of the two lookups that find nothing the second is not counted. -/
theorem ordered_runs_agree_someFail :
    Drives someFail ["a", "b", "c", "b"] 4 firstSlow ∧
      Drives someFail ["a", "b", "c", "b"] 1 faultSlow ∧
      ["a", "b", "c", "b"].map someFail = ["a", "b", "c", "b"].map someFail ∧
      (∃ n, (run true 4 firstSlow).told =
        [some (.ok (.bool true)), some (.error (.unavailable "offline"))] ++
          List.replicate (n + 1) none) ∧
      (∃ n, (run true 1 faultSlow).told =
        [some (.ok (.bool true)), some (.error (.unavailable "offline"))] ++
          List.replicate (n + 1) none) ∧
      (run true 4 firstSlow).resolution.dropped = 1 ∧
      (run true 1 faultSlow).resolution.dropped = 1 := by
  have hended : (run true 4 firstSlow).answers = [.pending, .item (.ok (.bool true)),
      .item (.error (.unavailable "offline")), .ended] := by cbv
  have hended' : (run true 1 faultSlow).answers = [.item (.ok (.bool true)), .pending,
      .item (.error (.unavailable "offline")), .ended] := by cbv
  have hfirst : Drives someFail ["a", "b", "c", "b"] 4 firstSlow :=
    ⟨⟨by simp [firstSlow], by cbv⟩, by simp [hended]⟩
  have hsecond : Drives someFail ["a", "b", "c", "b"] 1 faultSlow :=
    ⟨⟨by simp [faultSlow], by cbv⟩, by simp [hended']⟩
  obtain ⟨⟨found, fault, hsplit, htold⟩, _⟩ := ordered_runs_agree hfirst hsecond rfl
  cases hsplit
  exact ⟨hfirst, hsecond, rfl, htold⟩

end Runs

end History

end Resolution

end DocQuery
