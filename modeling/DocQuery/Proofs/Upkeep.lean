import DocQuery.Proofs.Pipeline
import DocQuery.Proofs.Updates
import DocQuery.Session

/-!
# Keeping a catalog up to date

Whatever is done to a session, its catalog only follows updates
(`catalog_perform`, `exists_followed`), so it stays canonical.  As long as
every write and deletion of the store is at once passed on to the catalog, the
catalog holds the documents of the store: writes, deletions and rebuilds each
keep this up (`synced_write`, `synced_delete`, `synced_perform`), and so does
every run (`synced_run`).  The catalog is then the one that a rebuild from the
store would give (`Synced.rebuild_eq`).
-/

namespace DocQuery

/-! ## Scans with faults -/

namespace Store

/-- What a scan that meets faults makes of an entry. -/
def readWith (impairment : Impairment) (entry : Entry) : Except Fault Entry :=
  match impairment.entries.lookup entry.id with
  | some fault => .error fault
  | none => .ok entry

/-- A scan that meets faults reads the entries of the store. -/
theorem scan_impairedView (s : Store) (impairment : Impairment) (request : ScanRequest) :
    (s.impairedView impairment).scan request = (s.scan request).map (readWith impairment) := rfl

/-- An entry that is read is read as it is. -/
theorem eq_of_readWith {impairment : Impairment} {e e' : Entry}
    (h : readWith impairment e = .ok e') : e' = e := by
  unfold readWith at h
  split at h
  · cases h
  · exact (Except.ok.inj h).symm

/-- The scan of everything in a store some of whose reads meet faults. -/
def scanned (s : Store) (impairment : Impairment) : Scan where
  outcomes := (s.impairedView impairment).scan .everything
  distinct := by
    have hids : (s.scan .everything).Pairwise fun a b => a.id < b.id :=
      List.pairwise_map.mpr s.entries.sorted
    have hread : ∀ e e', (readWith impairment e).toOption = some e' → e' = e := by
      intro e e' h
      cases hread : readWith impairment e with
      | error fault => simp [hread, Except.toOption] at h
      | ok entry =>
          simp only [hread, Except.toOption, Option.some.injEq] at h
          exact h ▸ eq_of_readWith hread
    rw [scan_impairedView]
    apply List.pairwise_map.mpr
    apply List.pairwise_filterMap.mpr
    apply List.pairwise_map.mpr
    refine hids.imp fun hlt e he e' he' => SortedMap.ne_of_lt ?_
    rw [hread _ e he, hread _ e' he']
    exact hlt

/-- A rebuild from a store leaves under each id what is stored there, or it
meets a fault and decides nothing. -/
theorem decides_scanned (s : Store) (impairment : Impairment) (id : String) :
    ((Update.rebuild (s.scanned impairment)).decides id).getD (s.get? id) = s.get? id := by
  cases hgather : gather (s.scanned impairment).outcomes with
  | error fault => simp [Update.decides, hgather]
  | ok entries =>
      have hread : ∀ e e', readWith impairment e = .ok e' → e = e' :=
        fun _ _ h => (eq_of_readWith h).symm
      have hentries : entries = s.scan .everything := by
        simpa using (eq_map_of_gather_map hread hgather).symm
      have hlookup : ((s.scan .everything).find? fun e => e.id = id).bind Entry.document =
          s.get? id := by
        simp only [scan, ScanRequest.everything, takeUpTo, Bool.false_eq_true, if_false,
          List.find?_map, Store.get?, SortedMap.get?, Function.comp_def]
        cases s.entries.toList.find? fun e => e.1 = id <;> rfl
      simp [Update.decides, hgather, hentries, hlookup]

end Store

/-! ## What is done to a session -/

namespace Session

/-- What an action has the catalog follow. -/
def updateOf (s : Session) : Action → Option Update
  | .file id document => some (.write id document)
  | .unfile id => some (.delete id)
  | .rebuild => some (.rebuild (s.store.scanned s.impairment))
  | _ => none

/-- An action leaves the catalog as it is, or has it follow an update. -/
theorem catalog_perform (s : Session) (a : Action) :
    (s.perform a).2.catalog = (s.updateOf a).elim s.catalog s.catalog.update := by
  cases a with
  | rebuild =>
      simp only [perform, rebuild, updateOf, Option.elim_some, Catalog.update, Store.scanned,
        storeView]
      cases s.catalog.rebuild ((s.store.impairedView s.impairment).scan .everything) <;> rfl
  | queryAll filter options =>
      simp only [perform]
      split <;> rfl
  | start name filter options =>
      simp only [perform, dropStream, setStream]
      split <;> rfl
  | pull name take =>
      simp only [perform]
      split
      · rfl
      · split <;> rfl
  | stop name =>
      simp only [perform, dropStream]
      split <;> rfl
  | _ => rfl

/-- Only writes and deletions change the store. -/
theorem store_perform (s : Session) (a : Action) :
    (s.perform a).2.store =
      match a with
      | .put id document => s.store.put id document
      | .delete id => s.store.delete id
      | _ => s.store := by
  cases a with
  | rebuild =>
      simp only [perform, rebuild]
      split <;> rfl
  | queryAll filter options =>
      simp only [perform]
      split <;> rfl
  | start name filter options =>
      simp only [perform, dropStream, setStream]
      split <;> rfl
  | pull name take =>
      simp only [perform]
      split
      · rfl
      · split <;> rfl
  | stop name =>
      simp only [perform, dropStream]
      split <;> rfl
  | _ => rfl

/-- Whatever is done to a session, its catalog follows updates. -/
theorem exists_followed (s : Session) (actions : List Action) :
    ∃ updates, (s.run actions).2.catalog = s.catalog.followed updates := by
  induction actions generalizing s with
  | nil => exact ⟨[], rfl⟩
  | cons a rest ih =>
      obtain ⟨updates, hupdates⟩ := ih (s.perform a).2
      refine ⟨(s.updateOf a).toList ++ updates, ?_⟩
      show ((s.perform a).2.run rest).2.catalog = _
      rw [hupdates, catalog_perform]
      cases s.updateOf a <;> rfl

/-! ## Catalogs in step with the store -/

/-- The catalog of a session holds the documents of its store. -/
def Synced (s : Session) (fields : List String) : Prop :=
  s.catalog.Canonical fields s.store.get?

/-- Whether an action changes the store, or files single documents. -/
def changes : Action → Bool
  | .put _ _ | .delete _ | .file _ _ | .unfile _ => true
  | _ => false

/-- Actions in which every write and deletion of the store is at once passed
on to the catalog, and no other document is filed or taken out. -/
inductive Paired : List Action → Prop
  | nil : Paired []
  | write (id : String) (document : Document) {rest : List Action} (tail : Paired rest) :
      Paired (.put id document :: .file id document :: rest)
  | delete (id : String) {rest : List Action} (tail : Paired rest) :
      Paired (.delete id :: .unfile id :: rest)
  | other {a : Action} {rest : List Action} (ha : changes a = false) (tail : Paired rest) :
      Paired (a :: rest)

section Synced

variable {s : Session} {fields : List String}

/-- A write that is passed on keeps the catalog in step. -/
theorem synced_write (h : s.Synced fields) (id : String) (document : Document) :
    ((s.perform (.put id document)).2.perform (.file id document)).2.Synced fields := by
  have hfiled : (s.store.put id document).get? = fun other =>
      ((Update.write id document).decides other).getD (s.store.get? other) := by
    funext other
    simp only [Store.get?_put, Update.decides, @eq_comm _ id]
    split <;> rfl
  have hstep := Catalog.canonical_update h (.write id document)
  rw [← hfiled] at hstep
  exact hstep

/-- A deletion that is passed on keeps the catalog in step. -/
theorem synced_delete (h : s.Synced fields) (id : String) :
    ((s.perform (.delete id)).2.perform (.unfile id)).2.Synced fields := by
  have hfiled : (s.store.delete id).get? = fun other =>
      ((Update.delete id).decides other).getD (s.store.get? other) := by
    funext other
    simp only [Store.get?_delete, Update.decides, @eq_comm _ id]
    split <;> rfl
  have hstep := Catalog.canonical_update h (.delete id)
  rw [← hfiled] at hstep
  exact hstep

/-- Other actions keep the catalog in step, a rebuild included. -/
theorem synced_perform (h : s.Synced fields) {a : Action} (ha : changes a = false) :
    (s.perform a).2.Synced fields := by
  have hstore : (s.perform a).2.store = s.store := by
    rw [store_perform]
    cases a <;> simp_all [changes]
  rw [Synced, hstore, catalog_perform]
  cases a with
  | rebuild =>
      have hfiled : s.store.get? = fun id =>
          ((Update.rebuild (s.store.scanned s.impairment)).decides id).getD (s.store.get? id) :=
        funext fun id => (s.store.decides_scanned s.impairment id).symm
      have hstep := Catalog.canonical_update h (.rebuild (s.store.scanned s.impairment))
      rwa [← hfiled] at hstep
  | put | delete | file | unfile => cases ha
  | _ => exact h

/-- **The run lemma.**  Catalog and store stay in step as long as changes come in pairs. -/
theorem synced_run (h : s.Synced fields) {actions : List Action} (hpaired : Paired actions) :
    (s.run actions).2.Synced fields := by
  induction hpaired generalizing s with
  | nil => exact h
  | write id document tail ih => exact ih (synced_write h id document)
  | delete id tail ih => exact ih (synced_delete h id)
  | other ha tail ih => exact ih (synced_perform h ha)

/-- A catalog in step with the store is the one that a rebuild gives. -/
theorem Synced.rebuild_eq (h : s.Synced fields) :
    (Catalog.ofFields fields).rebuild (s.store.view.scan .everything) =
      .ok (s.catalog, s.store.live.length) := by
  obtain ⟨c, hrebuild, hmirrors, hindexed⟩ := (Catalog.ofFields fields).exists_rebuild s.store
  have hcanonical : c.Canonical fields s.store.get? := by
    apply Catalog.canonical_of_mirrors hmirrors
    · intro field
      rw [hindexed, Catalog.contains_ofFields]
    · exact fun id document => Store.mem_live.symm
  rw [hrebuild, hcanonical.unique h]

end Synced

/-- A rebuild whose scan meets a fault returns the first one and changes nothing. -/
theorem rebuild_fault (s : Session) (read : List Entry) (fault : Fault)
    (rest : List (Except Fault Entry)) :
    s.rebuild (read.map .ok ++ .error fault :: rest) = (.error fault, s) := by
  rw [rebuild, Catalog.rebuild_eq, gather_error]

/-- A rebuild whose scan meets no fault counts the documents and files them. -/
theorem rebuild_entries (s : Session) (scan : Scan) (entries : List Entry)
    (h : scan.outcomes = entries.map .ok) :
    (s.rebuild scan.outcomes).1 = .ok (entries.countP fun e => e.document.isSome) ∧
      (s.rebuild scan.outcomes).2.catalog = s.catalog.update (.rebuild scan) := by
  have hcount : (Catalog.liveEntries entries).length =
      entries.countP fun e => e.document.isSome := by
    simp [Catalog.liveEntries, List.length_filterMap_eq_countP]
  rw [rebuild, Catalog.update, Catalog.rebuild_eq, h, gather_map_ok, ← hcount]
  exact ⟨rfl, rfl⟩

/-- **Catalogs stay canonical.**  Whatever a new catalog has followed, it
holds under each id what the last update that decides the id left there, and
its postings hold exactly the keys of these documents, none of them without
ids.  A rebuild from a scan with faults returns the first one and changes
nothing; from one without faults it returns the number of documents.  And
when catalog and store hold the same documents and every change is passed on
from one to the other, the catalog is always the one that a rebuild from the
store would give. -/
theorem catalog_stays_canonical (fields : List String) (updates : List Update) :
    ((Catalog.ofFields fields).followed updates).Canonical fields (latest updates) ∧
      ∀ s : Session, s.catalog = (Catalog.ofFields fields).followed updates →
        (∀ scan : Scan,
          (∀ (read : List Entry) fault rest, scan.outcomes = read.map .ok ++ .error fault :: rest →
            s.rebuild scan.outcomes = (.error fault, s) ∧
              s.catalog.update (.rebuild scan) = s.catalog) ∧
          ∀ entries : List Entry, scan.outcomes = entries.map .ok →
            (s.rebuild scan.outcomes).1 = .ok (entries.countP fun e => e.document.isSome) ∧
              (s.rebuild scan.outcomes).2.catalog = s.catalog.update (.rebuild scan)) ∧
        ((∀ id, s.catalog.bodies.get? id = s.store.get? id) →
          ∀ actions, Paired actions →
            (Catalog.ofFields fields).rebuild ((s.run actions).2.store.view.scan .everything) =
              .ok ((s.run actions).2.catalog, (s.run actions).2.store.live.length)) := by
  have hcanonical := Catalog.canonical_followed fields updates
  refine ⟨hcanonical, ?_⟩
  intro s hs
  rw [← hs] at hcanonical
  refine ⟨fun scan => ⟨?_, s.rebuild_entries scan⟩, ?_⟩
  · intro read fault rest hfault
    rw [Catalog.update, Catalog.rebuild_eq, hfault, gather_error]
    exact ⟨s.rebuild_fault read fault rest, rfl⟩
  · intro hagree actions hpaired
    have hsynced : s.Synced fields := by
      have hfiled : s.store.get? = latest updates :=
        funext fun id => (hagree id).symm.trans (hcanonical.bodies id)
      rwa [Synced, hfiled]
    exact (synced_run hsynced hpaired).rebuild_eq

/-- A document that is put and passed on is filed as by a rebuild. -/
theorem catalog_stays_canonical_onePut :
    let s := ((begin .empty ["v"]).run
      [.put "a" (.object [("v", .bool true)]), .file "a" (.object [("v", .bool true)])]).2
    (Catalog.ofFields ["v"]).rebuild (s.store.view.scan .everything) = .ok (s.catalog, 1) :=
  ((catalog_stays_canonical ["v"] []).2 (begin .empty ["v"]) rfl).2 (fun _ => rfl) _
    (.write "a" _ .nil)

end Session

end DocQuery
