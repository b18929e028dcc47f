import DocQuery.Proofs.Filing
import Mathlib.Data.List.Induction

/-!
# Catalogs that follow a store

A catalog follows writes and deletions one by one, and files everything anew
from scans, some of which meet faults.  Whatever it has followed, it is
*canonical*: it holds under each id what the last update that decides the id
left there, and its postings hold exactly the keys of these documents.

* `canonical_update` — the step lemma: an update decides some ids and leaves
  the others as they were;
* `canonical_followed` — the run lemma, for all updates in turn;
* `Canonical.unique` — fields and filed documents determine the catalog.
-/

namespace DocQuery

/-! ## Updates -/

/-- The outcomes of a scan that reads no id twice. -/
structure Scan where
  outcomes : List (Except Fault Entry)
  distinct : ((outcomes.filterMap Except.toOption).map Entry.id).Nodup

/-- What a catalog follows. -/
inductive Update where
  /-- a document was written under an id -/
  | write (id : String) (document : Document)
  /-- the document of an id was deleted -/
  | delete (id : String)
  /-- everything is filed anew from a scan -/
  | rebuild (scan : Scan)

/-- What an update leaves under an id, if it decides that.  A rebuild decides
every id, unless the scan meets a fault. -/
def Update.decides (id : String) : Update → Option (Option Document)
  | .write other document => if other = id then some (some document) else none
  | .delete other => if other = id then some none else none
  | .rebuild scan =>
    match gather scan.outcomes with
    | .ok entries => some ((entries.find? fun e => e.id = id).bind Entry.document)
    | .error _ => none

/-- The document that the last update to decide an id left there. -/
def latest (updates : List Update) (id : String) : Option Document :=
  (updates.reverse.findSome? (Update.decides id)).join

namespace Catalog

/-- Follows an update; a rebuild that meets a fault changes nothing. -/
def update (c : Catalog) : Update → Catalog
  | .write id document => c.write id document
  | .delete id => c.unfile id
  | .rebuild scan =>
    match c.rebuild scan.outcomes with
    | .ok (c', _) => c'
    | .error _ => c

/-- Follows updates in turn. -/
def followed (c : Catalog) (updates : List Update) : Catalog := updates.foldl update c

/-- A catalog of some fields that holds certain documents and nothing else:
each is filed, in each field, under exactly the keys of its attribute there. -/
structure Canonical (c : Catalog) (fields : List String) (filed : String → Option Document) :
    Prop where
  indexed : ∀ field, c.fields.contains field = true ↔ field ∈ fields
  bodies : ∀ id, c.bodies.get? id = filed id
  posted : ∀ field postings, c.fields.get? field = some postings → ∀ key id,
    postings.Holds key id ↔ ∃ document value, c.bodies.get? id = some document ∧
      document.valueAt field = some value ∧ key ∈ IndexKey.keysOf value
  occupied : ∀ field postings, c.fields.get? field = some postings →
    ∀ group ∈ postings.groups.toList, group.2 ≠ .empty

section Canonical

variable {c : Catalog} {fields : List String} {filed : String → Option Document}

/-- A catalog that mirrors some documents is canonical for them. -/
theorem canonical_of_mirrors {documents : List (String × Document)} (h : c.Mirrors documents)
    (hindexed : ∀ field, c.fields.contains field = true ↔ field ∈ fields)
    (hfiled : ∀ id document, filed id = some document ↔ (id, document) ∈ documents) :
    c.Canonical fields filed where
  indexed := hindexed
  bodies id := by
    apply Option.ext
    intro document
    rw [h.bodies, hfiled]
  posted field postings hpostings key id := by
    rw [h.posted field postings hpostings]
    constructor
    · intro hheld
      obtain ⟨document, hmem, hkey⟩ := hheld
      obtain ⟨value, hvalue, hkey⟩ := mem_keysIn.mp hkey
      exact ⟨document, value, (h.bodies id document).mpr hmem, hvalue, hkey⟩
    · intro hheld
      obtain ⟨document, value, hget, hvalue, hkey⟩ := hheld
      exact ⟨document, (h.bodies id document).mp hget, mem_keysIn.mpr ⟨value, hvalue, hkey⟩⟩
  occupied _ postings _ := postings.occupied

/-- A canonical catalog mirrors its bodies. -/
theorem Canonical.mirrors (h : c.Canonical fields filed) : c.Mirrors c.bodies.toList where
  bodies _ _ := SortedMap.mem_iff_get?.symm
  posted field postings hpostings key id := by
    rw [h.posted field postings hpostings]
    constructor
    · intro hheld
      obtain ⟨document, value, hget, hvalue, hkey⟩ := hheld
      exact ⟨document, SortedMap.mem_iff_get?.mpr hget, mem_keysIn.mpr ⟨value, hvalue, hkey⟩⟩
    · intro hheld
      obtain ⟨document, hmem, hkey⟩ := hheld
      obtain ⟨value, hvalue, hkey⟩ := mem_keysIn.mp hkey
      exact ⟨document, value, SortedMap.mem_iff_get?.mp hmem, hvalue, hkey⟩

/-- **The fields and the filed documents determine a canonical catalog.** -/
theorem Canonical.unique {c' : Catalog} (h : c.Canonical fields filed)
    (h' : c'.Canonical fields filed) : c = c' := by
  have hbodies : c.bodies = c'.bodies := by
    apply SortedMap.ext_get?
    intro id
    rw [h.bodies, h'.bodies]
  have hfields : c.fields = c'.fields := by
    apply SortedMap.ext_get?
    intro field
    have hindexed : c.fields.contains field = c'.fields.contains field := by
      rw [Bool.eq_iff_iff, h.indexed, h'.indexed]
    unfold SortedMap.contains at hindexed
    cases hget : c.fields.get? field with
    | none => cases hget' : c'.fields.get? field <;> simp_all
    | some postings =>
        cases hget' : c'.fields.get? field with
        | none => simp_all
        | some postings' =>
            have hposted : ∀ key id, postings.Holds key id ↔ postings'.Holds key id := by
              intro key id
              rw [h.posted field postings hget, h'.posted field postings' hget', hbodies]
            rw [Postings.ext_holds hposted]
  exact Catalog.ext hfields hbodies

/-- Nothing is filed in a new catalog. -/
theorem canonical_ofFields (fields : List String) :
    (ofFields fields).Canonical fields fun _ => none := by
  have hempty : ∀ field postings, (ofFields fields).fields.get? field = some postings →
      postings = .empty := by
    intro field postings hget
    have hmem := SortedMap.mem_ofList (SortedMap.mem_iff_get?.mpr hget)
    obtain ⟨_, _, heq⟩ := List.mem_map.mp hmem
    exact (Prod.ext_iff.mp heq).2.symm
  constructor
  · exact fun field => contains_ofFields
  · exact fun id => rfl
  · intro field postings hget key id
    rw [hempty field postings hget]
    simp [Postings.not_holds_empty, ofFields]
  · exact fun _ postings _ => postings.occupied

/-! ## The step and the run -/

/-- A rebuild files the documents of a scan anew, or returns the first fault. -/
theorem rebuild_eq (c : Catalog) (scanned : List (Except Fault Entry)) :
    c.rebuild scanned =
      match gather scanned with
      | .ok entries =>
        .ok ((liveEntries entries).foldl (fun c e => c.file e.1 e.2) c.cleared,
          (liveEntries entries).length)
      | .error fault => .error fault := by
  unfold rebuild
  cases gather scanned <;> rfl

/-- The documents of a scan are those of its entries. -/
theorem mem_liveEntries {entries : List Entry} {id : String} {document : Document} :
    (id, document) ∈ liveEntries entries ↔ ⟨id, some document⟩ ∈ entries := by
  simp only [liveEntries, List.mem_filterMap, Option.map_eq_some_iff, Prod.mk.injEq]
  constructor
  · intro hentry
    obtain ⟨⟨_, _⟩, hmem, _, rfl, rfl, rfl⟩ := hentry
    exact hmem
  · intro hmem
    exact ⟨_, hmem, document, rfl, rfl, rfl⟩

/-- The ids of the documents of a scan are ids of its entries, in order. -/
theorem liveEntries_sublist (entries : List Entry) :
    ((liveEntries entries).map Prod.fst).Sublist (entries.map Entry.id) := by
  induction entries with
  | nil => exact List.Sublist.refl _
  | cons e rest ih =>
      cases hbody : e.document with
      | none => simpa [liveEntries, hbody] using ih.cons e.id
      | some document => simpa [liveEntries, hbody] using ih.cons_cons e.id

/-- Where no id is read twice, the first entry of an id is the only one. -/
theorem find?_entry_eq_some_iff {entries : List Entry} (h : (entries.map Entry.id).Nodup)
    {id : String} {document : Document} :
    ((entries.find? fun e => e.id = id).bind Entry.document) = some document ↔
      ⟨id, some document⟩ ∈ entries := by
  induction entries with
  | nil => simp
  | cons e rest ih =>
      obtain ⟨hfresh, hrest⟩ := List.nodup_cons.mp h
      by_cases hid : e.id = id
      · have hnot : (⟨id, some document⟩ : Entry) ∉ rest := fun hmem =>
          hfresh (hid ▸ List.mem_map_of_mem (f := Entry.id) hmem)
        obtain ⟨id', body⟩ := e
        simp_all [eq_comm]
      · have hne : (⟨id, some document⟩ : Entry) ≠ e := fun heq => hid (heq ▸ rfl)
        simpa [hid, hne] using ih hrest

/-- **The step lemma.**  An update leaves under an id what it decides, or what
was there before. -/
theorem canonical_update (h : c.Canonical fields filed) (u : Update) :
    (c.update u).Canonical fields fun id => (u.decides id).getD (filed id) := by
  have hfiled : ∀ id document, filed id = some document ↔ (id, document) ∈ c.bodies.toList := by
    intro id document
    rw [SortedMap.mem_iff_get?, h.bodies]
  cases u with
  | write id document =>
      apply canonical_of_mirrors (mirrors_write h.mirrors id document)
      · intro field
        rw [← h.indexed, ← contains_unfile c id, ← contains_file (c.unfile id) id document]
        rfl
      · intro other body
        by_cases hid : other = id
        · simp [Update.decides, hid, eq_comm]
        · have hid' : ¬ id = other := fun heq => hid heq.symm
          simp [Update.decides, hid, hid', hfiled]
  | delete id =>
      apply canonical_of_mirrors (mirrors_unfile h.mirrors id)
      · intro field
        rw [← h.indexed, ← contains_unfile c id]
      · intro other body
        by_cases hid : other = id
        · simp [Update.decides, hid]
        · have hid' : ¬ id = other := fun heq => hid heq.symm
          simp [Update.decides, hid, hid', hfiled]
  | rebuild scan =>
      cases hgather : gather scan.outcomes with
      | error fault => simpa [update, rebuild_eq, hgather, Update.decides] using h
      | ok entries =>
          have hdistinct : (entries.map Entry.id).Nodup := by
            have houtcomes := scan.distinct
            have hread : (entries.map (.ok : Entry → Except Fault Entry)).filterMap
                Except.toOption = entries := by
              rw [List.filterMap_map]
              exact List.filterMap_some
            rwa [gather_eq_ok_iff.mp hgather, hread] at houtcomes
          have hnodup : ((liveEntries entries).map Prod.fst).Nodup :=
            hdistinct.sublist (liveEntries_sublist entries)
          obtain ⟨hmirrors, hindexed⟩ :=
            mirrors_foldl_file (liveEntries entries) c.mirrors_cleared hnodup
          simp only [update, rebuild_eq, hgather]
          apply canonical_of_mirrors hmirrors
          · intro field
            rw [hindexed, ← h.indexed]
            simp [cleared, SortedMap.contains, SortedMap.get?_map]
          · intro id document
            simp only [Update.decides, hgather, Option.getD_some, List.nil_append]
            rw [find?_entry_eq_some_iff hdistinct, mem_liveEntries]

/-- **The run lemma.**  A catalog that has followed updates holds under each id
what the last one that decides it left there. -/
theorem canonical_followed (fields : List String) (updates : List Update) :
    ((ofFields fields).followed updates).Canonical fields (latest updates) := by
  induction updates using List.reverseRecOn with
  | nil => exact canonical_ofFields fields
  | append_singleton updates u ih =>
      have hstep := canonical_update ih u
      have hlatest : latest (updates ++ [u]) =
          fun id => (u.decides id).getD (latest updates id) := by
        funext id
        simp only [latest, List.reverse_append, List.reverse_cons, List.reverse_nil,
          List.nil_append, List.cons_append, List.findSome?_cons]
        cases u.decides id <;> rfl
      rw [hlatest]
      simpa [followed, List.foldl_append] using hstep

end Canonical

end Catalog

end DocQuery
