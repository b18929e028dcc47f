import DocQuery.Proofs.Postings
import Mathlib.Data.List.Nodup

/-!
# Catalogs that mirror a store

A catalog mirrors some documents if the bodies it keeps are these documents,
and each of its postings holds exactly their keys in its field.  Filing a
document under a fresh id keeps this up (`mirrors_file`), so a catalog that
is rebuilt from a scan mirrors the documents of the store
(`exists_rebuild`), and its fields are those it had before.
-/

namespace DocQuery

namespace Store

/-- The ids of the documents that are not deleted are ascending. -/
theorem pairwise_live (s : Store) : (s.live.map Prod.fst).Pairwise (· < ·) := by
  refine List.pairwise_map.mpr (List.pairwise_filterMap.mpr (s.entries.sorted.imp ?_))
  intro a b hlt e he e' he'
  obtain ⟨_, _, rfl⟩ := Option.map_eq_some_iff.mp he
  obtain ⟨_, _, rfl⟩ := Option.map_eq_some_iff.mp he'
  exact hlt

/-- No id has two documents. -/
theorem nodup_live (s : Store) : (s.live.map Prod.fst).Nodup :=
  s.pairwise_live.imp fun hlt => SortedMap.ne_of_lt hlt

/-- The documents that are not deleted are those that lookups find. -/
theorem mem_live {s : Store} {id : String} {document : Document} :
    (id, document) ∈ s.live ↔ s.get? id = some document := by
  simp only [live, get?, List.mem_filterMap]
  constructor
  · intro hentry
    obtain ⟨⟨id', body⟩, hmem, hbody⟩ := hentry
    obtain ⟨_, rfl, heq⟩ := Option.map_eq_some_iff.mp hbody
    cases heq
    simp [SortedMap.mem_iff_get?.mp hmem]
  · intro h
    refine ⟨(id, some document), SortedMap.mem_iff_get?.mpr ?_, rfl⟩
    cases hget : s.entries.get? id <;> simp_all

end Store

namespace Catalog

/-- The fields of a catalog are those it was made for. -/
theorem contains_ofFields {fields : List String} {field : String} :
    (ofFields fields).fields.contains field = true ↔ field ∈ fields := by
  rw [← SortedMap.mem_keys, ofFields, SortedMap.mem_keys_ofList]
  simp

/-- The keys of a document in a field are those of its attribute. -/
theorem mem_keysIn {field : String} {document : Document} {key : IndexKey} :
    key ∈ keysIn field document ↔
      ∃ value, document.valueAt field = some value ∧ key ∈ IndexKey.keysOf value := by
  unfold keysIn
  cases document.valueAt field <;> simp

/-- A catalog in which exactly some documents are filed, one under each id. -/
structure Mirrors (c : Catalog) (filed : List (String × Document)) : Prop where
  bodies : ∀ id document, c.bodies.get? id = some document ↔ (id, document) ∈ filed
  posted : ∀ field postings, c.fields.get? field = some postings → ∀ key id,
    postings.Holds key id ↔ ∃ document, (id, document) ∈ filed ∧ key ∈ keysIn field document

/-- Nothing is filed in a cleared catalog. -/
theorem mirrors_cleared (c : Catalog) : c.cleared.Mirrors [] where
  bodies id document := by simp [cleared]
  posted field postings h key id := by
    rw [cleared, SortedMap.get?_map] at h
    obtain ⟨_, _, rfl⟩ := Option.map_eq_some_iff.mp h
    simp [Postings.not_holds_empty]

/-- Filing a document under a fresh id mirrors one document more. -/
theorem mirrors_file {c : Catalog} {filed : List (String × Document)} {id : String}
    {document : Document} (h : c.Mirrors filed) (hfresh : id ∉ filed.map Prod.fst) :
    (c.file id document).Mirrors (filed ++ [(id, document)]) where
  bodies other body := by
    have hnot : (id, body) ∉ filed := fun hmem => hfresh (List.mem_map_of_mem hmem)
    rw [file, SortedMap.get?_insert]
    by_cases hid : other = id
    · subst hid
      simp [hnot, eq_comm]
    · simp [hid, h.bodies]
  posted field postings hget key other := by
    rw [file, SortedMap.get?_map] at hget
    obtain ⟨postings, hpostings, rfl⟩ := Option.map_eq_some_iff.mp hget
    rw [Postings.holds_foldl_insert, h.posted field postings hpostings]
    constructor
    · intro hheld
      rcases hheld with ⟨hkey, rfl⟩ | ⟨body, hmem, hkey⟩
      · exact ⟨document, by simp, hkey⟩
      · exact ⟨body, by simp [hmem], hkey⟩
    · intro hdocument
      obtain ⟨body, hmem, hkey⟩ := hdocument
      rcases List.mem_append.mp hmem with hmem | hmem
      · exact Or.inr ⟨body, hmem, hkey⟩
      · cases List.mem_singleton.mp hmem
        exact Or.inl ⟨hkey, rfl⟩

/-- Taking out the document of an id mirrors the others. -/
theorem mirrors_unfile {c : Catalog} {filed : List (String × Document)} (h : c.Mirrors filed)
    (id : String) : (c.unfile id).Mirrors (filed.filter fun e => e.1 ≠ id) := by
  cases hget : c.bodies.get? id with
  | none =>
      have hnone : (filed.filter fun e => e.1 ≠ id) = filed := by
        apply List.filter_eq_self.mpr
        intro e he
        have hbody := (h.bodies e.1 e.2).mpr he
        have hne : e.1 ≠ id := fun heq => by simp [heq, hget] at hbody
        simp [hne]
      simpa only [unfile, hget, hnone] using h
  | some document =>
      simp only [unfile, hget]
      constructor
      · intro other body
        rw [SortedMap.get?_erase, List.mem_filter, ← h.bodies]
        by_cases hid : other = id <;> simp [hid]
      · intro field postings hleft key other
        rw [SortedMap.get?_map] at hleft
        obtain ⟨postings, hpostings, rfl⟩ := Option.map_eq_some_iff.mp hleft
        rw [Postings.holds_foldl_remove, h.posted field postings hpostings]
        constructor
        · intro hheld
          obtain ⟨⟨body, hmem, hkey⟩, hkept⟩ := hheld
          -- the keys of the document itself are those taken away
          have hne : other ≠ id := by
            rintro rfl
            rw [← h.bodies, hget, Option.some.injEq] at hmem
            exact hkept ⟨hmem ▸ hkey, rfl⟩
          exact ⟨body, List.mem_filter.mpr ⟨hmem, by simpa using hne⟩, hkey⟩
        · intro hbody
          obtain ⟨body, hmem, hkey⟩ := hbody
          obtain ⟨hmem, hne⟩ := List.mem_filter.mp hmem
          exact ⟨⟨body, hmem, hkey⟩, fun hsame => of_decide_eq_true hne hsame.2⟩

/-- Writing a document mirrors it in the place of the one that its id had. -/
theorem mirrors_write {c : Catalog} {filed : List (String × Document)} (h : c.Mirrors filed)
    (id : String) (document : Document) :
    (c.write id document).Mirrors ((filed.filter fun e => e.1 ≠ id) ++ [(id, document)]) := by
  apply mirrors_file (mirrors_unfile h id)
  intro hmem
  obtain ⟨e, he, rfl⟩ := List.mem_map.mp hmem
  exact of_decide_eq_true (List.mem_filter.mp he).2 rfl

/-- Filing keeps the fields. -/
theorem contains_file (c : Catalog) (id : String) (document : Document) (field : String) :
    (c.file id document).fields.contains field = c.fields.contains field := by
  simp [file, SortedMap.contains, SortedMap.get?_map]

/-- Taking a document out keeps the fields. -/
theorem contains_unfile (c : Catalog) (id field : String) :
    (c.unfile id).fields.contains field = c.fields.contains field := by
  unfold unfile
  cases c.bodies.get? id <;> simp [SortedMap.contains, SortedMap.get?_map]

/-- Filing documents under fresh ids, one after the other, mirrors them all. -/
theorem mirrors_foldl_file (documents : List (String × Document)) {c : Catalog}
    {filed : List (String × Document)} (h : c.Mirrors filed)
    (hnodup : ((filed ++ documents).map Prod.fst).Nodup) :
    (documents.foldl (fun c e => c.file e.1 e.2) c).Mirrors (filed ++ documents) ∧
      ∀ field, (documents.foldl (fun c e => c.file e.1 e.2) c).fields.contains field =
        c.fields.contains field := by
  induction documents generalizing c filed with
  | nil => exact ⟨by simpa using h, fun _ => rfl⟩
  | cons e rest ih =>
      have hfresh : e.1 ∉ filed.map Prod.fst := by
        rw [List.map_append, List.nodup_append] at hnodup
        exact fun hmem => hnodup.2.2 _ hmem e.1 (by simp) rfl
      have hsplit : filed ++ e :: rest = filed ++ [e] ++ rest := by simp
      rw [hsplit] at hnodup ⊢
      obtain ⟨hmirrors, hfields⟩ := ih (mirrors_file h hfresh) hnodup
      exact ⟨hmirrors, fun field => (hfields field).trans (contains_file c e.1 e.2 field)⟩

/-- **A rebuilt catalog mirrors the store**, whatever was filed before, and
its fields are those it had. -/
theorem exists_rebuild (c : Catalog) (s : Store) :
    ∃ c', c.rebuild (s.view.scan .everything) = .ok (c', s.live.length) ∧ c'.Mirrors s.live ∧
      ∀ field, c'.fields.contains field = c.fields.contains field := by
  have hlive : liveEntries (s.scan .everything) = s.live := by
    simp [liveEntries, Store.scan, ScanRequest.everything, takeUpTo, Store.live,
      List.filterMap_map]
  have hrebuild : c.rebuild (s.view.scan .everything) =
      .ok (s.live.foldl (fun c e => c.file e.1 e.2) c.cleared, s.live.length) := by
    rw [rebuild, Store.view, gather_map_ok]
    show Except.ok _ = _
    rw [hlive]
  obtain ⟨hmirrors, hfields⟩ := mirrors_foldl_file s.live c.mirrors_cleared s.nodup_live
  refine ⟨_, hrebuild, hmirrors, fun field => (hfields field).trans ?_⟩
  simp [cleared, SortedMap.contains, SortedMap.get?_map]

end Catalog

end DocQuery
