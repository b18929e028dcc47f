import DocQuery.Proofs.Since
import DocQuery.Store.Basic

/-!
# What a store holds after its history

A store is filled with documents, ids possibly repeated, and then documents are
put into it and deleted from it.  Filling it is putting its documents in turn
(`ofHistory_eq`), so all that was ever done to it is one list of changes.

What a lookup finds depends on the last change to its id, what a scan lists on
whether the id was ever put.  One change is looked at in `get?_after` and
`contains_after`, and a run of them in `get?_foldl_after` and
`contains_foldl_after`.  An id is in one of three states, never stored, stored and
deleted since, or holding a document, which may be null, and lookups and scans tell
them alike (`reads_agree`).
-/

namespace DocQuery

namespace Store

/-- What is done to a store. -/
inductive Change where
  | put (id : String) (document : Document)
  | delete (id : String)

/-- The id that a change is about. -/
def Change.id : Change → String
  | .put id _ => id
  | .delete id => id

/-- The store after a change. -/
def after (s : Store) : Change → Store
  | .put id document => s.put id document
  | .delete id => s.delete id

/-- A store that is filled with documents and changed afterwards. -/
def ofHistory (documents : List (String × Document)) (changes : List Change) : Store :=
  changes.foldl after (ofDocuments documents)

/-- All that is done to a store that is filled with documents and changed afterwards. -/
def history (documents : List (String × Document)) (changes : List Change) : List Change :=
  documents.map (fun e => .put e.1 e.2) ++ changes

/-- A document was stored under an id, and nothing was done to the id since. -/
def LastStored (changes : List Change) (id : String) (document : Document) : Prop :=
  Since changes (.put id document) fun c => c.id ≠ id

/-- To fill a store with documents is to put them into it in turn. -/
theorem ofHistory_eq (documents : List (String × Document)) (changes : List Change) :
    ofHistory documents changes = (history documents changes).foldl after empty := by
  rw [ofHistory, history, List.foldl_append, List.foldl_map]
  rfl

section Changes

variable {changes : List Change} {c : Change} {id : String} {document : Document}

/-- **One change.**  A lookup finds what the change puts under its id, and under another
id what it found before. -/
theorem get?_after {s : Store} : (s.after c).get? id = some document ↔
    c = .put id document ∨ s.get? id = some document ∧ c.id ≠ id := by
  cases c with
  | put other d =>
      rw [after, get?_put]
      by_cases h : id = other
      · subst h
        simp [Change.id]
      · simp [Change.id, h, Ne.symm h]
  | delete other =>
      rw [after, get?_delete]
      by_cases h : id = other
      · subst h
        simp [Change.id]
      · simp [Change.id, h, Ne.symm h]

/-- **One change.**  An id is listed from when it is put, and a deletion keeps it. -/
theorem contains_after {s : Store} : (s.after c).entries.contains id = true ↔
    (∃ document, c = .put id document) ∨ s.entries.contains id = true := by
  cases c with
  | put other d =>
      simp only [after, put, SortedMap.contains, SortedMap.get?_insert]
      by_cases h : id = other
      · subst h
        simp
      · simp [h, Ne.symm h]
  | delete other =>
      simp only [after, delete, SortedMap.contains, SortedMap.get?_adjust]
      split <;> simp

/-- **Any changes.**  A lookup finds the document that was stored last. -/
theorem get?_foldl_after :
    (changes.foldl after empty).get? id = some document ↔ LastStored changes id document :=
  foldl_iff_since (fun s : Store => s.get? id = some document) (by simp [get?, empty])
    fun _ _ => get?_after

/-- **Any changes.**  An id is listed if it was ever put. -/
theorem contains_foldl_after : (changes.foldl after empty).entries.contains id = true ↔
    ∃ document, .put id document ∈ changes := by
  induction changes using List.reverseRecOn with
  | nil => simp [SortedMap.contains, empty]
  | append_singleton changes c ih =>
      rw [List.foldl_append, List.foldl_cons, List.foldl_nil, contains_after, ih, ← exists_or]
      simp [eq_comm, or_comm]

end Changes

/-- A scan lists the ids of a store in ascending order, each once. -/
theorem pairwise_scan (s : Store) : (s.scan .everything).Pairwise fun a b => a.id < b.id := by
  rw [scan, ScanRequest.everything, takeUpTo, if_neg Bool.false_ne_true, List.pairwise_map]
  exact s.entries.sorted

/-- An entry of a scan is an id with what is bound to it. -/
theorem mem_scan {s : Store} {e : Entry} :
    e ∈ s.scan .everything ↔ s.entries.get? e.id = some e.document := by
  rw [← SortedMap.mem_iff_get?, scan, ScanRequest.everything, takeUpTo,
    if_neg Bool.false_ne_true, List.mem_map]
  constructor
  · rintro ⟨binding, hmem, rfl⟩
    exact hmem
  · intro h
    exact ⟨_, h, rfl⟩

/-- What is read from a store agrees with what was done to it. -/
structure AgreesWith (s : Store) (changes : List Change) : Prop where
  /-- a lookup finds the document stored last, unless it was deleted since -/
  found : ∀ id document, s.get? id = some document ↔ LastStored changes id document
  /-- a scan lists ids in ascending order, each once -/
  ascending : (s.scan .everything).Pairwise fun a b => a.id < b.id
  /-- it lists the ids that were ever stored -/
  listed : ∀ id, (∃ e ∈ s.scan .everything, e.id = id) ↔ ∃ document, .put id document ∈ changes
  /-- with what a lookup finds, so a deleted id is a tombstone -/
  agreed : ∀ e ∈ s.scan .everything, e.document = s.get? e.id
  backwards : s.scan ⟨none, true⟩ = (s.scan .everything).reverse
  limited : ∀ n reverse, s.scan ⟨some n, reverse⟩ = (s.scan ⟨none, reverse⟩).take n

/-- **Reads agree with the history** of a store, whatever documents it was filled with
and whatever was put into it and deleted from it since. -/
theorem reads_agree (documents : List (String × Document)) (changes : List Change) :
    (ofHistory documents changes).AgreesWith (history documents changes) where
  found id document := by
    rw [ofHistory_eq]
    exact get?_foldl_after
  ascending := pairwise_scan _
  listed id := by
    rw [ofHistory_eq, ← contains_foldl_after, SortedMap.contains, Option.isSome_iff_exists]
    constructor
    · rintro ⟨e, he, rfl⟩
      exact ⟨e.document, mem_scan.mp he⟩
    · rintro ⟨bound, hbound⟩
      exact ⟨⟨id, bound⟩, mem_scan.mpr hbound, rfl⟩
  agreed e he := by
    rw [get?, mem_scan.mp he]
    rfl
  backwards := scan_reverse _
  limited := scan_limited _

/-- A null is found, a tombstone is not, and a tombstone that is put again is a document. -/
example :
    let s := ofHistory [("a", .null), ("b", .null), ("b", .bool true)]
      [.delete "b", .delete "z", .delete "a", .put "a" .null]
    ["a", "b", "z"].map (fun id => (s.get? id).map Json.isNull) = [some true, none, none] ∧
      (s.scan ⟨some 1, true⟩).map Entry.id = ["b"] := by
  decide

end Store

end DocQuery
