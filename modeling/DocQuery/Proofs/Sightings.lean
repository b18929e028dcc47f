import DocQuery.Proofs.Answers
import DocQuery.Query.Distinct
import Mathlib.Data.List.Induction

/-!
# First sightings

To keep each document that references name where it is first named, the ids seen so far
are remembered.  After any items, faults and references without segments among them, these
are the ids that the items name and no others (`unseenIds_append`).  So what becomes of one
more item depends on nothing but what is named by the items before it
(`distinctIds_concat`), and everything that is to be said about a whole stream follows
item by item: which items are left (`distinctIds_eq`), and that their ids are those named,
each once, in the order of the first sightings (`ids_distinctIds`).
-/

namespace DocQuery

/-- The id that an item names, the last segment of a reference.  Faults name none, nor do
references without segments. -/
def namedBy? : Except Fault Reference → Option String
  | .ok reference => reference.segments.getLast?
  | .error _ => none

/-- The ids that items name, in turn. -/
def idsNamed (items : List (Except Fault Reference)) : List String := items.filterMap namedBy?

/-- What is left of an item where some ids have been seen: a fault as it is, and of a
reference the id that it names, unless it names none or one of those. -/
def sighting? (seen : List String) : Except Fault Reference → Option (Except Fault String)
  | .error fault => some (.error fault)
  | .ok reference =>
    match reference.segments.getLast? with
    | none => none
    | some id => if id ∈ seen then none else some (.ok id)

section Sightings

variable {seen seen' : List String} {items : List (Except Fault Reference)}

theorem idsNamed_cons (item : Except Fault Reference) (items : List (Except Fault Reference)) :
    idsNamed (item :: items) = (namedBy? item).toList ++ idsNamed items := by
  unfold idsNamed
  cases hitem : namedBy? item with
  | none => rw [List.filterMap_cons_none hitem]; rfl
  | some id => rw [List.filterMap_cons_some hitem]; rfl

theorem mem_idsNamed {id : String} :
    id ∈ idsNamed items ↔
      ∃ reference, .ok reference ∈ items ∧ reference.segments.getLast? = some id := by
  rw [idsNamed, List.mem_filterMap]
  constructor
  · rintro ⟨fault | reference, hitem, hid⟩
    · cases hid
    · exact ⟨reference, hitem, hid⟩
  · rintro ⟨reference, hitem, hid⟩
    exact ⟨.ok reference, hitem, hid⟩

/-- Only a fault leaves a fault. -/
theorem sighting?_eq_error_iff {item : Except Fault Reference} {fault : Fault} :
    sighting? seen item = some (.error fault) ↔ item = .error fault := by
  cases item with
  | error other => simp [sighting?]
  | ok reference =>
      simp only [sighting?, reduceCtorEq, iff_false]
      split
      · simp
      · split <;> simp

/-! ## The ids that have been seen -/

/-- In what order, and how often, ids were seen does not matter. -/
theorem unseenIds_congr (h : ∀ id, id ∈ seen ↔ id ∈ seen') :
    unseenIds seen items = unseenIds seen' items := by
  induction items generalizing seen seen' with
  | nil => rfl
  | cons item rest ih =>
      cases item with
      | error fault => rw [unseenIds, unseenIds, ih h]
      | ok reference =>
          cases hid : reference.documentId? with
          | none => simp only [unseenIds, hid, ih h]
          | some id =>
              have hcontains : seen.contains id = seen'.contains id := by
                rw [Bool.eq_iff_iff, List.contains_iff_mem, List.contains_iff_mem, h]
              have hcons : ∀ other, other ∈ id :: seen ↔ other ∈ id :: seen' := by simp [h]
              simp only [unseenIds, hid, hcontains, ih h, ih hcons]

/-- **One item.**  What is left of it comes first, and the id that it names has been seen
from then on. -/
theorem unseenIds_cons (seen : List String) (item : Except Fault Reference)
    (rest : List (Except Fault Reference)) :
    unseenIds seen (item :: rest) =
      (sighting? seen item).toList ++ unseenIds ((namedBy? item).toList ++ seen) rest := by
  cases item with
  | error fault => rfl
  | ok reference =>
      have hnamed : reference.segments.getLast? = reference.documentId? := rfl
      cases hid : reference.documentId? with
      | none => simp [unseenIds, sighting?, namedBy?, hnamed, hid]
      | some id =>
          by_cases hseen : id ∈ seen
          · have hcongr : unseenIds seen rest = unseenIds (id :: seen) rest :=
              unseenIds_congr fun other => by simp +contextual [hseen]
            simp [unseenIds, sighting?, namedBy?, hnamed, hid, hseen, hcongr]
          · simp [unseenIds, sighting?, namedBy?, hnamed, hid, hseen]

/-- **The loop invariant.**  After some items the ids that they name have been seen. -/
theorem unseenIds_append (seen : List String) (items more : List (Except Fault Reference)) :
    unseenIds seen (items ++ more) =
      unseenIds seen items ++ unseenIds (idsNamed items ++ seen) more := by
  induction items generalizing seen with
  | nil => rfl
  | cons item rest ih =>
      have hseen : unseenIds (idsNamed rest ++ ((namedBy? item).toList ++ seen)) more =
          unseenIds (idsNamed (item :: rest) ++ seen) more :=
        unseenIds_congr fun id => by simp [idsNamed_cons, or_left_comm]
      rw [List.cons_append, unseenIds_cons, unseenIds_cons, ih, hseen, List.append_assoc]

/-! ## What is left of a stream -/

/-- **The step lemma.**  What becomes of one more item depends on what is named before it. -/
theorem distinctIds_concat (items : List (Except Fault Reference))
    (item : Except Fault Reference) :
    distinctIds (items ++ [item]) =
      distinctIds items ++ (sighting? (idsNamed items) item).toList := by
  rw [distinctIds, unseenIds_append, unseenIds_cons, unseenIds, List.append_nil, List.append_nil]
  rfl

/-- Of each item is left what the items before it leave of it. -/
theorem distinctIds_eq (items : List (Except Fault Reference)) :
    distinctIds items =
      items.zipIdx.filterMap fun e => sighting? (idsNamed (items.take e.2)) e.1 := by
  induction items using List.reverseRecOn with
  | nil => rfl
  | append_singleton items item ih =>
      have hbefore : (items.zipIdx.filterMap fun e =>
          sighting? (idsNamed ((items ++ [item]).take e.2)) e.1) = distinctIds items := by
        rw [ih]
        apply List.filterMap_congr
        intro e he
        have hlt : e.2 < items.length := List.snd_lt_of_mem_zipIdx he
        rw [List.take_append_of_le_length (Nat.le_of_lt hlt)]
      rw [distinctIds_concat, List.zipIdx_append, List.filterMap_append, hbefore]
      cases hitem : sighting? (idsNamed items) item <;> simp [hitem]

/-- The ids left are those named, each where it is first named. -/
theorem ids_distinctIds (items : List (Except Fault Reference)) :
    (distinctIds items).filterMap Except.toOption = (idsNamed items).eraseDups := by
  induction items using List.reverseRecOn with
  | nil => rfl
  | append_singleton items item ih =>
      have hstep : (sighting? (idsNamed items) item).toList.filterMap Except.toOption =
          ((namedBy? item).toList.removeAll (idsNamed items)).eraseDups := by
        cases item with
        | error fault => rfl
        | ok reference =>
            cases hid : reference.segments.getLast? with
            | none => simp [sighting?, namedBy?, hid]
            | some id =>
                by_cases hseen : id ∈ idsNamed items <;>
                  simp [sighting?, namedBy?, hid, hseen, List.removeAll, Except.toOption,
                    eraseDups_of_nodup]
      have hnamed : idsNamed (items ++ [item]) = idsNamed items ++ (namedBy? item).toList := by
        rw [idsNamed, List.filterMap_append, ← idsNamed, ← idsNamed, idsNamed_cons]
        exact congrArg _ (List.append_nil _)
      rw [distinctIds_concat, List.filterMap_append, ih, hstep, hnamed, List.eraseDups_append]

/-- An id is left exactly if a reference names it. -/
theorem mem_distinctIds_ok {id : String} :
    .ok id ∈ distinctIds items ↔
      ∃ reference, .ok reference ∈ items ∧ reference.segments.getLast? = some id := by
  have hok : .ok id ∈ distinctIds items ↔ id ∈ (distinctIds items).filterMap Except.toOption := by
    rw [List.mem_filterMap]
    constructor
    · exact fun h => ⟨_, h, rfl⟩
    · rintro ⟨fault | other, h, heq⟩
      · cases heq
      · cases heq
        exact h
  rw [hok, ids_distinctIds, List.mem_eraseDups, mem_idsNamed]

/-- Faults stay, and no others come in. -/
theorem mem_distinctIds_error {fault : Fault} :
    .error fault ∈ distinctIds items ↔ .error fault ∈ items := by
  rw [distinctIds_eq, List.mem_filterMap]
  constructor
  · rintro ⟨e, he, hfault⟩
    rw [sighting?_eq_error_iff] at hfault
    exact hfault ▸ List.mem_of_getElem? (List.mem_zipIdx_iff_getElem?.mp he)
  · intro h
    obtain ⟨i, hi⟩ := List.mem_iff_getElem?.mp h
    exact ⟨(.error fault, i), List.mem_zipIdx_iff_getElem?.mpr hi, rfl⟩

/-- Without faults the distinct ids are the ids named, repetitions left out. -/
theorem distinctIds_map_ok (references : List Reference) :
    distinctIds (references.map .ok) =
      ((references.filterMap Reference.documentId?).eraseDups).map .ok := by
  obtain ⟨ids, hids⟩ : ∃ ids : List String, distinctIds (references.map .ok) = ids.map .ok :=
    exists_map_ok fun fault hfault => by simpa using mem_distinctIds_error.mp hfault
  have hnamed : idsNamed (references.map .ok) = references.filterMap Reference.documentId? := by
    rw [idsNamed, List.filterMap_map]
    rfl
  have hall := ids_distinctIds (references.map .ok)
  rw [hids, List.filterMap_map, hnamed] at hall
  rw [hids, ← hall]
  exact congrArg _ List.filterMap_some.symm

/-- **First sightings are kept.**  Of a stream of references and faults is left what each
item is when it is seen beside the items before it: a fault as it is, and of a reference
its last segment, unless it has none or one of the references before it ends in the same.
So no id is left twice, also where faults come between, every id that is named is left, and
the ids are in the order in which they are first named.  However the stream goes on, what
is left of its beginning stays in front. -/
theorem first_sightings_kept (items : List (Except Fault Reference)) :
    distinctIds items =
        (items.zipIdx.filterMap fun e => sighting? (idsNamed (items.take e.2)) e.1) ∧
      ((distinctIds items).filterMap Except.toOption).Nodup ∧
      (∀ id, .ok id ∈ distinctIds items ↔
        ∃ reference, .ok reference ∈ items ∧ reference.segments.getLast? = some id) ∧
      (distinctIds items).filterMap Except.toOption = (idsNamed items).eraseDups ∧
      ∀ more, distinctIds items <+: distinctIds (items ++ more) := by
  refine ⟨distinctIds_eq items, ?_, fun id => mem_distinctIds_ok, ids_distinctIds items, ?_⟩
  · rw [ids_distinctIds]
    exact nodup_eraseDups _
  · intro more
    rw [distinctIds, distinctIds, unseenIds_append]
    exact List.prefix_append _ _

/-- What was seen in front of a fault is still known behind it. -/
example :
    distinctIds [.ok ⟨["tags", "s:a", "d1"]⟩, .error (.index "lost"), .ok ⟨[]⟩,
        .ok ⟨["tags", "s:b", "d1"]⟩, .ok ⟨["d2"]⟩] =
      [.ok "d1", .error (.index "lost"), .ok "d2"] :=
  rfl

end Sightings

end DocQuery
