import DocQuery.Log.Event
import DocQuery.Proofs.ByteOrder
import DocQuery.Proofs.Keys
import DocQuery.Proofs.Quoting
import DocQuery.Proofs.Since

/-!
# Lines of the log

A line of the log is an object of strings: the name of an event, its severity, and its
fields.  What the fields are is settled by the last value of each key, since they are
bound in turn (`Event.get?_loggedFields`), and their order by the order of the keys,
which is that of their bytes.  An object of strings is written without line breaks and
read back as it was, so a line is read as one event, and events have the same line
exactly if they differ by nothing that is logged (`Event.line_is_one_event`).

* `Event.parse?_line` — the object that a line is read as;
* `Event.line_eq_iff` — when two lines are the same;
* `Event.count_newline_logText` — a log has as many lines as events.
-/

namespace DocQuery

theorem Severity.name_injective {s s' : Severity} (h : s.name = s'.name) : s = s' := by
  cases s <;> cases s' <;> simp_all [name]

namespace Event

/-- A value was given to a key, and none was given to it later. -/
def LastValue (e : Event) (key value : String) : Prop :=
  Since e.fields (key, value) fun field => field.1 ≠ key

theorem isReserved_eq_false_iff {key : String} :
    isReserved key = false ↔ key ≠ "event" ∧ key ≠ "severity" := by
  simp [isReserved]

/-- **What is logged under a key** is its last value, unless the key is one of the head. -/
theorem get?_loggedFields {e : Event} {key value : String} :
    e.loggedFields.get? key = some value ↔ isReserved key = false ∧ e.LastValue key value := by
  cases hkey : isReserved key with
  | true =>
      refine iff_of_false (fun h => ?_) (by simp)
      have hmem := SortedMap.mem_ofList (SortedMap.mem_iff_get?.mpr h)
      simp [hkey] at hmem
  | false =>
      have hfold : e.loggedFields = e.fields.foldl (fun m field =>
          if isReserved field.1 = false then m.insert field.1 field.2 else m) .empty := by
        simp [loggedFields, SortedMap.ofList, List.foldl_filter]
      rw [hfold, LastValue, and_iff_right rfl]
      -- a reserved field is passed over, which changes nothing under other keys
      refine foldl_iff_since (fun m : SortedMap String String => m.get? key = some value) (by simp)
        fun m field => ?_
      by_cases hfield : field.1 = key
      · obtain ⟨_, v⟩ := field
        subst hfield
        simp [hkey, SortedMap.get?_insert]
      · have hother : field ≠ (key, value) := fun h => hfield (congrArg Prod.fst h)
        split <;> simp [SortedMap.get?_insert, hfield, Ne.symm hfield, hother]

theorem lastValue_iff {e : Event} {key value : String} (h : isReserved key = false) :
    e.LastValue key value ↔ e.loggedFields.get? key = some value := by
  rw [get?_loggedFields, and_iff_right h]

/-- A line is an object of strings. -/
theorem toJson_eq (e : Event) : e.toJson = .ofStrings
    (("event", e.name) :: ("severity", e.severity.name) :: e.loggedFields.toList) := rfl

/-- No key stands in a line twice. -/
theorem nodup_keys (e : Event) : ((("event", e.name) :: ("severity", e.severity.name) ::
    e.loggedFields.toList).map Prod.fst).Nodup := by
  have hlogged : ∀ key ∈ e.loggedFields.toList.map Prod.fst, isReserved key = false := by
    intro key hkey
    obtain ⟨field, hfield, rfl⟩ := List.mem_map.mp hkey
    exact (get?_loggedFields.mp (SortedMap.mem_iff_get?.mp hfield)).1
  have hsorted : (e.loggedFields.toList.map Prod.fst).Nodup :=
    List.pairwise_map.mpr (e.loggedFields.sorted.imp fun h => SortedMap.ne_of_lt h)
  simp only [List.map_cons, List.nodup_cons, List.mem_cons, not_or]
  refine ⟨⟨by decide, fun h => ?_⟩, fun h => ?_, hsorted⟩
  · exact absurd (hlogged _ h) (by decide)
  · exact absurd (hlogged _ h) (by decide)

/-- A line is read as the object that it was written for. -/
theorem parse?_line (e : Event) : Json.parse? e.line = some (.ofStrings
    (("event", e.name) :: ("severity", e.severity.name) :: e.loggedFields.toList)) := by
  rw [line, toJson_eq]
  exact Json.parse?_render_ofStrings e.nodup_keys

/-- A line breaks at its end and nowhere else. -/
theorem newline_notMem_render (e : Event) : '\n' ∉ e.toJson.render.toList := by
  intro hmem
  rw [Json.render, String.toList_ofList, toJson_eq] at hmem
  exact absurd (Json.le_of_mem_write hmem) (by decide)

/-- A log has one line for each event that is serious enough. -/
theorem count_newline_logText (least : Severity) (events : List Event) :
    (logText least events).toList.count '\n' =
      events.countP fun e => least.admits e.severity := by
  have hline (e : Event) : e.line.toList.count '\n' = 1 := by
    rw [line, String.toList_append, List.count_append,
      List.count_eq_zero.mpr e.newline_notMem_render]
    rfl
  rw [logText, List.countP_eq_length_filter]
  induction events.filter fun e => least.admits e.severity with
  | nil => rfl
  | cons e rest ih =>
      rw [List.map_cons, String.join_cons, String.toList_append, List.count_append, hline, ih,
        List.length_cons, Nat.add_comm]

/-- Events with one line are logged alike. -/
theorem line_eq_iff {e e' : Event} : e'.line = e.line ↔
    e'.severity = e.severity ∧ e'.name = e.name ∧ e'.loggedFields = e.loggedFields := by
  constructor
  · intro h
    have hread := e'.parse?_line
    rw [h, e.parse?_line, Option.some.injEq] at hread
    have hlists := Json.ofStrings_injective hread
    simp only [List.cons.injEq, Prod.mk.injEq, true_and] at hlists
    obtain ⟨hname, hseverity, hfields⟩ := hlists
    exact ⟨(Severity.name_injective hseverity).symm, hname.symm, (SortedMap.ext hfields).symm⟩
  · rintro ⟨hseverity, hname, hfields⟩
    rw [line, line, toJson_eq, toJson_eq, hseverity, hname, hfields]

/-- **A line is one event.**  It breaks at its end and nowhere else.  It is read as an
object with the name, the severity and then, in ascending order of their bytes, the other
keys of the fields, each with its last value.  And events have the same line exactly if
they agree on all of this, so no field can stand for a line, for the name or for the
severity. -/
theorem line_is_one_event (e : Event) :
    (∃ body : String, e.line = body ++ "\n" ∧ '\n' ∉ body.toList) ∧
    (∃ logged : List (String × String),
      Json.parse? e.line = some (.object (("event", .string e.name) ::
        ("severity", .string e.severity.name) ::
          logged.map fun field => (field.1, .string field.2))) ∧
      (logged.map Prod.fst).Pairwise (fun key key' => utf8Bytes key < utf8Bytes key') ∧
      ∀ key value, (key, value) ∈ logged ↔
        key ≠ "event" ∧ key ≠ "severity" ∧ e.LastValue key value) ∧
    ∀ e' : Event, e'.line = e.line ↔ e'.severity = e.severity ∧ e'.name = e.name ∧
      ∀ key value, key ≠ "event" → key ≠ "severity" →
        (e'.LastValue key value ↔ e.LastValue key value) := by
  refine ⟨⟨e.toJson.render, rfl, e.newline_notMem_render⟩,
    ⟨e.loggedFields.toList, e.parse?_line, ?_, fun key value => ?_⟩, fun e' => ?_⟩
  · exact List.pairwise_map.mpr (e.loggedFields.sorted.imp fun h => lt_iff_utf8Bytes_lt.mp h)
  · rw [SortedMap.mem_iff_get?, get?_loggedFields, isReserved_eq_false_iff, and_assoc]
  · rw [line_eq_iff]
    refine and_congr_right' (and_congr_right' ⟨fun h key value hevent hseverity => ?_, fun h => ?_⟩)
    · have hkey := isReserved_eq_false_iff.mpr ⟨hevent, hseverity⟩
      rw [lastValue_iff hkey, lastValue_iff hkey, h]
    · refine SortedMap.ext_get? fun key => Option.ext fun value => ?_
      rw [get?_loggedFields, get?_loggedFields]
      refine and_congr_right fun hkey => ?_
      exact h key value (isReserved_eq_false_iff.mp hkey).1 (isReserved_eq_false_iff.mp hkey).2

/-- A line break and a head inside a value stay inside it, and a field named `event`
leaves no trace. -/
theorem line_is_one_event_forged :
    let e : Event := ⟨.warn, "LOGIN", [("user", "a"), ("event", "OK"),
      ("user", "b\"\x7d\n\x7b\"event\":\"OK")]⟩
    let e' : Event := ⟨.warn, "LOGIN", [("user", "b\"\x7d\n\x7b\"event\":\"OK")]⟩
    e'.line = e.line := by
  intro e e'
  have hlogged : e'.loggedFields = e.loggedFields := by decide
  refine ((line_is_one_event e).2.2 e').mpr ⟨rfl, rfl, fun key value hevent hseverity => ?_⟩
  have hkey := isReserved_eq_false_iff.mpr ⟨hevent, hseverity⟩
  rw [lastValue_iff hkey, lastValue_iff hkey, hlogged]

end Event

end DocQuery
