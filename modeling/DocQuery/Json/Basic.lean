import DocQuery.Json.Number

/-!
# JSON values

The members of an object stand in the order in which their keys first
appeared, each key once; `putMember` is how a member is added.  Equality of
values (`same`) ignores that order, and tells an integer from a
floating-point number wherever it stands.

* `ofMembers_of_nodup` — members with different keys make up their object as
  they stand;
* `exists_ofMembers` — an object made of members has each key once.
-/

namespace DocQuery

/-- A JSON value. -/
inductive Json where
  | null
  | bool (b : Bool)
  | number (n : Number)
  | string (s : String)
  | array (items : List Json)
  | object (members : List (String × Json))

namespace Json

instance : Inhabited Json := ⟨.null⟩

def isNull : Json → Bool
  | .null => true
  | _ => false

/-- The member with a given key, if the value is an object that has one. -/
def get? : Json → String → Option Json
  | .object members, key => members.lookup key
  | _, _ => none

/-- Adds a member; a key that is present keeps its place and changes its value. -/
def putMember (key : String) (value : Json) : List (String × Json) → List (String × Json)
  | [] => [(key, value)]
  | e :: rest => if e.1 = key then (key, value) :: rest else e :: putMember key value rest

/-- The object with the given members, added in turn. -/
def ofMembers (members : List (String × Json)) : Json :=
  .object (members.foldl (fun ms e => putMember e.1 e.2 ms) [])

mutual

/-- Equality of values: numbers as written, objects whatever the order of
their members. -/
def same : Json → Json → Bool
  | .null, .null => true
  | .bool a, .bool b => a == b
  | .number a, .number b => a.same b
  | .string a, .string b => a == b
  | .array a, .array b => sameItems a b
  | .object a, .object b => a.length == b.length && sameMembers a b
  | _, _ => false

/-- Equality of lists of values, item by item. -/
def sameItems : List Json → List Json → Bool
  | [], [] => true
  | a :: as, b :: bs => same a b && sameItems as bs
  | _, _ => false

/-- Whether every member is found, with an equal value, among others. -/
def sameMembers : List (String × Json) → List (String × Json) → Bool
  | [], _ => true
  | (key, a) :: rest, others =>
    (match others.lookup key with
      | some b => same a b
      | none => false) && sameMembers rest others

end

/-! ## What objects are made of -/

/-- A new key comes last. -/
theorem putMember_of_notMem {key : String} {members : List (String × Json)}
    (h : key ∉ members.map Prod.fst) (value : Json) :
    putMember key value members = members ++ [(key, value)] := by
  induction members with
  | nil => rfl
  | cons e rest ih =>
    rw [List.map_cons, List.mem_cons, not_or] at h
    obtain ⟨hne, hrest⟩ := h
    rw [putMember, if_neg (Ne.symm hne), ih hrest, List.cons_append]

/-- Adding a member brings in nothing else. -/
theorem mem_putMember {key : String} {value : Json} {members : List (String × Json)}
    {e : String × Json} (h : e ∈ putMember key value members) :
    e = (key, value) ∨ e ∈ members := by
  induction members with
  | nil => simpa [putMember] using h
  | cons first rest ih =>
    rw [putMember] at h
    split at h <;> grind

/-- The keys of an object stay different. -/
theorem nodup_putMember (key : String) (value : Json) {members : List (String × Json)}
    (h : (members.map Prod.fst).Nodup) : ((putMember key value members).map Prod.fst).Nodup := by
  induction members with
  | nil => simp [putMember]
  | cons first rest ih =>
    rw [putMember]
    obtain ⟨hfirst, hrest⟩ := List.nodup_cons.mp h
    split
    · next heq => simpa [← heq] using h
    · next hne =>
        refine List.nodup_cons.mpr ⟨fun hmem => ?_, ih hrest⟩
        obtain ⟨e, he, hkey⟩ := List.mem_map.mp hmem
        rcases mem_putMember he with rfl | he
        · exact hne hkey.symm
        · exact hfirst (List.mem_map.mpr ⟨e, he, hkey⟩)

/-- Members with different keys make up their object as they stand. -/
theorem ofMembers_of_nodup {members : List (String × Json)} (h : (members.map Prod.fst).Nodup) :
    ofMembers members = .object members := by
  have hfold : ∀ before : List (String × Json), ((before ++ members).map Prod.fst).Nodup →
      members.foldl (fun ms e => putMember e.1 e.2 ms) before = before ++ members := by
    clear h
    induction members with
    | nil => simp
    | cons e rest ih =>
      intro before hdistinct
      have hnew : e.1 ∉ before.map Prod.fst := by
        intro hmem
        rw [List.map_append, List.nodup_append] at hdistinct
        exact hdistinct.2.2 _ hmem _ (by simp) rfl
      rw [List.foldl_cons, putMember_of_notMem hnew, ih _ (by simpa using hdistinct)]
      simp
  rw [ofMembers, hfold [] (by simpa using h), List.nil_append]

/-- An object has each of its keys once, and no members but those it is made of. -/
theorem exists_ofMembers (members : List (String × Json)) :
    ∃ kept, ofMembers members = .object kept ∧ (kept.map Prod.fst).Nodup ∧
      ∀ e ∈ kept, e ∈ members := by
  have hfold : ∀ before : List (String × Json), (before.map Prod.fst).Nodup →
      ((members.foldl (fun ms e => putMember e.1 e.2 ms) before).map Prod.fst).Nodup ∧
        ∀ e ∈ members.foldl (fun ms e => putMember e.1 e.2 ms) before,
          e ∈ before ∨ e ∈ members := by
    induction members with
    | nil => intro before h; simpa using h
    | cons first rest ih =>
      intro before hbefore
      obtain ⟨hnodup, hmem⟩ := ih _ (nodup_putMember first.1 first.2 hbefore)
      refine ⟨hnodup, fun e he => ?_⟩
      rcases hmem e he with h | h
      · rcases mem_putMember h with rfl | h
        · exact Or.inr List.mem_cons_self
        · exact Or.inl h
      · exact Or.inr (List.mem_cons_of_mem _ h)
  obtain ⟨hnodup, hmem⟩ := hfold [] List.nodup_nil
  exact ⟨_, rfl, hnodup, fun e he => (hmem e he).resolve_left List.not_mem_nil⟩

end Json

end DocQuery
