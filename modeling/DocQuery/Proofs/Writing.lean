import DocQuery.Proofs.Decoding

/-!
# How filters are written

A filter is written as an object of objects: consecutive predicates on one
attribute share an object, which has an operator for each of them
(`Filter.toJson`).  Their groups make up the predicates again
(`flatMap_grouped`), so nothing is lost as long as no attribute has two groups and no
group an operator twice (`Separate`); an object would keep only one of them.

That is the case exactly for filters whose predicates on one attribute are adjacent and
put no operator on it twice (`Writable.separate`, `Separate.writable`).  These are read
back (`ofJson?_toJson`), and no others are (`writable_of_ofJson?`), whatever values
their operations have.
-/

namespace DocQuery

namespace Filter

/-! ## Groups -/

/-- Puts a predicate in front of groups, into the first one if that is on its attribute. -/
def groupWith (p : Predicate) : List (String × List Operation) → List (String × List Operation)
  | [] => [(p.field, [p.operation])]
  | (field, operations) :: more =>
    if field = p.field then (field, p.operation :: operations) :: more
    else (p.field, [p.operation]) :: (field, operations) :: more

/-- The operations of consecutive predicates on one attribute, taken together. -/
def grouped (predicates : List Predicate) : List (String × List Operation) :=
  predicates.foldr groupWith []

/-- The first group is on the attribute of the first predicate. -/
theorem grouped_cons (p : Predicate) (rest : List Predicate) :
    ∃ operations more, grouped (p :: rest) = (p.field, p.operation :: operations) :: more ∧
      (grouped rest = (p.field, operations) :: more ∨
        operations = [] ∧ grouped rest = more ∧ ∀ g ∈ more.head?, g.1 ≠ p.field) := by
  rw [grouped, List.foldr_cons, ← grouped]
  cases hrest : grouped rest with
  | nil => exact ⟨[], [], rfl, Or.inr (by simp)⟩
  | cons group more =>
      rw [groupWith]
      split
      · next heq => exact ⟨group.2, more, by rw [heq], Or.inl (by rw [← heq])⟩
      · next hne => exact ⟨[], group :: more, rfl, Or.inr (by simpa using hne)⟩

/-- The groups of some predicates make these up. -/
theorem flatMap_grouped (predicates : List Predicate) :
    (grouped predicates).flatMap predicatesOn = predicates := by
  induction predicates with
  | nil => rfl
  | cons p rest ih =>
      obtain ⟨operations, more, heq, hrest | ⟨rfl, hrest, -⟩⟩ := grouped_cons p rest
      · rw [hrest] at ih
        rw [heq, ← ih]
        rfl
      · rw [hrest] at ih
        rw [heq, ← ih]
        rfl

/-- No group is empty. -/
theorem ne_nil_of_mem_grouped {predicates : List Predicate} {group : String × List Operation}
    (h : group ∈ grouped predicates) : group.2 ≠ [] := by
  induction predicates with
  | nil => cases h
  | cons p rest ih =>
      obtain ⟨operations, more, heq, hrest⟩ := grouped_cons p rest
      rw [heq] at h
      rcases List.mem_cons.mp h with rfl | h
      · exact List.cons_ne_nil _ _
      · refine ih ?_
        rcases hrest with hrest | ⟨-, hrest, -⟩ <;> simp [hrest, h]

/-- The attribute of a group is that of some predicate. -/
theorem exists_of_mem_grouped {predicates : List Predicate} {group : String × List Operation}
    (h : group ∈ grouped predicates) : ∃ p ∈ predicates, p.field = group.1 := by
  obtain ⟨o, ho⟩ := List.exists_mem_of_ne_nil _ (ne_nil_of_mem_grouped h)
  refine ⟨⟨group.1, o⟩, ?_, rfl⟩
  rw [← flatMap_grouped predicates]
  exact List.mem_flatMap.mpr ⟨group, h, List.mem_map.mpr ⟨o, ho, rfl⟩⟩

/-- Operations as an object of operators. -/
def operatorsJson (operations : List Operation) : Json :=
  .ofMembers (operations.map Operation.written)

/-- A filter written with operators, consecutive predicates on one attribute in one object. -/
def toJson (f : Filter) : Json :=
  .ofMembers ((grouped f.predicates).map fun group => (group.1, operatorsJson group.2))

/-- A filter that an object of operators can spell. -/
structure Writable (f : Filter) : Prop where
  named : ∀ p ∈ f.predicates, IsFieldName p.field
  /-- between predicates on one attribute there is none on another -/
  adjacent : ∀ p q r, [p, q, r].Sublist f.predicates → p.field = r.field → q.field = p.field
  /-- no operator is put on one attribute twice -/
  once : (f.predicates.map fun p => (p.field, p.operation.operator)).Nodup

/-- **Adjacent predicates make one group**, so no attribute has two of them. -/
theorem nodup_grouped {predicates : List Predicate}
    (h : ∀ p q r, [p, q, r].Sublist predicates → p.field = r.field → q.field = p.field) :
    ((grouped predicates).map Prod.fst).Nodup := by
  induction predicates with
  | nil => exact List.nodup_nil
  | cons p rest ih =>
      have ih := ih fun p' q r hsub => h p' q r (hsub.cons p)
      obtain ⟨operations, more, heq, hrest⟩ := grouped_cons p rest
      rw [heq]
      rcases hrest with hrest | ⟨-, rfl, hhead⟩
      · rwa [hrest] at ih
      · refine List.nodup_cons.mpr ⟨fun hmem => ?_, ih⟩
        obtain ⟨group, hgroup, hfield⟩ := List.mem_map.mp hmem
        obtain ⟨r, hr, hrfield⟩ := exists_of_mem_grouped hgroup
        cases rest with
        | nil => cases hr
        | cons q others =>
            obtain ⟨_, _, hq, -⟩ := grouped_cons q others
            have hne : q.field ≠ p.field := hhead _ (by rw [hq]; rfl)
            rcases List.mem_cons.mp hr with rfl | hr
            · exact hne (hrfield.trans hfield)
            · refine hne (h p q r ?_ (hrfield.trans hfield).symm)
              exact ((List.singleton_sublist.mpr hr).cons_cons q).cons_cons p

/-- Groups on different attributes, no operation of a group having the operator of another. -/
structure Separate (groups : List (String × List Operation)) : Prop where
  attributes : (groups.map Prod.fst).Nodup
  named : ∀ g ∈ groups, IsFieldName g.1
  operators : ∀ g ∈ groups, (g.2.map Operation.operator).Nodup

/-- Between predicates of one group there are only predicates of that group, if no
attribute has another. -/
theorem field_eq_of_sublist {groups : List (String × List Operation)}
    (h : (groups.map Prod.fst).Nodup) {p q r : Predicate}
    (hsub : [p, q, r].Sublist (groups.flatMap predicatesOn)) (hfield : p.field = r.field) :
    q.field = p.field := by
  induction groups with
  | nil => cases hsub
  | cons g more ih =>
      rw [List.flatMap_cons] at hsub
      obtain ⟨front, back, hsplit, hfront, hback⟩ := List.sublist_append_iff.mp hsub
      obtain ⟨hg, hmore⟩ := List.nodup_cons.mp h
      have here {p'} (hp : p' ∈ front) : p'.field = g.1 :=
        (mem_predicatesOn.mp (hfront.subset hp)).1
      have there (hr : r ∈ back) : r.field ∈ more.map Prod.fst := by
        obtain ⟨g', hg', hr⟩ := List.mem_flatMap.mp (hback.subset hr)
        rw [(mem_predicatesOn.mp hr).1]
        exact List.mem_map_of_mem hg'
      -- either none of the three is in the first group, or all are, or the last is not
      cases front with
      | nil => exact ih hmore (by rwa [hsplit])
      | cons p' front =>
          obtain ⟨rfl, hsplit⟩ := List.cons.inj hsplit
          rcases List.eq_nil_or_concat back with rfl | ⟨back, last, rfl⟩
          · have hq : q ∈ p :: front := by
              rw [List.append_nil] at hsplit
              simp [← hsplit]
            rw [here hq, here List.mem_cons_self]
          · have hends : [q] ++ [r] = front ++ back ++ [last] := by simpa using hsplit
            obtain rfl := List.singleton_inj.mp (List.append_inj' hends rfl).2
            exact absurd (there (by simp)) (by rwa [← hfield, here List.mem_cons_self])

/-- The predicates of separate groups can be written. -/
theorem Separate.writable {groups : List (String × List Operation)} (h : Separate groups) :
    Writable ⟨groups.flatMap predicatesOn⟩ where
  named p hp := by
    obtain ⟨g, hg, hp⟩ := List.mem_flatMap.mp hp
    rw [(mem_predicatesOn.mp hp).1]
    exact h.named g hg
  adjacent _ _ _ := field_eq_of_sublist h.attributes
  once := by
    rw [List.map_flatMap, List.nodup_flatMap]
    constructor
    · intro g hg
      refine List.Nodup.of_map Prod.snd ?_
      simpa [predicatesOn, Function.comp_def] using h.operators g hg
    · refine (List.pairwise_map.mp h.attributes).imp fun hne => ?_
      refine List.disjoint_left.mpr fun pair hpair hpair' => ?_
      obtain ⟨p, hp, rfl⟩ := List.mem_map.mp hpair
      obtain ⟨p', hp', heq⟩ := List.mem_map.mp hpair'
      have hfields : p'.field = p.field := congrArg Prod.fst heq
      rw [(mem_predicatesOn.mp hp).1, (mem_predicatesOn.mp hp').1] at hfields
      exact hne hfields.symm

/-- The groups of a filter that can be written are separate. -/
theorem Writable.separate {f : Filter} (h : f.Writable) : Separate (grouped f.predicates) where
  attributes := nodup_grouped h.adjacent
  named g hg := by
    obtain ⟨p, hp, hfield⟩ := exists_of_mem_grouped hg
    rw [← hfield]
    exact h.named p hp
  operators g hg := by
    have honce := h.once
    rw [← flatMap_grouped f.predicates, List.map_flatMap, List.nodup_flatMap] at honce
    refine List.Nodup.of_map (Prod.mk g.1) ?_
    simpa [predicatesOn, Function.comp_def] using honce.1 g hg

/-! ## Reading what was written -/

/-- Of separate groups, each has an object of its own with all its operators. -/
theorem toJson_of_separate {f : Filter} (h : Separate (grouped f.predicates)) :
    f.toJson = .object ((grouped f.predicates).map fun g =>
      (g.1, .object (g.2.map Operation.written))) := by
  have hoperators : ∀ g ∈ grouped f.predicates,
      (g.1, operatorsJson g.2) = (g.1, Json.object (g.2.map Operation.written)) := by
    intro g hg
    rw [operatorsJson, Json.ofMembers_of_nodup]
    simpa [Operation.written, Function.comp_def] using h.operators g hg
  rw [toJson, List.map_congr_left hoperators, Json.ofMembers_of_nodup]
  simpa [Function.comp_def] using h.attributes

/-- **A filter that can be written is read back.** -/
theorem ofJson?_toJson {f : Filter} (h : f.Writable) : ofJson? f.toJson = .ok f := by
  have hread : ((grouped f.predicates).map fun g =>
      (g.1, Json.object (g.2.map Operation.written))).map (fun e => ofMember? e.1 e.2) =
        ((grouped f.predicates).map predicatesOn).map .ok := by
    rw [List.map_map, List.map_map]
    exact List.map_congr_left fun g hg =>
      ofMember?_written (h.separate.named g hg) (ne_nil_of_mem_grouped hg)
  rw [toJson_of_separate h.separate, ofJson?, ofMembers?_eq, hread, gather_map_ok, Except.map,
    ← List.flatMap_def, flatMap_grouped]
  rfl

/-- What one member is read as is a group, if no operator stands in it twice. -/
theorem exists_group {field : String} {condition : Json} {predicates : List Predicate}
    (hkeys : ∀ operators, condition = .object operators → (operators.map Prod.fst).Nodup)
    (h : ofMember? field condition = .ok predicates) :
    ∃ g : String × List Operation, g.1 = field ∧ predicates = predicatesOn g ∧
      IsFieldName g.1 ∧ (g.2.map Operation.operator).Nodup := by
  by_cases hfield : IsFieldName field
  · by_cases hspells : ∃ operators, SpellsOperators condition operators
    · obtain ⟨operators, hspells⟩ := hspells
      rw [ofMember?_of_spells hfield hspells] at h
      obtain ⟨operations, rfl, rfl⟩ := ofOperators?_eq_ok_iff.mp h
      refine ⟨(field, operations), rfl, rfl, hfield, ?_⟩
      simpa [Operation.written, Function.comp_def] using hkeys _ hspells.1
    · rw [ofMember?_of_not_spells hfield (not_exists.mp hspells)] at h
      cases h
      exact ⟨(field, [.eq condition]), rfl, rfl, hfield, List.nodup_singleton _⟩
  · rw [ofMember?_of_not_isFieldName hfield] at h
    cases h

/-- Members with different keys are read as separate groups. -/
theorem exists_separate {members : List (String × Json)} {predicates : List Predicate}
    (hmembers : (members.map Prod.fst).Nodup)
    (hkeys : ∀ e ∈ members, ∀ operators, e.2 = .object operators → (operators.map Prod.fst).Nodup)
    (h : ofMembers? members = .ok predicates) :
    ∃ groups, predicates = groups.flatMap predicatesOn ∧
      groups.map Prod.fst = members.map Prod.fst ∧ Separate groups := by
  induction members generalizing predicates with
  | nil =>
      cases h
      exact ⟨[], rfl, rfl, List.nodup_nil, by simp, by simp⟩
  | cons e rest ih =>
      obtain ⟨hnew, hrest⟩ := List.nodup_cons.mp hmembers
      rw [ofMembers?] at h
      cases hhere : ofMember? e.1 e.2 with
      | error err => simp [hhere, bind, Except.bind] at h
      | ok here =>
          cases hmore : ofMembers? rest with
          | error err => simp [hhere, hmore, bind, Except.bind] at h
          | ok more =>
              simp only [hhere, hmore, bind, Except.bind, pure, Except.pure, Except.ok.injEq] at h
              obtain ⟨g, hfield, rfl, hname, hoperators⟩ :=
                exists_group (hkeys e List.mem_cons_self) hhere
              obtain ⟨groups, rfl, hfields, hseparate⟩ :=
                ih hrest (fun e' he' => hkeys e' (List.mem_cons_of_mem _ he')) hmore
              refine ⟨g :: groups, by rw [← h, List.flatMap_cons],
                by simp [hfields, hfield], ?_, ?_, ?_⟩
              · exact List.nodup_cons.mpr ⟨by rwa [hfields, hfield], hseparate.attributes⟩
              · exact List.forall_mem_cons.mpr ⟨hname, hseparate.named⟩
              · exact List.forall_mem_cons.mpr ⟨hoperators, hseparate.operators⟩

/-- **Only a filter that can be written is read back.** -/
theorem writable_of_ofJson? {f : Filter} (h : ofJson? f.toJson = .ok f) : f.Writable := by
  obtain ⟨members, hjson, hmembers, hmem⟩ := Json.exists_ofMembers
    ((grouped f.predicates).map fun g => (g.1, operatorsJson g.2))
  rw [toJson, hjson, ofJson?] at h
  -- what `ofMembers` drops is lost, but no key is left twice, here and in the values
  have hkeys : ∀ e ∈ members, ∀ operators, e.2 = .object operators →
      (operators.map Prod.fst).Nodup := by
    intro e he operators hoperators
    obtain ⟨g, -, rfl⟩ := List.mem_map.mp (hmem e he)
    obtain ⟨kept, hkept, hnodup, -⟩ := Json.exists_ofMembers (g.2.map Operation.written)
    cases hkept.symm.trans hoperators
    exact hnodup
  cases hread : ofMembers? members with
  | error e => simp [hread, Except.map] at h
  | ok predicates =>
      simp only [hread, Except.map, Except.ok.injEq] at h
      obtain ⟨groups, rfl, -, hseparate⟩ := exists_separate hmembers hkeys hread
      rw [← h]
      exact hseparate.writable

/-- **Reading undoes writing.**  Exactly the filters that can be written are read back
from what is written for them.  A value that is not read as operators is what an
attribute must equal, and means the same behind `$eq`, among any other members.  And a
value is refused exactly if it is no object or something in it is, with the error of
the first such thing. -/
theorem reads_written :
    (∀ f : Filter, ofJson? f.toJson = .ok f ↔ f.Writable) ∧
      (∀ (field : String) (v : Json), (∀ operators, ¬ SpellsOperators v operators) →
        (∀ before after, ofJson? (.object (before ++ (field, .object [("$eq", v)]) :: after)) =
          ofJson? (.object (before ++ (field, v) :: after))) ∧
        (IsFieldName field → ofJson? (.object [(field, v)]) = .ok ⟨[⟨field, .eq v⟩]⟩)) ∧
      ∀ v e, ofJson? v = .error e ↔ Refused v e := by
  refine ⟨fun f => ⟨writable_of_ofJson?, ofJson?_toJson⟩, fun field v h => ⟨?_, ?_⟩,
    fun v e => ofJson?_eq_error_iff⟩
  · intro before after
    simp only [ofJson?, ofMembers?_eq, List.map_append, List.map_cons, ofMember?_eq_operator h]
  · intro hfield
    rw [ofJson?, ofMembers?_eq, List.map_singleton, ofMember?_of_not_spells hfield h]
    rfl

/-- A filter is read back although a value in it is an object of operators, an empty
object means itself, and the first of two errors is met. -/
theorem reads_written_dollar_operand :
    let f : Filter := ⟨[⟨"a", .eq (.object [("$gt", .null)])⟩, ⟨"a", .among [.object []]⟩,
      ⟨"b", .defined false⟩]⟩
    ofJson? f.toJson = .ok f ∧
      ofJson? (.object [("a", .object [("$eq", .object [])])]) =
        .ok ⟨[⟨"a", .eq (.object [])⟩]⟩ ∧
      ofJson? (.object [("a", .object [("$in", .null)]), ("", .null)]) =
        .error (.operand "$in") := by
  have hname : IsFieldName "a" := ⟨by decide, by decide⟩
  have hgroups : Separate [("a", [.eq (.object [("$gt", .null)]), .among [.object []]]),
      ("b", [.defined false])] := by
    refine ⟨by decide, List.forall_mem_cons.mpr ⟨hname, ?_⟩, by simp [Operation.operator]⟩
    simp only [List.mem_singleton, forall_eq, IsFieldName]
    decide
  have hempty : ∀ operators, ¬ SpellsOperators (.object []) operators := by
    rintro operators ⟨h, hne, -⟩
    cases h
    exact hne rfl
  have hspells : SpellsOperators (.object [("$in", .null)]) ([] ++ ("$in", .null) :: []) := by
    refine ⟨rfl, by simp, ?_⟩
    simp only [List.nil_append, List.mem_singleton, forall_eq]
    decide
  have hmember : MemberRefused ("a", .object [("$in", .null)]) (.operand "$in") :=
    .operator hname hspells (by simp) (.among (by simp))
  have hfirst : Refused (.object ([] ++ ("a", .object [("$in", .null)]) :: [("", .null)]))
      (.operand "$in") := .member (by simp) hmember
  obtain ⟨hread, heq, hrefused⟩ := reads_written
  obtain ⟨hoperator, hvalue⟩ := heq "a" (.object []) hempty
  exact ⟨(hread _).mpr hgroups.writable, (hoperator [] []).trans (hvalue hname),
    (hrefused _ _).mpr hfirst⟩

end Filter

end DocQuery
