import DocQuery.Filter.Decode
import DocQuery.Outcomes
import Mathlib.Data.List.Nodup

/-!
# How filters are read

An object is a filter in two layers.  Each of its members is read by itself
(`ofMembers?_eq`), and so is each operator in the value of a member
(`ofOperators?_eq`); what comes first in writing is refused first.  So it is enough
to say what one operator is read as and when it is refused
(`Operation.ofOperator?_eq_ok_iff`, `Operation.ofOperator?_eq_error_iff`), and
which values are read as operators at all.

* `ofOperators?_eq_ok_iff` — operators are read as the operations they are written for;
* `ofMember?_of_not_spells`, `ofMember?_eq_operator` — any other value is what an
  attribute must equal, with `$eq` or without it;
* `ofJson?_eq_error_iff` — a value is refused for the first thing in it that is no part
  of a filter.
-/

namespace DocQuery

/-! ## Operators -/

namespace Operation

/-- The operator an operation is written with. -/
def operator : Operation → String
  | .eq _ => "$eq"
  | .ne _ => "$ne"
  | .gte _ => "$gte"
  | .gt _ => "$gt"
  | .lte _ => "$lte"
  | .lt _ => "$lt"
  | .among _ => "$in"
  | .defined _ => "$exists"

/-- The operand an operation is written with. -/
def operand : Operation → Json
  | .eq v | .ne v | .gte v | .gt v | .lte v | .lt v => v
  | .among values => .array values
  | .defined required => .bool required

/-- The operator and the operand of an operation. -/
def written (o : Operation) : String × Json := (o.operator, o.operand)

/-- The operators there are. -/
def operators : List String := ["$eq", "$ne", "$gte", "$gt", "$lte", "$lt", "$in", "$exists"]

/-- An operator that is refused with its operand, and the error it is refused with. -/
inductive Refused : String → Json → FilterError → Prop where
  | unknown {name : String} {operand : Json} (h : name ∉ operators) :
      Refused name operand (.unknownOperator name)
  | among {operand : Json} (h : ∀ values, operand ≠ .array values) :
      Refused "$in" operand (.operand "$in")
  | defined {operand : Json} (h : ∀ required, operand ≠ .bool required) :
      Refused "$exists" operand (.operand "$exists")

theorem isOperatorWord_operator (o : Operation) : isOperatorWord o.operator = true := by
  cases o <;> simp [operator, isOperatorWord]

/-- An operator and its operand are read as the operation that they are written for. -/
theorem ofOperator?_eq_ok_iff {name : String} {operand : Json} {o : Operation} :
    ofOperator? name operand = .ok o ↔ (name, operand) = o.written := by
  constructor
  · intro h
    unfold ofOperator? at h
    split at h
    -- only `$in` and `$exists` look at their operand
    any_goals split at h
    all_goals cases h
    all_goals rfl
  · intro h
    cases h
    cases o <;> rfl

/-- **An operator is refused** when there is none of its name or its operand is of
the wrong kind. -/
theorem ofOperator?_eq_error_iff {name : String} {operand : Json} {e : FilterError} :
    ofOperator? name operand = .error e ↔ Refused name operand e := by
  constructor
  · intro h
    unfold ofOperator? at h
    split at h
    any_goals split at h
    all_goals cases h
    · next hoperand => exact .among hoperand
    · next hoperand => exact .defined hoperand
    · exact .unknown (by simp_all [operators])
  · intro h
    cases h with
    | unknown h =>
        simp only [operators, List.mem_cons, List.not_mem_nil, or_false, not_or] at h
        unfold ofOperator?
        split <;> simp_all
    | among h =>
        cases operand with
        | array values => exact absurd rfl (h values)
        | null | bool b | number n | string s | object members => rfl
    | defined h =>
        cases operand with
        | bool required => exact absurd rfl (h required)
        | null | number n | string s | array items | object members => rfl

end Operation

namespace Filter

/-! ## Members -/

/-- An attribute can be named in a filter. -/
def IsFieldName (field : String) : Prop := field ≠ "" ∧ isOperatorWord field = false

/-- A value that is read as operators: an object with some keys, all of which begin with `$`. -/
def SpellsOperators (v : Json) (operators : List (String × Json)) : Prop :=
  v = .object operators ∧ operators ≠ [] ∧ ∀ e ∈ operators, isOperatorWord e.1 = true

/-- The predicates that operations put on an attribute. -/
def predicatesOn (group : String × List Operation) : List Predicate :=
  group.2.map (Predicate.mk group.1)

theorem mem_predicatesOn {group : String × List Operation} {p : Predicate} :
    p ∈ predicatesOn group ↔ p.field = group.1 ∧ p.operation ∈ group.2 := by
  simp only [predicatesOn, List.mem_map]
  constructor
  · rintro ⟨o, ho, rfl⟩
    exact ⟨rfl, ho⟩
  · rintro ⟨hfield, ho⟩
    exact ⟨p.operation, ho, by rw [← hfield]⟩

/-- Operators are read one by one. -/
theorem ofOperators?_eq (field : String) (operators : List (String × Json)) :
    ofOperators? field operators =
      (gather (operators.map fun e => Operation.ofOperator? e.1 e.2)).map
        (·.map (Predicate.mk field)) := by
  induction operators with
  | nil => rfl
  | cons e rest ih =>
      rw [ofOperators?, ih, List.map_cons]
      cases Operation.ofOperator? e.1 e.2 with
      | error err => rfl
      | ok o =>
          cases hrest : gather (rest.map fun e => Operation.ofOperator? e.1 e.2) <;>
            simp [gather, hrest, Except.map, bind, Except.bind, pure, Except.pure]

/-- Members are read one by one. -/
theorem ofMembers?_eq (members : List (String × Json)) :
    ofMembers? members = (gather (members.map fun e => ofMember? e.1 e.2)).map List.flatten := by
  induction members with
  | nil => rfl
  | cons e rest ih =>
      rw [ofMembers?, ih, List.map_cons]
      cases ofMember? e.1 e.2 with
      | error err => rfl
      | ok here =>
          cases hrest : gather (rest.map fun e => ofMember? e.1 e.2) <;>
            simp [gather, hrest, Except.map, bind, Except.bind, pure, Except.pure]

theorem operators?_eq_some_iff {v : Json} {operators : List (String × Json)} :
    operators? v = some operators ↔ SpellsOperators v operators := by
  cases v with
  | object members =>
      cases members with
      | nil =>
          constructor
          · intro h
            cases h
          · rintro ⟨h, hne, -⟩
            cases h
            exact absurd rfl hne
      | cons e rest =>
          have hdef : operators? (.object (e :: rest)) =
              if (e :: rest).all fun e => isOperatorWord e.1 then some (e :: rest) else none := rfl
          rw [hdef]
          constructor
          · intro h
            split at h
            · next hall =>
                cases h
                exact ⟨rfl, List.cons_ne_nil _ _, List.all_eq_true.mp hall⟩
            · cases h
          · rintro ⟨h, -, hall⟩
            cases h
            rw [if_pos (List.all_eq_true.mpr hall)]
  | null | bool b | number n | string s | array items => simp [operators?, SpellsOperators]

theorem operators?_eq_none_iff {v : Json} :
    operators? v = none ↔ ∀ operators, ¬ SpellsOperators v operators := by
  simp only [← operators?_eq_some_iff, Option.eq_none_iff_forall_ne_some, ne_eq]

/-- Operators are read as operations exactly if they are written for them. -/
theorem ofOperators?_eq_ok_iff {field : String} {operators : List (String × Json)}
    {predicates : List Predicate} : ofOperators? field operators = .ok predicates ↔
      ∃ operations, operators = operations.map Operation.written ∧
        predicates = predicatesOn (field, operations) := by
  rw [ofOperators?_eq]
  constructor
  · intro h
    cases hgather : gather (operators.map fun e => Operation.ofOperator? e.1 e.2) with
    | error e => simp [hgather, Except.map] at h
    | ok operations =>
        simp only [hgather, Except.map, Except.ok.injEq] at h
        have hread : ∀ (e : String × Json) o,
            Operation.ofOperator? e.1 e.2 = .ok o → e = o.written :=
          fun _ _ => Operation.ofOperator?_eq_ok_iff.mp
        exact ⟨operations, eq_map_of_gather_map hread hgather, h.symm⟩
  · rintro ⟨operations, rfl, rfl⟩
    have hread : (operations.map Operation.written).map
        (fun e => Operation.ofOperator? e.1 e.2) = operations.map .ok := by
      rw [List.map_map]
      exact List.map_congr_left fun o _ => Operation.ofOperator?_eq_ok_iff.mpr rfl
    rw [hread, gather_map_ok]
    rfl

/-- The name of a member is looked at first. -/
theorem ofMember?_of_not_isFieldName {field : String} (h : ¬ IsFieldName field)
    (condition : Json) : ofMember? field condition = .error (.fieldName field) := by
  rw [ofMember?, if_pos]
  simpa [IsFieldName, or_iff_not_imp_left] using h

/-- Under a name, operators are read as such. -/
theorem ofMember?_of_spells {field : String} {condition : Json}
    {operators : List (String × Json)} (hfield : IsFieldName field)
    (h : SpellsOperators condition operators) :
    ofMember? field condition = ofOperators? field operators := by
  rw [ofMember?, if_neg (by simpa [IsFieldName] using hfield), operators?_eq_some_iff.mpr h]

/-- Under a name, anything else is what the attribute must equal. -/
theorem ofMember?_of_not_spells {field : String} {condition : Json} (hfield : IsFieldName field)
    (h : ∀ operators, ¬ SpellsOperators condition operators) :
    ofMember? field condition = .ok [⟨field, .eq condition⟩] := by
  rw [ofMember?, if_neg (by simpa [IsFieldName] using hfield), operators?_eq_none_iff.mpr h]

/-- A group is read back from its object. -/
theorem ofMember?_written {g : String × List Operation} (hfield : IsFieldName g.1)
    (hne : g.2 ≠ []) :
    ofMember? g.1 (.object (g.2.map Operation.written)) = .ok (predicatesOn g) := by
  have hspells : SpellsOperators (.object (g.2.map Operation.written))
      (g.2.map Operation.written) := by
    refine ⟨rfl, by simpa using hne, fun e he => ?_⟩
    obtain ⟨o, -, rfl⟩ := List.mem_map.mp he
    exact o.isOperatorWord_operator
  rw [ofMember?_of_spells hfield hspells]
  exact ofOperators?_eq_ok_iff.mpr ⟨g.2, rfl, rfl⟩

/-- A value that is not read as operators and the operator `$eq` with it as operand are
read alike. -/
theorem ofMember?_eq_operator {v : Json} (h : ∀ operators, ¬ SpellsOperators v operators)
    (field : String) : ofMember? field (.object [("$eq", v)]) = ofMember? field v := by
  by_cases hfield : IsFieldName field
  · rw [ofMember?_of_not_spells hfield h]
    exact ofMember?_written (g := (field, [.eq v])) hfield (by simp)
  · rw [ofMember?_of_not_isFieldName hfield, ofMember?_of_not_isFieldName hfield]

/-! ## Refusals -/

/-- A member of a filter that is refused: for its name, or else for the first of its
operators that is. -/
inductive MemberRefused : String × Json → FilterError → Prop where
  | name {field : String} {condition : Json} (h : ¬ IsFieldName field) :
      MemberRefused (field, condition) (.fieldName field)
  | operator {field name : String} {condition operand : Json}
      {before after : List (String × Json)} {e : FilterError} (hfield : IsFieldName field)
      (hspells : SpellsOperators condition (before ++ (name, operand) :: after))
      (hbefore : ∀ o ∈ before, ∀ e', ¬ Operation.Refused o.1 o.2 e')
      (h : Operation.Refused name operand e) : MemberRefused (field, condition) e

/-- A value that is refused as a filter: it is no object, or else for the first of its
members that is refused. -/
inductive Refused : Json → FilterError → Prop where
  | notAnObject {v : Json} (h : ∀ members, v ≠ .object members) : Refused v .notAnObject
  | member {m : String × Json} {before after : List (String × Json)} {e : FilterError}
      (hbefore : ∀ m' ∈ before, ∀ e', ¬ MemberRefused m' e') (h : MemberRefused m e) :
      Refused (.object (before ++ m :: after)) e

/-- Operators are refused for the first that is. -/
theorem ofOperators?_eq_error_iff {field : String} {operators : List (String × Json)}
    {e : FilterError} : ofOperators? field operators = .error e ↔ ∃ before o after,
      operators = before ++ o :: after ∧ (∀ o' ∈ before, ∀ e', ¬ Operation.Refused o'.1 o'.2 e') ∧
        Operation.Refused o.1 o.2 e := by
  have hgather : ofOperators? field operators = .error e ↔
      gather (operators.map fun o => Operation.ofOperator? o.1 o.2) = .error e := by
    rw [ofOperators?_eq]
    cases gather (operators.map fun o => Operation.ofOperator? o.1 o.2) <;> simp [Except.map]
  rw [hgather, gather_map_eq_error_iff]
  simp only [ne_eq, Operation.ofOperator?_eq_error_iff]

theorem ofMember?_eq_error_iff {m : String × Json} {e : FilterError} :
    ofMember? m.1 m.2 = .error e ↔ MemberRefused m e := by
  obtain ⟨field, condition⟩ := m
  constructor
  · intro h
    by_cases hfield : IsFieldName field
    · by_cases hspells : ∃ operators, SpellsOperators condition operators
      · obtain ⟨operators, hspells⟩ := hspells
        rw [ofMember?_of_spells hfield hspells] at h
        obtain ⟨before, o, after, rfl, hbefore, hrefused⟩ := ofOperators?_eq_error_iff.mp h
        exact .operator hfield hspells hbefore hrefused
      · rw [ofMember?_of_not_spells hfield (not_exists.mp hspells)] at h
        cases h
    · rw [ofMember?_of_not_isFieldName hfield] at h
      cases h
      exact .name hfield
  · intro h
    cases h with
    | name h => exact ofMember?_of_not_isFieldName h condition
    | operator hfield hspells hbefore h =>
        rw [ofMember?_of_spells hfield hspells]
        exact ofOperators?_eq_error_iff.mpr ⟨_, _, _, rfl, hbefore, h⟩

/-- **A value is refused** for the first thing in it, as written, that is no part of a filter. -/
theorem ofJson?_eq_error_iff {v : Json} {e : FilterError} :
    ofJson? v = .error e ↔ Refused v e := by
  cases v with
  | object members =>
      have hgather : ofJson? (.object members) = .error e ↔
          gather (members.map fun m => ofMember? m.1 m.2) = .error e := by
        rw [ofJson?, ofMembers?_eq]
        cases gather (members.map fun m => ofMember? m.1 m.2) <;> simp [Except.map]
      rw [hgather, gather_map_eq_error_iff]
      simp only [ne_eq, ofMember?_eq_error_iff]
      constructor
      · rintro ⟨before, m, after, rfl, hbefore, h⟩
        exact .member hbefore h
      · intro h
        cases h with
        | notAnObject h => exact absurd rfl (h members)
        | member hbefore h => exact ⟨_, _, _, rfl, hbefore, h⟩
  | null | bool b | number n | string s | array items =>
      constructor
      · intro h
        cases h
        exact .notAnObject (by simp)
      · intro h
        cases h
        rfl

end Filter

end DocQuery
