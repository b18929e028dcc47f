import DocQuery.Filter.Match
import DocQuery.Proofs.Rounding
import Mathlib.Data.List.Forall2

/-!
# Numbers written differently

One value can be written as an integer and as a floating-point number.  Two
documents, or two operands, that differ only in this are respellings of each
other (`Json.Respelled`).  A comparison of numbers does not tell respellings
apart, since an integer that a floating-point number stands for is not rounded
(`Number.units_toBinary64`); equality of whole arrays and objects does, since it
takes numbers as written.

* `Number.rigid_integer_iff`, `Number.rigid_float_iff` — which numbers have one
  spelling only and are called rigid: integers that no floating-point number
  stands for, and floating-point numbers that are not an integer in range;
* `Json.same_respelled` — with a value whose numbers are all rigid, also whole
  arrays and objects are equal however they are written;
* `Json.plain_iff` — numbers and rigid values are the operands for which
  equality is the same for all spellings of a value.

So a filter treats respelled documents alike (`accepts_respelled`) unless it
compares an array or an object as a whole with an operand in which some number
can be respelled (`list_not_respelled`).
-/

namespace DocQuery

/-! ## Numbers -/

namespace Number

/-- The value in units of 2⁻¹⁰⁷⁴, without any rounding. -/
def units : Number → Int
  | .integer n _ => n * Binary64.unitsInOne
  | .float x => x.units

/-- Two spellings of one value are rounded alike: an integer that a
floating-point number stands for is not rounded at all. -/
theorem units_toBinary64 {m n : Number} (h : m.units = n.units) :
    m.toBinary64.units = n.toBinary64.units := by
  cases m with
  | integer a ha =>
      cases n with
      | integer b hb =>
          obtain rfl := Binary64.eq_of_mul_unitsInOne h
          rfl
      | float y => exact (Binary64.units_ofInt_of_exact ⟨y, h.symm⟩).trans h
  | float x =>
      cases n with
      | integer b hb => exact h.trans (Binary64.units_ofInt_of_exact ⟨x, h⟩).symm
      | float y => exact h

/-- Numbers that are the same as written have one value. -/
theorem units_eq_of_same {m n : Number} (h : m.same n = true) : m.units = n.units := by
  cases m with
  | integer a ha =>
      cases n with
      | integer b hb =>
          obtain rfl : a = b := eq_of_beq h
          rfl
      | float y => cases h
  | float x =>
      cases n with
      | integer b hb => cases h
      | float y => exact eq_of_beq h

/-- A number is rigid if all spellings of its value are the same. -/
def Rigid (n : Number) : Prop := ∀ m : Number, m.units = n.units → m.same n = true

/-- An integer is rigid if no floating-point number stands for it. -/
theorem rigid_integer_iff {n : Int}
    {h : -0x8000000000000000 ≤ n ∧ n < 0x10000000000000000} :
    (integer n h).Rigid ↔ ¬ Binary64.Exact n := by
  constructor
  · rintro hrigid ⟨x, hx⟩
    cases hrigid (.float x) hx
  · intro hexact m hm
    cases m with
    | integer b hb => exact beq_iff_eq.mpr (Binary64.eq_of_mul_unitsInOne hm)
    | float y => exact absurd ⟨y, hm⟩ hexact

/-- A floating-point number is rigid if it is not the value of an integer in range. -/
theorem rigid_float_iff {x : Binary64} :
    (float x).Rigid ↔ ∀ n : Int, -0x8000000000000000 ≤ n ∧ n < 0x10000000000000000 →
      n * (Binary64.unitsInOne : Int) ≠ x.units := by
  constructor
  · intro hrigid n hn hx
    cases hrigid (.integer n hn) hx
  · intro hnone m hm
    cases m with
    | integer b hb => exact absurd hm (hnone b hb)
    | float y => exact beq_iff_eq.mpr hm

theorem Rigid.same_iff {m n : Number} (hn : n.Rigid) : m.same n = true ↔ m.units = n.units :=
  ⟨units_eq_of_same, hn m⟩

/-- A spelling of a rigid number is rigid. -/
theorem Rigid.respelled {n n' : Number} (hn : n.Rigid) (h : n.units = n'.units) : n'.Rigid := by
  intro m hm
  have hleft := hn m (hm.trans h.symm)
  have hright := hn n' h.symm
  cases m <;> cases n <;> cases n' <;> simp_all [same, Binary64.same]

/-- Sameness with a rigid number does not depend on the spelling of either. -/
theorem Rigid.same_respelled {m m' n n' : Number} (hn : n.Rigid) (hm : m.units = m'.units)
    (h : n.units = n'.units) : m.same n = m'.same n' := by
  rw [Bool.eq_iff_iff, hn.same_iff, (hn.respelled h).same_iff, hm, h]

end Number

/-! ## Values -/

namespace Json

mutual

/-- Two values that differ at most in how numbers are written. -/
inductive Respelled : Json → Json → Prop where
  | null : Respelled .null .null
  | bool (b : Bool) : Respelled (.bool b) (.bool b)
  | number {m n : Number} (h : m.units = n.units) : Respelled (.number m) (.number n)
  | string (s : String) : Respelled (.string s) (.string s)
  | array {as bs : List Json} (h : RespelledItems as bs) : Respelled (.array as) (.array bs)
  | object {as bs : List (String × Json)} (h : RespelledMembers as bs) :
    Respelled (.object as) (.object bs)

/-- Two lists whose items differ at most in how numbers are written. -/
inductive RespelledItems : List Json → List Json → Prop where
  | nil : RespelledItems [] []
  | cons {a b : Json} {as bs : List Json} (head : Respelled a b) (tail : RespelledItems as bs) :
    RespelledItems (a :: as) (b :: bs)

/-- Members under the same keys whose values differ at most in how numbers are written. -/
inductive RespelledMembers : List (String × Json) → List (String × Json) → Prop where
  | nil : RespelledMembers [] []
  | cons {key : String} {a b : Json} {as bs : List (String × Json)} (head : Respelled a b)
    (tail : RespelledMembers as bs) : RespelledMembers ((key, a) :: as) ((key, b) :: bs)

end

mutual

/-- A value is rigid if all numbers in it are. -/
def Rigid : Json → Prop
  | .number n => n.Rigid
  | .array items => RigidItems items
  | .object members => RigidMembers members
  | .null | .bool _ | .string _ => True

/-- Lists of rigid values. -/
def RigidItems : List Json → Prop
  | [] => True
  | v :: rest => Rigid v ∧ RigidItems rest

/-- Members with rigid values. -/
def RigidMembers : List (String × Json) → Prop
  | [] => True
  | (_, v) :: rest => Rigid v ∧ RigidMembers rest

end

theorem RespelledMembers.length_eq {a b : List (String × Json)} (h : RespelledMembers a b) :
    a.length = b.length := by
  induction a generalizing b with
  | nil =>
      cases h
      rfl
  | cons e rest ih =>
      cases h with
      | cons _ tail => exact congrArg (· + 1) (ih tail)

/-- What a key leads to is respelled with the members. -/
theorem RespelledMembers.lookup {a b : List (String × Json)} (h : RespelledMembers a b)
    (key : String) : Option.Rel Respelled (a.lookup key) (b.lookup key) := by
  induction a generalizing b with
  | nil =>
      cases h
      exact .none
  | cons e rest ih =>
      cases h with
      | cons head tail =>
          rw [List.lookup_cons, List.lookup_cons]
          split
          · exact .some head
          · exact ih tail

theorem rigid_of_lookup {members : List (String × Json)} {key : String} {v : Json}
    (h : RigidMembers members) (hv : members.lookup key = some v) : v.Rigid := by
  induction members with
  | nil => cases hv
  | cons e rest ih =>
      rw [List.lookup_cons] at hv
      split at hv
      · cases hv
        exact h.1
      · exact ih h.2 hv

mutual

/-- **Rigid values.**  Whether a value is the same as a rigid one does not
depend on how the numbers of either are written. -/
theorem same_respelled {a a' b b' : Json} : a.Respelled a' → b.Respelled b' → b.Rigid →
    a.same b = a'.same b'
  | ha, hb, hrigid => by
      cases ha with
      | null | bool | string => cases hb <;> simp [same]
      | number hm =>
          cases hb with
          | number hn => exact Number.Rigid.same_respelled hrigid hm hn
          | _ => rfl
      | array hitems =>
          cases hb with
          | array hitems' => exact sameItems_respelled hitems hitems' hrigid
          | _ => rfl
      | object hmembers =>
          cases hb with
          | object hmembers' =>
              rw [same, same, sameMembers_respelled hmembers hmembers' hrigid,
                hmembers.length_eq, hmembers'.length_eq]
          | _ => rfl

/-- The same for lists. -/
theorem sameItems_respelled {a a' b b' : List Json} : RespelledItems a a' →
    RespelledItems b b' → RigidItems b → sameItems a b = sameItems a' b'
  | ha, hb, hrigid => by
      cases ha with
      | nil => cases hb <;> rfl
      | cons head tail =>
          cases hb with
          | nil => rfl
          | cons head' tail' =>
              rw [sameItems, sameItems, same_respelled head head' hrigid.1,
                sameItems_respelled tail tail' hrigid.2]

/-- The same for members. -/
theorem sameMembers_respelled {a a' b b' : List (String × Json)} : RespelledMembers a a' →
    RespelledMembers b b' → RigidMembers b → sameMembers a b = sameMembers a' b'
  | ha, hb, hrigid => by
      cases ha with
      | nil => rfl
      | @cons key x x' rest rest' head tail =>
          rw [sameMembers, sameMembers, sameMembers_respelled tail hb hrigid]
          congr 1
          have hfound := hb.lookup key
          generalize hv : b.lookup key = found at hfound
          generalize b'.lookup key = found' at hfound
          cases hfound with
          | none => rfl
          | some hvalue => exact same_respelled head hvalue (rigid_of_lookup hrigid hv)

end

/-- A value that is neither an array nor an object. -/
def isScalar : Json → Bool
  | .array _ | .object _ => false
  | _ => true

/-- An operand in which respelling makes no difference: a number, or a rigid value. -/
def Plain : Json → Prop
  | .number _ => True
  | v => v.Rigid

/-- Equality of a scalar with anything, and of anything with a plain operand,
does not depend on how numbers are written. -/
theorem equals_respelled {a a' b b' : Json} (ha : a.Respelled a') (hb : b.Respelled b')
    (h : a.isScalar = true ∨ b.Plain) : a.equals b = a'.equals b' := by
  cases ha with
  | null | bool | string => cases hb <;> rfl
  | number hm =>
      cases hb with
      | number hn =>
          simp [equals, Binary64.same, Number.units_toBinary64 hm, Number.units_toBinary64 hn]
      | _ => rfl
  | array hitems =>
      cases hb with
      | array hitems' =>
          have hrigid := h.resolve_left Bool.false_ne_true
          exact sameItems_respelled hitems hitems' hrigid
      | _ => rfl
  | object hmembers =>
      cases hb with
      | object hmembers' =>
          have hrigid := h.resolve_left Bool.false_ne_true
          exact same_respelled (.object hmembers) (.object hmembers') hrigid
      | _ => rfl

/-- The order of a value and a bound does not depend on how numbers are written. -/
theorem cmp?_respelled {a a' b b' : Json} (ha : a.Respelled a') (hb : b.Respelled b') :
    a.cmp? b = a'.cmp? b' := by
  cases ha with
  | number hm =>
      cases hb with
      | number hn =>
          simp [cmp?, Binary64.cmp, Number.units_toBinary64 hm, Number.units_toBinary64 hn]
      | _ => rfl
  | _ => cases hb <;> rfl

theorem Respelled.isNull_eq {a a' : Json} (h : a.Respelled a') : a.isNull = a'.isNull := by
  cases h <;> rfl

/-- A test of one value of a list carries over if it does for each value. -/
theorem RespelledItems.any_eq {as bs : List Json} (h : RespelledItems as bs)
    {test test' : Json → Bool}
    (htest : ∀ a b, a ∈ as → a.Respelled b → test a = test' b) : as.any test = bs.any test' := by
  induction as generalizing bs with
  | nil =>
      cases h
      rfl
  | cons a rest ih =>
      cases h with
      | cons head tail =>
          rw [List.any_cons, List.any_cons, htest _ _ List.mem_cons_self head,
            ih tail fun a b ha => htest a b (List.mem_cons_of_mem _ ha)]

/-! ## Operands that are not plain -/

mutual

/-- Every object in a value has each key once. -/
def Distinct : Json → Prop
  | .array items => DistinctItems items
  | .object members => (members.map Prod.fst).Nodup ∧ DistinctMembers members
  | .null | .bool _ | .number _ | .string _ => True

/-- Lists of such values. -/
def DistinctItems : List Json → Prop
  | [] => True
  | v :: rest => Distinct v ∧ DistinctItems rest

/-- Members with such values. -/
def DistinctMembers : List (String × Json) → Prop
  | [] => True
  | (_, v) :: rest => Distinct v ∧ DistinctMembers rest

end

theorem lookup_of_mem {members : List (String × Json)} (hnodup : (members.map Prod.fst).Nodup) :
    ∀ e ∈ members, members.lookup e.1 = some e.2 := by
  induction members with
  | nil => intro e he; cases he
  | cons head rest ih =>
      intro e he
      rw [List.map_cons, List.nodup_cons] at hnodup
      rcases List.mem_cons.mp he with rfl | he
      · exact List.lookup_cons_self
      · have hne : (e.1 == head.1) = false := by
          rw [beq_eq_false_iff_ne]
          rintro heq
          exact hnodup.1 (heq ▸ List.mem_map_of_mem he)
        rw [List.lookup_cons, hne]
        exact ih hnodup.2 e he

mutual

/-- A value is a respelling of itself. -/
theorem Respelled.refl : ∀ v : Json, v.Respelled v
  | .null => .null
  | .bool b => .bool b
  | .number _ => .number rfl
  | .string s => .string s
  | .array items => .array (RespelledItems.refl items)
  | .object members => .object (RespelledMembers.refl members)

theorem RespelledItems.refl : ∀ items : List Json, RespelledItems items items
  | [] => .nil
  | v :: rest => .cons (Respelled.refl v) (RespelledItems.refl rest)

theorem RespelledMembers.refl : ∀ members : List (String × Json), RespelledMembers members members
  | [] => .nil
  | (_, v) :: rest => .cons (Respelled.refl v) (RespelledMembers.refl rest)

end

mutual

/-- A value is the same as itself. -/
theorem same_self : ∀ v : Json, v.Distinct → v.same v = true
  | .null, _ => rfl
  | .bool _, _ | .string _, _ => by simp [same]
  | .number n, _ => by cases n <;> simp [same, Number.same, Binary64.same]
  | .array items, h => sameItems_self items h
  | .object members, h => by
      rw [same, sameMembers_self members members (lookup_of_mem h.1) h.2]
      simp

theorem sameItems_self : ∀ items : List Json, DistinctItems items → sameItems items items = true
  | [], _ => rfl
  | v :: rest, h => by rw [sameItems, same_self v h.1, sameItems_self rest h.2]; rfl

theorem sameMembers_self : ∀ members others : List (String × Json),
    (∀ e ∈ members, others.lookup e.1 = some e.2) → DistinctMembers members →
      sameMembers members others = true
  | [], _, _, _ => rfl
  | (k, v) :: rest, others, hfound, h => by
      rw [sameMembers, hfound (k, v) List.mem_cons_self,
        sameMembers_self rest others (fun e he => hfound e (List.mem_cons_of_mem _ he)) h.2]
      simp [same_self v h.1]

end

mutual

/-- A value that is not rigid has a respelling that is not the same. -/
theorem exists_unlike : ∀ v : Json, v.Distinct → ¬ v.Rigid →
    ∃ w, v.Respelled w ∧ w.same v = false
  | .number n, _, h => by
      obtain ⟨m, hm⟩ := not_forall.mp h
      obtain ⟨hunits, hsame⟩ := Classical.not_imp.mp hm
      exact ⟨.number m, .number hunits.symm, Bool.eq_false_iff.mpr hsame⟩
  | .array items, hkeys, h => by
      obtain ⟨ws, hws, hunlike⟩ := exists_unlikeItems items hkeys h
      exact ⟨.array ws, .array hws, hunlike⟩
  | .object members, hkeys, h => by
      obtain ⟨ws, hws, hunlike⟩ :=
        exists_unlikeMembers members members (lookup_of_mem hkeys.1) hkeys.2 h
      exact ⟨.object ws, .object hws, by rw [same, hunlike, Bool.and_false]⟩
  | .null, _, h | .bool _, _, h | .string _, _, h => absurd trivial h

theorem exists_unlikeItems : ∀ items : List Json, DistinctItems items → ¬ RigidItems items →
    ∃ ws, RespelledItems items ws ∧ sameItems ws items = false
  | [], _, h => absurd trivial h
  | v :: rest, hkeys, h => by
      by_cases hv : v.Rigid
      · obtain ⟨ws, hws, hunlike⟩ := exists_unlikeItems rest hkeys.2 fun hrest => h ⟨hv, hrest⟩
        exact ⟨v :: ws, .cons (.refl v) hws, by rw [sameItems, hunlike, Bool.and_false]⟩
      · obtain ⟨w, hw, hunlike⟩ := exists_unlike v hkeys.1 hv
        exact ⟨w :: rest, .cons hw (.refl rest), by rw [sameItems, hunlike, Bool.false_and]⟩

theorem exists_unlikeMembers : ∀ members others : List (String × Json),
    (∀ e ∈ members, others.lookup e.1 = some e.2) → DistinctMembers members →
      ¬ RigidMembers members →
        ∃ ws, RespelledMembers members ws ∧ sameMembers ws others = false
  | [], _, _, _, h => absurd trivial h
  | (k, v) :: rest, others, hfound, hkeys, h => by
      by_cases hv : v.Rigid
      · obtain ⟨ws, hws, hunlike⟩ := exists_unlikeMembers rest others
          (fun e he => hfound e (List.mem_cons_of_mem _ he)) hkeys.2 fun hrest => h ⟨hv, hrest⟩
        exact ⟨(k, v) :: ws, .cons (.refl v) hws, by rw [sameMembers, hunlike, Bool.and_false]⟩
      · obtain ⟨w, hw, hunlike⟩ := exists_unlike v hkeys.1 hv
        refine ⟨(k, w) :: rest, .cons hw (.refl rest), ?_⟩
        rw [sameMembers, hfound (k, v) List.mem_cons_self]
        exact Bool.and_eq_false_imp.mpr fun hsame => absurd hsame (by simp [hunlike])

end

/-- **Plain operands are needed.**  Equality with an operand is the same for all
spellings of a value exactly if the operand is plain. -/
theorem plain_iff {b : Json} (hkeys : b.Distinct) :
    b.Plain ↔ ∀ a a' : Json, a.Respelled a' → a.equals b = a'.equals b := by
  constructor
  · intro hplain a a' ha
    exact equals_respelled ha (.refl b) (Or.inr hplain)
  · intro hall
    by_contra hplain
    have hrigid : ¬ b.Rigid := by
      intro hrigid
      cases b <;> first | exact hplain trivial | exact hplain hrigid
    obtain ⟨w, hw, hunlike⟩ := exists_unlike b hkeys hrigid
    have hequals := hall b w hw
    cases hw with
    | number => exact hplain trivial
    | null | bool | string => exact hrigid trivial
    | array | object =>
        exact Bool.false_ne_true (hunlike.symm.trans (hequals.symm.trans (same_self _ hkeys)))

end Json

/-! ## Operations -/

namespace Operation

/-- Two operations that differ at most in how numbers in their operands are written. -/
inductive Respelled : Operation → Operation → Prop where
  | eq {v w : Json} (h : v.Respelled w) : Respelled (.eq v) (.eq w)
  | ne {v w : Json} (h : v.Respelled w) : Respelled (.ne v) (.ne w)
  | gte {v w : Json} (h : v.Respelled w) : Respelled (.gte v) (.gte w)
  | gt {v w : Json} (h : v.Respelled w) : Respelled (.gt v) (.gt w)
  | lte {v w : Json} (h : v.Respelled w) : Respelled (.lte v) (.lte w)
  | lt {v w : Json} (h : v.Respelled w) : Respelled (.lt v) (.lt w)
  | among {vs ws : List Json} (h : Json.RespelledItems vs ws) : Respelled (.among vs) (.among ws)
  | defined (required : Bool) : Respelled (.defined required) (.defined required)

/-- An operation that takes values to be equal only to plain operands. -/
def Plain : Operation → Prop
  | .eq v | .ne v => v.Plain
  | .among vs => ∀ v ∈ vs, v.Plain
  | _ => True

/-- One value meets a comparison however numbers are written. -/
theorem holdsOf_respelled {o o' : Operation} {a a' : Json} (ho : o.Respelled o')
    (ha : a.Respelled a') (h : a.isScalar = true ∨ o.Plain) : o.holdsOf a = o'.holdsOf a' := by
  cases ho with
  | eq hv => exact Json.equals_respelled ha hv h
  | among hvs =>
      exact hvs.any_eq fun v w hmem hv =>
        Json.equals_respelled ha hv (h.imp_right fun hplain => hplain v hmem)
  | gte hv | gt hv | lte hv | lt hv => simp only [holdsOf, Json.cmp?_respelled ha hv]
  | ne | defined => rfl

/-- A test of a value or one of its items carries over if it does for scalars,
and for all values unless the value is a scalar. -/
theorem ofAny_respelled {test test' : Json → Bool} {plain : Prop} {a a' : Json}
    (ha : a.Respelled a') (h : a.isScalar = true ∨ plain)
    (htest : ∀ v v', v.Respelled v' → v.isScalar = true ∨ plain → test v = test' v') :
    ofAny test a = ofAny test' a' := by
  unfold ofAny
  rw [htest a a' ha h]
  congr 1
  cases ha with
  | array hitems =>
      have hplain : plain := h.resolve_left Bool.false_ne_true
      exact hitems.any_eq fun v w _ hv => by rw [hv.isNull_eq, htest v w hv (Or.inr hplain)]
  | _ => rfl

/-- An attribute meets an operation however numbers are written. -/
theorem accepts_attribute {o o' : Operation} {found found' : Option Json} (ho : o.Respelled o')
    (hfound : Option.Rel Json.Respelled found found')
    (h : o.Plain ∨ ∀ v, found = some v → v.isScalar = true) :
    o.accepts found = o'.accepts found' := by
  cases hfound with
  | none => cases ho <;> rfl
  | @some a a' ha =>
      have hsafe : a.isScalar = true ∨ o.Plain := h.symm.imp_left fun hscalar => hscalar a rfl
      have hany : ofAny o.holdsOf a = ofAny o'.holdsOf a' :=
        ofAny_respelled ha hsafe fun v v' hv h => holdsOf_respelled ho hv h
      cases ho with
      | ne hv =>
          simp only [accepts]
          rw [ofAny_respelled ha hsafe fun v v' hvalue h => Json.equals_respelled hvalue hv h]
      | defined => rfl
      | _ => exact hany

end Operation

/-! ## Documents and filters -/

theorem get?_respelled {d d' : Json} (h : d.Respelled d') (key : String) :
    Option.Rel Json.Respelled (d.get? key) (d'.get? key) := by
  cases h with
  | object hmembers => exact hmembers.lookup key
  | _ => exact .none

theorem valueAlong_respelled {d d' : Json} (h : d.Respelled d') (keys : List String) :
    Option.Rel Json.Respelled (Document.valueAlong d keys) (Document.valueAlong d' keys) := by
  induction keys generalizing d d' with
  | nil => exact .some h
  | cons key rest ih =>
      rw [Document.valueAlong, Document.valueAlong]
      have hfound := get?_respelled h key
      generalize d.get? key = found at hfound
      generalize d'.get? key = found' at hfound
      cases hfound with
      | none => exact .none
      | some hvalue =>
          cases hvalue with
          | null => exact .none
          | bool b => exact ih (.bool b)
          | number hn => exact ih (.number hn)
          | string s => exact ih (.string s)
          | array hitems => exact ih (.array hitems)
          | object hmembers => exact ih (.object hmembers)

/-- Two predicates on one attribute that differ at most in how numbers are written. -/
structure Predicate.Respelled (p p' : Predicate) : Prop where
  field : p.field = p'.field
  operation : p.operation.Respelled p'.operation

/-- The cases in which respelling does not disturb a predicate: its operands are
plain, or the attribute is a scalar, or neither is respelled. -/
inductive Predicate.Undisturbed (d d' : Document) (p p' : Predicate) : Prop where
  | plain (h : p.operation.Plain)
  | scalar (h : ∀ v, d.valueAt p.field = some v → v.isScalar = true)
  | untouched (operation : p.operation = p'.operation)
    (value : d.valueAt p.field = d'.valueAt p.field)

theorem accepts_predicate {d d' : Document} {p p' : Predicate} (hd : d.Respelled d')
    (hp : p.Respelled p') (h : p.Undisturbed d d' p') : p.accepts d = p'.accepts d' := by
  have hvalue := valueAlong_respelled hd (segments p.field)
  unfold Predicate.accepts
  rw [← hp.field]
  cases h with
  | plain h => exact Operation.accepts_attribute hp.operation hvalue (Or.inl h)
  | scalar h => exact Operation.accepts_attribute hp.operation hvalue (Or.inr h)
  | untouched operation value => rw [operation, value]

/-- **Respelled documents.**  Documents and filters that differ only in how
numbers are written, at whatever depth, match alike, unless an array or an
object is compared as a whole with an operand in which a number can be
respelled. -/
theorem accepts_respelled {d d' : Document} {f f' : Filter} (hd : d.Respelled d')
    (hf : List.Forall₂ (fun p p' => p.Respelled p' ∧ p.Undisturbed d d' p')
      f.predicates f'.predicates) : f.accepts d = f'.accepts d' := by
  obtain ⟨predicates⟩ := f
  obtain ⟨predicates'⟩ := f'
  dsimp only at hf
  unfold Filter.accepts
  induction hf with
  | nil => rfl
  | cons hp _ ih => rw [List.all_cons, List.all_cons, accepts_predicate hd hp.1 hp.2, ih]

/-- One, as an integer and as a floating-point number. -/
def integerOne : Number := .integer 1 (by decide)

def floatOne : Number := .float (.ofInt 1)

theorem units_one : integerOne.units = floatOne.units :=
  (Binary64.units_ofInt_of_exact (Binary64.exact_of_natAbs_le (by decide))).symm

/-- A document whose attribute is a list of one number. -/
def listing (n : Number) : Document := .object [("v", .array [.number n])]

theorem listing_respelled : (listing integerOne).Respelled (listing floatOne) :=
  .object (.cons (.array (.cons (.number units_one) .nil)) .nil)

/-- Equality with an item does not depend on how the item and the operand are written. -/
theorem accepts_respelled_item :
    Filter.accepts ⟨[⟨"v", .eq (.number integerOne)⟩]⟩ (listing integerOne) =
      Filter.accepts ⟨[⟨"v", .eq (.number floatOne)⟩]⟩ (listing floatOne) :=
  accepts_respelled listing_respelled
    (.cons ⟨⟨rfl, .eq (.number units_one)⟩, .plain trivial⟩ .nil)

/-- Equality with a list does. -/
theorem list_not_respelled :
    ¬ ∀ (d d' : Document) (f f' : Filter), d.Respelled d' →
      List.Forall₂ Predicate.Respelled f.predicates f'.predicates →
        f.accepts d = f'.accepts d' := by
  intro hall
  have hsame : Predicate.Respelled ⟨"v", .eq (.array [.number integerOne])⟩
      ⟨"v", .eq (.array [.number integerOne])⟩ :=
    ⟨rfl, .eq (.array (.cons (.number rfl) .nil))⟩
  exact absurd (hall _ _ ⟨[_]⟩ ⟨[_]⟩ listing_respelled (.cons hsame .nil)) (by decide)

end DocQuery
