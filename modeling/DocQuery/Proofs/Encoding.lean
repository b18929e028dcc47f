import DocQuery.Proofs.Answers
import DocQuery.Proofs.ByteOrder

/-!
# Keys in writing

The text of a key begins with a letter for its kind, and the letters are ordered as the
kinds are.  Booleans are then told apart by their words and strings by themselves.  The
pattern of a number is written with the same number of digits whatever it is, leading
zeros included, so the first digit in which two patterns differ decides which of them is
smaller (`digits_lt_iff`).  Hence keys are ordered as the bytes of their texts are, and no
two keys have one text (`lt_iff_encode_lt`, `encode_injective`).

A reader of references who does not know about keys therefore sees the order of the walk
in the segments alone: forward the references increase, in reverse the texts of the keys
never increase, and under one text the ids do (`bytes_lt_iff`, `encoded_keys_ordered`).
-/

namespace DocQuery

/-- A function that keeps a linear order takes no two values to one. -/
theorem LinearKey.injective_of_lt {κ β : Type} [LT κ] [LinearKey κ] [LT β] {f : κ → β}
    (hirrefl : ∀ b : β, ¬ b < b) (hlt : ∀ {a b : κ}, a < b → f a < f b) :
    Function.Injective f := by
  intro a b h
  rcases trichotomy a b with hab | heq | hba
  · exact absurd (h ▸ hlt hab) (hirrefl _)
  · exact heq
  · exact absurd (h ▸ hlt hba) (hirrefl _)

/-! ## Digits -/

/-- Digits of base sixteen are ordered as characters. -/
theorem strictMonoOn_digitChar : StrictMonoOn Nat.digitChar (Set.Iio 16) := by
  have htable : ∀ i < 16, ∀ j < 16, i < j → Nat.digitChar i < Nat.digitChar j := by decide
  exact fun i hi j hj => htable i hi j hj

/-- Of two numbers the one with the larger quotient is larger, and if the quotients are
equal that with the larger remainder. -/
theorem add_mul_lt_iff {b q q' r r' : Nat} (hr : r < b) (hr' : r' < b) :
    r + b * q < r' + b * q' ↔ q < q' ∨ q = q' ∧ r < r' := by
  have hstep : ∀ {p p' : Nat}, p < p' → b * p + b ≤ b * p' := fun h =>
    Nat.mul_succ b _ ▸ Nat.mul_le_mul_left b h
  rcases Nat.lt_trichotomy q q' with hlt | rfl | hgt
  · have := hstep hlt
    exact iff_of_true (by omega) (Or.inl hlt)
  · omega
  · have := hstep hgt
    exact iff_of_false (by omega) (by omega)

namespace IndexKey

/-- The last digits of a number in base sixteen, as many as asked for. -/
def digits (n : Nat) : (width : Nat) → List Char
  | 0 => []
  | width + 1 => Nat.digitChar (n / 16 ^ width % 16) :: digits n width

/-- A pattern is written with sixteen digits. -/
theorem hexDigits_eq (pattern : UInt64) : hexDigits pattern = digits pattern.toNat 16 := rfl

/-- **Digits of one width are ordered as the numbers that they write.** -/
theorem digits_lt_iff {m n : Nat} (width : Nat) :
    digits m width < digits n width ↔ m % 16 ^ width < n % 16 ^ width := by
  induction width with
  | zero => simp [digits, Nat.mod_one]
  | succ width ih =>
      have hdigit : ∀ k : Nat, k % 16 ∈ Set.Iio 16 := fun k => Nat.mod_lt k (by decide)
      have hrest : ∀ k : Nat, k % 16 ^ width < 16 ^ width := fun k =>
        Nat.mod_lt k (Nat.pow_pos (by decide))
      -- the digit in front is the quotient by its place, the others write the remainder
      rw [digits, digits, List.cons_lt_cons_iff, ih,
        strictMonoOn_digitChar.lt_iff_lt (hdigit _) (hdigit _),
        strictMonoOn_digitChar.eq_iff_eq (hdigit _) (hdigit _), Nat.mod_pow_succ,
        Nat.mod_pow_succ, add_mul_lt_iff (hrest m) (hrest n)]

/-- Patterns are ordered as their digits are. -/
theorem hexDigits_lt_iff {p q : UInt64} : hexDigits p < hexDigits q ↔ p < q := by
  have hsmall : ∀ p : UInt64, p.toNat % 16 ^ 16 = p.toNat := fun p =>
    Nat.mod_eq_of_lt p.toNat_lt
  rw [hexDigits_eq, hexDigits_eq, digits_lt_iff, hsmall, hsmall, UInt64.lt_iff_toNat_lt]

/-! ## The texts of keys -/

/-- The letter that the text of a key begins with. -/
def letter : IndexKey → Char
  | .bool _ => 'b'
  | .number _ => 'n'
  | .string _ => 's'

/-- What the text of a key says behind its letter. -/
def body : IndexKey → List Char
  | .bool b => (if b then "true" else "false").toList
  | .number pattern => hexDigits pattern
  | .string s => s.toList

/-- A colon stands between the two. -/
theorem toList_encode (k : IndexKey) : k.encode.toList = k.letter :: ':' :: k.body := by
  cases k with
  | bool b => cases b <;> rfl
  | number pattern => simp [encode, letter, body]
  | string s => simp [encode, letter, body]

/-- Keys are ordered by their letters, and those of one kind by what their texts say. -/
theorem lt_iff_letter_body {k k' : IndexKey} :
    k < k' ↔ k.letter < k'.letter ∨ k.letter = k'.letter ∧ k.body < k'.body := by
  -- keys of two kinds are told apart by their letters, whatever they say
  cases k with
  | bool b =>
      cases k' with
      | bool b' => revert b b'; decide
      | number | string => exact iff_of_true trivial (Or.inl (by simp [letter]))
  | number p =>
      cases k' with
      | bool => exact iff_of_false id (by simp [letter])
      | number q => exact hexDigits_lt_iff.symm.trans (by simp [letter, body])
      | string => exact iff_of_true trivial (Or.inl (by simp [letter]))
  | string s =>
      cases k' with
      | bool | number => exact iff_of_false id (by simp [letter])
      | string t => exact String.lt_iff_toList_lt.trans (by simp [letter, body])

/-- **Keys are ordered as their texts are.** -/
theorem lt_iff_encode_lt {k k' : IndexKey} : k < k' ↔ k.encode < k'.encode := by
  rw [String.lt_iff_toList_lt, toList_encode, toList_encode, List.cons_lt_cons_iff,
    List.cons_lt_cons_self, lt_iff_letter_body]

/-- No two keys have one text. -/
theorem encode_injective : Function.Injective encode :=
  LinearKey.injective_of_lt String.lt_irrefl lt_iff_encode_lt.mp

end IndexKey

/-! ## References in bytes -/

/-- No two strings have the same bytes. -/
theorem utf8Bytes_injective : Function.Injective utf8Bytes :=
  LinearKey.injective_of_lt List.lt_irrefl lt_iff_utf8Bytes_lt.mp

/-- The segments of a reference in bytes. -/
def Reference.bytes (reference : Reference) : List (List UInt8) :=
  reference.segments.map utf8Bytes

namespace Catalog

/-- The reference to an id under a key of a field. -/
def referenceTo (field : String) (pair : IndexKey × String) : Reference :=
  ⟨[field, pair.1.encode, pair.2]⟩

section Order

variable {field : String} {a b : IndexKey × String}

/-- **Forward.**  One pair comes before another exactly if its reference is smaller in
bytes, segment by segment. -/
theorem bytes_lt_iff :
    (referenceTo field a).bytes < (referenceTo field b).bytes ↔
      Postings.WalkedBefore false a b := by
  simp only [Reference.bytes, referenceTo, List.map_cons, List.map_nil, List.cons_lt_cons_self,
    List.cons_lt_cons_iff, ← lt_iff_utf8Bytes_lt, ← IndexKey.lt_iff_encode_lt,
    utf8Bytes_injective.eq_iff, IndexKey.encode_injective.eq_iff, List.lt_irrefl, and_false,
    or_false, Postings.WalkedBefore, Bool.false_eq_true, if_false]
  exact or_comm

/-- **In reverse.**  The text of a key that comes before another is not smaller in bytes,
and under one text the smaller id comes first. -/
theorem le_of_walkedBefore (h : Postings.WalkedBefore true a b) :
    utf8Bytes b.1.encode ≤ utf8Bytes a.1.encode ∧
      (a.1.encode = b.1.encode → utf8Bytes a.2 < utf8Bytes b.2) := by
  rcases h with ⟨hkey, hid⟩ | hafter
  · rw [hkey]
    exact ⟨List.le_refl _, fun _ => lt_iff_utf8Bytes_lt.mp hid⟩
  · have hlt : b.1.encode < a.1.encode := IndexKey.lt_iff_encode_lt.mp hafter
    refine ⟨List.le_of_lt (lt_iff_utf8Bytes_lt.mp hlt), fun heq => ?_⟩
    exact absurd (heq ▸ hlt) (String.lt_irrefl _)

end Order

/-- **Encoded keys keep the order of keys.**  Keys are ordered as their texts are in bytes,
and no two keys have one text.  So it is with the references by which a catalog answers a
request, whatever the catalog has followed: forward they increase strictly, segment by
segment.  In reverse the texts of the keys never increase, and the ids under one text
increase strictly.  Each reference is to a document that matches, under a key that it is
posted under in the field. -/
theorem encoded_keys_ordered :
    (∀ k k' : IndexKey, k < k' ↔ utf8Bytes k.encode < utf8Bytes k'.encode) ∧
    Function.Injective IndexKey.encode ∧
    ∀ (c : Catalog) (r : Request), ∀ answer ∈ c.ask r,
      ∃ (field : String) (postings : Postings) (pairs : List (IndexKey × String)),
        c.fields.get? field = some postings ∧
        answer.references = pairs.map (fun pair => .ok (referenceTo field pair)) ∧
        (r.reverse = false → pairs.Pairwise fun a b =>
          (referenceTo field a).bytes < (referenceTo field b).bytes) ∧
        (r.reverse = true → pairs.Pairwise fun a b =>
          utf8Bytes b.1.encode ≤ utf8Bytes a.1.encode ∧
            (a.1.encode = b.1.encode → utf8Bytes a.2 < utf8Bytes b.2)) ∧
        ∀ pair ∈ pairs, postings.Holds pair.1 pair.2 ∧
          ∃ document, c.bodies.get? pair.2 = some document ∧ r.filter.accepts document = true := by
  refine ⟨fun k k' => IndexKey.lt_iff_encode_lt.trans lt_iff_utf8Bytes_lt,
    IndexKey.encode_injective, ?_⟩
  intro c r answer hask
  obtain ⟨d, postings, pairs, _, hpostings, rfl, hfirst, _⟩ := ask_cases hask
  have hordered : pairs.Pairwise (Postings.WalkedBefore r.reverse) :=
    ((postings.pairwise_walk _ _ _).filter _).sublist hfirst.sublist
  refine ⟨d.field, postings, pairs, hpostings, rfl, ?_, ?_, ?_⟩
  · intro hforward
    rw [hforward] at hordered
    exact hordered.imp bytes_lt_iff.mpr
  · intro hreverse
    rw [hreverse] at hordered
    exact hordered.imp le_of_walkedBefore
  · intro pair hpair
    obtain ⟨hwalked, hmatches⟩ := List.mem_filter.mp (hfirst.subset hpair)
    rw [filedMatches, Option.any_eq_true] at hmatches
    exact ⟨(Postings.mem_walk.mp hwalked).2, hmatches⟩

/-- In reverse strings come before booleans, and the ids under one boolean still ascend. -/
example :
    (((ofFields ["v"]).write "d2" (.object [("v", .array [.string "", .bool true])])).write
        "d1" (.object [("v", .bool true)])).ask ⟨⟨[⟨"v", .defined true⟩]⟩, none, true, none⟩ =
      some ⟨[.ok ⟨["v", "s:", "d2"]⟩, .ok ⟨["v", "b:true", "d1"]⟩,
        .ok ⟨["v", "b:true", "d2"]⟩], false⟩ :=
  rfl

end Catalog

end DocQuery
