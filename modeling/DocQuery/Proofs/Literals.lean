import DocQuery.Proofs.Tokens

/-!
# Natural numbers in texts

A number may not begin with a zero that another digit follows, so digits that make up
a number are the decimal text of what they denote (`toDigits_valueOf`): no other
digits denote it.  A literal becomes a natural number only if it has no sign, no
fraction and no exponent (`Number.toNat?_ofLiteral?`), and then nothing but these
digits is read (`Token.exists_of_readUnsigned?`).

* `Json.parse?_eq_number_iff` — a text is read as a number if that is its only token;
* `Json.parse?_toNat?_iff` — it is read as a natural number exactly if it is the decimal
  text of that number between blanks, and the number fits into 64 bits;
* `Json.parse?_ne_number` — a text that begins like no number is read as none.
-/

namespace DocQuery

/-! ## Decimal digits -/

/-- The values of decimal digits. -/
def digitValues (cs : List Char) : List Nat := cs.map fun c => c.toNat - '0'.toNat

theorem toNat_of_isDigit {c : Char} (h : c.isDigit = true) : 48 ≤ c.toNat ∧ c.toNat ≤ 57 := by
  simpa [Char.isDigit, UInt32.le_iff_toNat_le] using h

/-- A digit is the decimal text of its value. -/
theorem toDigits_of_isDigit {c : Char} (h : c.isDigit = true) :
    Nat.toDigits 10 (c.toNat - 48) = [c] := by
  have hbounds := toNat_of_isDigit h
  rw [Nat.toDigits_of_lt_base (by omega), List.singleton_inj]
  apply Char.toNat_inj.mp
  rw [Nat.toNat_digitChar_of_lt_ten (by omega)]
  omega

/-- Digits denote a number as its decimal text does. -/
theorem valueOf_digitValues (cs : List Char) :
    NumberLiteral.valueOf (digitValues cs) = Nat.ofDigitChars 10 cs 0 := by
  rw [NumberLiteral.valueOf, digitValues, List.foldl_map, Nat.ofDigitChars_eq_foldl]

theorem valueOf_toDigits (n : Nat) :
    NumberLiteral.valueOf (digitValues (Nat.toDigits 10 n)) = n := by
  rw [valueOf_digitValues, Nat.ofDigitChars_ten_toDigits]

/-- Digits behind a decimal text that begins with no zero make a longer one. -/
theorem toDigits_append {n : Nat} (hpos : 0 < n) {cs : List Char}
    (h : ∀ c ∈ cs, c.isDigit = true) :
    Nat.toDigits 10 n ++ cs = Nat.toDigits 10 (Nat.ofDigitChars 10 cs n) := by
  induction cs generalizing n with
  | nil => simp [Nat.ofDigitChars_nil]
  | cons c rest ih =>
      obtain ⟨hc, hrest⟩ := List.forall_mem_cons.mp h
      have hbounds := toNat_of_isDigit hc
      have hstep : Nat.toDigits 10 n ++ [c] = Nat.toDigits 10 (10 * n + (c.toNat - 48)) := by
        rw [← toDigits_of_isDigit hc,
          Nat.toDigits_append_toDigits (by decide) hpos (by omega)]
      have hvalue : Nat.ofDigitChars 10 (c :: rest) n =
          Nat.ofDigitChars 10 rest (10 * n + (c.toNat - 48)) := by
        simp [Nat.ofDigitChars_eq_foldl]
      rw [hvalue, ← ih (by omega) hrest, ← hstep]
      simp

/-- **Whole numbers have one spelling.**  Digits that may stand before the point are the
decimal text of the number they denote. -/
theorem toDigits_valueOf {cs : List Char} (h : ∀ c ∈ cs, c.isDigit = true)
    (hwhole : Token.isWhole (digitValues cs) = true) :
    Nat.toDigits 10 (NumberLiteral.valueOf (digitValues cs)) = cs := by
  rw [valueOf_digitValues]
  cases cs with
  | nil => cases hwhole
  | cons c rest =>
      obtain ⟨hc, hrest⟩ := List.forall_mem_cons.mp h
      have hvalue : Nat.ofDigitChars 10 (c :: rest) 0 =
          Nat.ofDigitChars 10 rest (c.toNat - 48) := by
        simp [Nat.ofDigitChars_eq_foldl]
      rw [hvalue]
      by_cases hpos : 0 < c.toNat - 48
      · rw [← toDigits_append hpos hrest, toDigits_of_isDigit hc, List.singleton_append]
      · have hzero : c.toNat - 48 = 0 := by omega
        cases rest with
        | nil => rw [Nat.ofDigitChars_nil, toDigits_of_isDigit hc]
        | cons d more => simp [digitValues, hzero, Token.isWhole] at hwhole

/-- The decimal text of a positive number begins with no zero. -/
theorem exists_toDigits_eq_cons {n : Nat} (h : 0 < n) :
    ∃ d rest, Nat.toDigits 10 n = Nat.digitChar d :: rest ∧ 0 < d ∧ d < 10 := by
  induction n using Nat.strongRecOn with
  | ind n ih =>
      by_cases hlt : n < 10
      · exact ⟨n, [], Nat.toDigits_of_lt_base hlt, h, hlt⟩
      · obtain ⟨d, rest, heq, hd⟩ := ih (n / 10) (by omega) (by omega)
        refine ⟨d, rest ++ [Nat.digitChar (n % 10)], ?_, hd⟩
        rw [Nat.toDigits_of_base_le (by decide) (by omega), heq, List.cons_append]

/-- A decimal text may stand before the point. -/
theorem isWhole_toDigits (n : Nat) : Token.isWhole (digitValues (Nat.toDigits 10 n)) = true := by
  rcases Nat.eq_zero_or_pos n with rfl | hpos
  · rfl
  · obtain ⟨d, rest, heq, hd, hlt⟩ := exists_toDigits_eq_cons hpos
    have hvalue : digitValues (Nat.digitChar d :: rest) = d :: digitValues rest := by
      simp [digitValues, Nat.toNat_digitChar_sub_48_of_lt_ten hlt]
    rw [heq, hvalue]
    cases d with
    | zero => cases hd
    | succ d => rfl

/-! ## Reading digits -/

namespace Token

section Numbers

variable {c : Char} {cs rest digits : List Char} {negative : Bool} {l : NumberLiteral}

theorem eq_of_isBlank (h : isBlank c = true) : c = ' ' ∨ c = '\n' ∨ c = '\t' ∨ c = '\r' := by
  simpa [isBlank, or_assoc] using h

/-- Blanks are no part of a number. -/
theorem not_isDigit_of_isBlank (h : isBlank c = true) : c.isDigit = false := by
  rcases eq_of_isBlank h with rfl | rfl | rfl | rfl <;> rfl

/-- Reading digits takes all of them off a text. -/
theorem readDigits_append (hdigits : ∀ c ∈ digits, c.isDigit = true)
    (hrest : ∀ c ∈ rest, isBlank c = true) :
    readDigits (digits ++ rest) = (digitValues digits, rest) := by
  have hnone : rest.takeWhile Char.isDigit = [] ∧ rest.dropWhile Char.isDigit = rest := by
    cases rest with
    | nil => exact ⟨rfl, rfl⟩
    | cons c rest => simp [not_isDigit_of_isBlank (hrest c List.mem_cons_self)]
  rw [readDigits, List.takeWhile_append_of_pos hdigits, List.dropWhile_append_of_pos hdigits,
    hnone.1, hnone.2, List.append_nil]
  rfl

/-- A text is the digits that it begins with and what is left of it. -/
theorem exists_readDigits (cs : List Char) : ∃ digits rest, cs = digits ++ rest ∧
    (∀ c ∈ digits, c.isDigit = true) ∧ readDigits cs = (digitValues digits, rest) :=
  ⟨cs.takeWhile Char.isDigit, cs.dropWhile Char.isDigit, List.takeWhile_append_dropWhile.symm,
    List.all_eq_true.mp List.all_takeWhile, rfl⟩

/-- Digits and blanks after them are read as a number without fraction and exponent. -/
theorem readUnsigned?_append (hdigits : ∀ c ∈ digits, c.isDigit = true)
    (hwhole : isWhole (digitValues digits) = true) (hrest : ∀ c ∈ rest, isBlank c = true) :
    readUnsigned? negative (digits ++ rest) =
      some (⟨negative, digitValues digits, [], none⟩, rest) := by
  have hfraction : readFraction? rest = some ([], rest) := by
    cases rest with
    | nil => rfl
    | cons c rest =>
        rcases eq_of_isBlank (hrest c List.mem_cons_self) with rfl | rfl | rfl | rfl <;> rfl
  have hexponent : readExponent? rest = some (none, rest) := by
    cases rest with
    | nil => rfl
    | cons c rest =>
        rcases eq_of_isBlank (hrest c List.mem_cons_self) with rfl | rfl | rfl | rfl <;> rfl
  simp only [readUnsigned?, readDigits_append hdigits hrest, hwhole, if_true, hfraction, hexponent]

/-- A fraction that is read has digits, unless nothing is read. -/
theorem eq_of_readFraction? (h : readFraction? cs = some ([], rest)) : rest = cs := by
  unfold readFraction? at h
  split at h
  · next cs =>
      cases hrun : readDigits cs with
      | mk run after => cases run <;> simp [hrun] at h
  · cases h
    rfl

/-- An exponent that is read is there, unless nothing is read. -/
theorem eq_of_readExponent? (h : readExponent? cs = some (none, rest)) : rest = cs := by
  have hmagnitude {negative : Bool} {cs : List Char} :
      readMagnitude? negative cs ≠ some (none, rest) := by
    unfold readMagnitude?
    simp
  have hsigned {cs : List Char} : readSigned? cs ≠ some (none, rest) := by
    unfold readSigned?
    split <;> exact hmagnitude
  unfold readExponent? at h
  split at h
  · exact absurd h hsigned
  · exact absurd h hsigned
  · cases h
    rfl

/-- **A number is digits** that may stand before the point, and what may follow them. -/
theorem exists_of_readUnsigned? (h : readUnsigned? negative cs = some (l, rest)) :
    ∃ digits more, cs = digits ++ more ∧ (∀ c ∈ digits, c.isDigit = true) ∧
      isWhole (digitValues digits) = true ∧ l.negative = negative ∧
        l.whole = digitValues digits ∧ (l.fraction = [] → l.exponent = none → rest = more) := by
  obtain ⟨digits, more, hcs, hdigits, hread⟩ := exists_readDigits cs
  simp only [readUnsigned?, hread] at h
  split at h
  · next hwhole =>
      split at h
      · cases h
      · next fraction after hfraction =>
          split at h
          · cases h
          · next exponent after' hexponent =>
              cases h
              refine ⟨digits, more, hcs, hdigits, hwhole, rfl, rfl, ?_⟩
              rintro rfl rfl
              rw [eq_of_readExponent? hexponent, eq_of_readFraction? hfraction]
  · cases h

/-- A digit begins a number. -/
theorem read?_of_isDigit (h : c.isDigit = true) :
    read? (c :: cs) = (readUnsigned? false (c :: cs)).map fun read => (.number read.1, read.2) := by
  unfold read?
  split
  any_goals (simp_all [Char.isDigit]; done)
  cases readUnsigned? false (c :: cs) <;> rfl

/-- A number is read behind a minus sign or without a sign. -/
theorem readUnsigned?_of_read? (h : read? cs = some (.number l, rest)) :
    (∃ unsigned, cs = '-' :: unsigned ∧ readUnsigned? true unsigned = some (l, rest)) ∨
      readUnsigned? false cs = some (l, rest) := by
  unfold read? at h
  split at h
  -- only strings and numbers are read any further
  any_goals split at h
  all_goals cases h
  · next unsigned _ hread => exact Or.inl ⟨unsigned, rfl, hread⟩
  · next hread => exact Or.inr hread

/-- A number begins with a minus sign or a digit. -/
theorem begins_of_read? (h : read? (c :: cs) = some (.number l, rest)) :
    c = '-' ∨ c.isDigit = true := by
  rcases readUnsigned?_of_read? h with ⟨_, hcs, -⟩ | hread
  · exact Or.inl (List.cons.inj hcs).1
  · obtain ⟨digits, more, hcs, hdigits, hwhole, -⟩ := exists_of_readUnsigned? hread
    cases digits with
    | nil => cases hwhole
    | cons d digits =>
        obtain ⟨rfl, -⟩ := List.cons.inj hcs
        exact Or.inr (hdigits c List.mem_cons_self)

end Numbers

end Token


/-! ## Literals -/

theorem NumberLiteral.toInt_of_not_negative {l : NumberLiteral} (h : l.negative = false) :
    l.toInt = valueOf l.whole := by
  simp [toInt, h]

/-- A number that is read as natural is written without sign, fraction and exponent. -/
theorem Number.toNat?_ofLiteral? {l : NumberLiteral} {n : Nat} :
    (∃ num, ofLiteral? l = some num ∧ num.toNat? = some n) ↔ l.negative = false ∧
      l.fraction = [] ∧ l.exponent = none ∧ NumberLiteral.valueOf l.whole = n ∧
        n < 0x10000000000000000 := by
  constructor
  · rintro ⟨num, hnum, hn⟩
    unfold ofLiteral? at hnum
    split at hnum
    · next h =>
        obtain rfl := Option.some.inj hnum
        have hvalue : 0 ≤ l.toInt ∧ l.toInt.toNat = n := by simpa [toNat?] using hn
        obtain ⟨hinteger, -, hlt⟩ := h
        obtain ⟨hnonneg, rfl⟩ := hvalue
        simp only [NumberLiteral.isInteger, Bool.and_eq_true, List.isEmpty_iff,
          Option.isNone_iff_eq_none] at hinteger
        obtain ⟨⟨hfraction, hexponent⟩, hzero⟩ := hinteger
        cases hnegative : l.negative with
        | false =>
            have hint := NumberLiteral.toInt_of_not_negative hnegative
            exact ⟨rfl, hfraction, hexponent, by omega, by omega⟩
        | true =>
            -- only zero would not be negative, and `-0` is no integer
            have : l.toInt = 0 := by
              simp only [NumberLiteral.toInt, hnegative, if_true] at hnonneg ⊢
              omega
            simp [hnegative, this] at hzero
    · obtain ⟨x, -, rfl⟩ := Option.map_eq_some_iff.mp hnum
      cases hn
  · rintro ⟨hnegative, hfraction, hexponent, rfl, hlt⟩
    have hint := NumberLiteral.toInt_of_not_negative hnegative
    have hinteger : l.isInteger = true ∧ -0x8000000000000000 ≤ l.toInt ∧
        l.toInt < 0x10000000000000000 := by
      refine ⟨?_, by omega, by omega⟩
      simp [NumberLiteral.isInteger, hfraction, hexponent, hnegative]
    refine ⟨_, dif_pos hinteger, ?_⟩
    simp [toNat?, hint]

namespace Json

/-- A text is read as a number if it has one token, which denotes the number. -/
theorem parse?_eq_number_iff {text : String} {num : Number} : parse? text = some (.number num) ↔
    ∃ l, Token.readAll? text.toList = some [.number l] ∧ Number.ofLiteral? l = some num := by
  constructor
  · intro h
    unfold parse? at h
    split at h
    · next w hw =>
        split at h
        · obtain ⟨tokens, htokens, hof⟩ := Option.bind_eq_some_iff.mp hw
          cases w with
          | number l =>
              rw [Written.ofTokens?_eq_number_iff.mp hof] at htokens
              exact ⟨l, htokens, by simpa [ofWritten?] using h⟩
          | null | bool b | string s | array items | object members =>
              simp [ofWritten?, ofMembers] at h
        · cases h
    · cases h
  · rintro ⟨l, htokens, hl⟩
    have hw : Written.parse? text = some (.number l) := by
      rw [Written.parse?, htokens, Option.bind_some, Written.ofTokens?_eq_number_iff]
    simp [parse?, hw, Written.depth, ofWritten?, hl]

/-- A text is the decimal text of a natural number, between blanks. -/
def SpellsNat (text : String) (n : Nat) : Prop :=
  ∃ before after, text.toList = before ++ Nat.toDigits 10 n ++ after ∧
    (∀ c ∈ before, Token.isBlank c = true) ∧ ∀ c ∈ after, Token.isBlank c = true

/-- **Natural numbers in texts.**  A text is read as a natural number below 2⁶⁴ exactly
if it is the decimal text of that number, between blanks. -/
theorem parse?_toNat?_iff {text : String} {n : Nat} :
    (∃ num, parse? text = some (.number num) ∧ num.toNat? = some n) ↔
      SpellsNat text n ∧ n < 0x10000000000000000 := by
  simp only [parse?_eq_number_iff]
  constructor
  · rintro ⟨num, ⟨l, htokens, hl⟩, hn⟩
    obtain ⟨hnegative, hfraction, hexponent, rfl, hlt⟩ :=
      Number.toNat?_ofLiteral?.mp ⟨num, hl, hn⟩
    obtain ⟨before, c, core, after, htext, hbefore, -, hread, hafter⟩ :=
      Token.readAll?_eq_singleton_iff.mp htokens
    have hunsigned : Token.readUnsigned? false (c :: core) = some (l, after) := by
      rcases Token.readUnsigned?_of_read? hread with ⟨_, -, hsigned⟩ | hunsigned
      · obtain ⟨-, -, -, -, -, hsign, -⟩ := Token.exists_of_readUnsigned? hsigned
        rw [hnegative] at hsign
        cases hsign
      · exact hunsigned
    obtain ⟨digits, more, hcore, hdigits, hwhole, -, hvalue, hrest⟩ :=
      Token.exists_of_readUnsigned? hunsigned
    refine ⟨⟨before, after, ?_, hbefore, hafter⟩, hlt⟩
    rw [htext, hcore, hrest hfraction hexponent, hvalue, toDigits_valueOf hdigits hwhole,
      List.append_assoc]
  · rintro ⟨⟨before, after, htext, hbefore, hafter⟩, hlt⟩
    have hdigits : ∀ c ∈ Nat.toDigits 10 n, c.isDigit = true := fun c hc =>
      Nat.isDigit_of_mem_toDigits (by decide) (by decide) hc
    obtain ⟨c, core, hcore⟩ := List.exists_cons_of_ne_nil (Nat.toDigits_ne_nil (n := n) (b := 10))
    have hc : c.isDigit = true := hdigits c (by simp [hcore])
    have hblank : Token.isBlank c = false := Bool.eq_false_iff.mpr fun h => by
      simp [Token.not_isDigit_of_isBlank h] at hc
    have hread : Token.read? (c :: (core ++ after)) =
        some (.number ⟨false, digitValues (Nat.toDigits 10 n), [], none⟩, after) := by
      rw [Token.read?_of_isDigit hc, ← List.cons_append, ← hcore,
        Token.readUnsigned?_append hdigits (isWhole_toDigits n) hafter]
      rfl
    obtain ⟨num, hnum, hn⟩ := Number.toNat?_ofLiteral?
      (l := ⟨false, digitValues (Nat.toDigits 10 n), [], none⟩) |>.mpr
        ⟨rfl, rfl, rfl, valueOf_toDigits n, hlt⟩
    refine ⟨num, ⟨_, Token.readAll?_eq_singleton_iff.mpr ?_, hnum⟩, hn⟩
    exact ⟨before, c, core ++ after, after, by simp [htext, hcore], hbefore, hblank, hread, hafter⟩

/-- A text that begins like no number is read as none. -/
theorem parse?_ne_number {c : Char} (cs : List Char) (hblank : Token.isBlank c = false)
    (hminus : c ≠ '-') (hdigit : c.isDigit = false) (num : Number) :
    parse? (String.ofList (c :: cs)) ≠ some (.number num) := by
  intro h
  obtain ⟨l, htokens, -⟩ := parse?_eq_number_iff.mp h
  rw [String.toList_ofList] at htokens
  obtain ⟨before, c', core, after, hcs, hbefore, -, hread, -⟩ :=
    Token.readAll?_eq_singleton_iff.mp htokens
  cases before with
  | nil =>
      obtain ⟨rfl, -⟩ := List.cons.inj hcs
      rcases Token.begins_of_read? hread with h | h
      · exact hminus h
      · simp [hdigit] at h
  | cons b before =>
      obtain ⟨rfl, -⟩ := List.cons.inj hcs
      simp [hblank] at hbefore

end Json

end DocQuery
