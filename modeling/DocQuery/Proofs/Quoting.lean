import DocQuery.Proofs.Tokens
import Mathlib.Data.List.Forall2

/-!
# Strings in quotes

Strings may hold anything, and what is written for them is read back.  For one
character that is seen by looking at its escape (`Token.exists_piece`); it is read as a
piece of its own, so a string is read up to its closing quote, wherever it stands
(`Token.exists_pieces`).  With the signs between them strings make up the tokens of an
object (`Json.exists_members`), which the machine takes one member at a time
(`Json.foldlM_step_members`).

* `Json.parse?_render_ofStrings` — an object of strings is read back from its line;
* `Json.le_of_mem_write` — that line has no control characters in it, so no line breaks.
-/

namespace DocQuery

/-! ## Strings -/

/-- A code in front of the halves of pairs stands for its character. -/
theorem Piece.text?_code {n : Nat} (h : n < 0xD800) (more : List Piece) :
    text? (.code n :: more) = (text? more).map (Char.ofNat n :: ·) := by
  have hhigh : isHigh n = false := by
    simp only [isHigh, Bool.and_eq_false_iff, decide_eq_false_iff_not]
    omega
  have hlow : isLow n = false := by
    simp only [isLow, Bool.and_eq_false_iff, decide_eq_false_iff_not]
    omega
  cases more with
  | nil => simp [text?, hhigh, hlow]
  | cons piece more => cases piece <;> simp [text?, hhigh, hlow]

/-- A character is written as an escape of one letter, as an escape of four digits if it
is a control character, or as it stands. -/
theorem Json.escape_cases (c : Char) :
    (∃ e, Token.escaped? e = some c ∧ ' ' ≤ e ∧ escape c = ['\\', e]) ∨
      (c < ' ' ∧ escape c =
        ['\\', 'u', '0', '0', Nat.digitChar (c.toNat / 16), Nat.digitChar (c.toNat % 16)]) ∨
      (c ≠ '"' ∧ c ≠ '\\' ∧ ¬ c < ' ' ∧ escape c = [c]) := by
  unfold escape
  split
  any_goals exact Or.inl ⟨_, rfl, by decide, rfl⟩
  split <;> simp_all

namespace Token

section Strings

variable {c e : Char} {cs rest : List Char}

/-- A quote ends a string. -/
theorem readString?_quote : readString? ('"' :: rest) = some ([], rest) := by
  rw [readString?]

/-- A one-letter escape is read as the character that it stands for. -/
theorem readString?_escaped (h : escaped? e = some c) : readString? ('\\' :: e :: rest) =
    (readString? rest).map fun read => (.char c :: read.1, read.2) := by
  have hu : e ≠ 'u' := by
    rintro rfl
    cases h
  rw [readString?, h]
  · cases readString? rest <;> rfl
  · simp [hu]

/-- Four hexadecimal digits are read as a code. -/
theorem readString?_code {x y z w : Char} {n : Nat} (h : hexCode? x y z w = some n) :
    readString? ('\\' :: 'u' :: x :: y :: z :: w :: rest) =
      (readString? rest).map fun read => (.code n :: read.1, read.2) := by
  rw [readString?, h]
  cases readString? rest <;> rfl

/-- Other characters are read as they stand. -/
theorem readString?_plain (hquote : c ≠ '"') (hescape : c ≠ '\\') (hcontrol : ¬ c < ' ') :
    readString? (c :: rest) = (readString? rest).map fun read => (.char c :: read.1, read.2) := by
  rw [readString?, if_neg hcontrol]
  · cases readString? rest <;> rfl
  all_goals simp_all

/-- **One character.**  What is written for it is read as one piece, which stands for it. -/
theorem exists_piece (c : Char) : ∃ piece : Piece,
    (∀ rest, readString? (Json.escape c ++ rest) =
      (readString? rest).map fun read => (piece :: read.1, read.2)) ∧
    ∀ more, Piece.text? (piece :: more) = (Piece.text? more).map (c :: ·) := by
  rcases Json.escape_cases c with ⟨e, he, -, heq⟩ | ⟨hcontrol, heq⟩ |
    ⟨hquote, hescape, hcontrol, heq⟩
  · exact ⟨.char c, fun rest => heq ▸ readString?_escaped he, fun more => rfl⟩
  · have hlt : c.toNat < 32 := hcontrol
    have hcode : ∀ n < 32, hexCode? '0' '0' (Nat.digitChar (n / 16)) (Nat.digitChar (n % 16)) =
        some n := by decide
    refine ⟨.code c.toNat, fun rest => heq ▸ readString?_code (hcode _ hlt), fun more => ?_⟩
    rw [Piece.text?_code (by omega), Char.ofNat_toNat]
  · exact ⟨.char c, fun rest => heq ▸ readString?_plain hquote hescape hcontrol, fun more => rfl⟩

/-- **Any string.**  What is written for its characters is read up to the closing quote, as
pieces that stand for them. -/
theorem exists_pieces (cs : List Char) : ∃ pieces,
    (∀ rest, readString? (cs.flatMap Json.escape ++ '"' :: rest) = some (pieces, rest)) ∧
      Piece.text? pieces = some cs := by
  induction cs with
  | nil => exact ⟨[], fun rest => readString?_quote, rfl⟩
  | cons c cs ih =>
      obtain ⟨piece, hread, htext⟩ := exists_piece c
      obtain ⟨pieces, hmore, hcs⟩ := ih
      refine ⟨piece :: pieces, fun rest => ?_, by rw [htext, hcs]; rfl⟩
      rw [List.flatMap_cons, List.append_assoc, hread, hmore]
      rfl

/-- A quoted string is one token. -/
theorem exists_string (s : String) : ∃ pieces,
    (∀ rest, readAll? (Json.quote s ++ rest) = (readAll? rest).map (.string pieces :: ·)) ∧
      Piece.text? pieces = some s.toList := by
  obtain ⟨pieces, hread, htext⟩ := exists_pieces s.toList
  refine ⟨pieces, fun rest => ?_, htext⟩
  have hquote : Json.quote s ++ rest = '"' :: (s.toList.flatMap Json.escape ++ '"' :: rest) := by
    simp [Json.quote]
  have hstring : read? ('"' :: (s.toList.flatMap Json.escape ++ '"' :: rest)) =
      some (.string pieces, rest) := by
    rw [read?, hread]
  rw [hquote, readAll?_of_read? (by decide) hstring]

end Strings

/-- The signs of an object are tokens by themselves. -/
theorem readAll?_signs (cs : List Char) :
    readAll? ('{' :: cs) = (readAll? cs).map (.openObject :: ·) ∧
      readAll? (',' :: cs) = (readAll? cs).map (.comma :: ·) ∧
      readAll? (':' :: cs) = (readAll? cs).map (.colon :: ·) ∧
      readAll? ('}' :: cs) = (readAll? cs).map (.closeObject :: ·) :=
  ⟨readAll?_of_read? (by decide) rfl, readAll?_of_read? (by decide) rfl,
    readAll?_of_read? (by decide) rfl, readAll?_of_read? (by decide) rfl⟩

end Token

/-! ## Objects of strings -/

namespace Json

/-- The object with the given strings as members. -/
def ofStrings (members : List (String × String)) : Json :=
  .object (members.map fun m => (m.1, .string m.2))

theorem ofStrings_injective {members members' : List (String × String)}
    (h : ofStrings members = ofStrings members') : members = members' := by
  rw [ofStrings, ofStrings, object.injEq] at h
  refine List.map_injective_iff.mpr (fun m m' heq => ?_) h
  rw [Prod.mk.injEq, string.injEq] at heq
  exact Prod.ext heq.1 heq.2

/-- The pieces of a key and a string that spell a member. -/
def SpellsMember (m : List Piece × List Piece) (e : String × String) : Prop :=
  Piece.text? m.1 = some e.1.toList ∧ Piece.text? m.2 = some e.2.toList

/-- A member after the first, as tokens. -/
def memberTokens (m : List Piece × List Piece) : List Token :=
  [.comma, .string m.1, .colon, .string m.2]

/-- A member as written. -/
def memberWritten (m : List Piece × List Piece) : List Piece × Written := (m.1, .string m.2)

/-- Members are written as tokens that spell them. -/
theorem exists_members (members : List (String × String)) : ∃ spelled,
    List.Forall₂ SpellsMember spelled members ∧
      ∀ rest, Token.readAll? (writeMembers (members.map fun m => (m.1, .string m.2)) ++ rest) =
        (Token.readAll? rest).map (spelled.flatMap memberTokens ++ ·) := by
  induction members with
  | nil => exact ⟨[], .nil, fun rest => by simp [writeMembers]⟩
  | cons e members ih =>
      obtain ⟨key, hkey, hkeytext⟩ := Token.exists_string e.1
      obtain ⟨value, hvalue, hvaluetext⟩ := Token.exists_string e.2
      obtain ⟨spelled, hspelled, hread⟩ := ih
      refine ⟨(key, value) :: spelled, .cons ⟨hkeytext, hvaluetext⟩ hspelled, fun rest => ?_⟩
      simp only [List.map_cons, writeMembers, write, List.cons_append, List.append_assoc,
        Token.readAll?_signs, hkey, hvalue, hread, List.flatMap_cons]
      cases Token.readAll? rest <;> rfl

theorem membersOf?_written {spelled : List (List Piece × List Piece)}
    {members : List (String × String)} (h : List.Forall₂ SpellsMember spelled members) :
    membersOf? (spelled.map memberWritten) = some (members.map fun m => (m.1, .string m.2)) := by
  induction h with
  | nil => rfl
  | cons hm _ ih =>
      simp only [List.map_cons, memberWritten, membersOf?, hm.1, ofWritten?, hm.2, Option.map_some,
        String.ofList_toList, ih]

theorem membersDepth_written (spelled : List (List Piece × List Piece)) :
    Written.membersDepth (spelled.map memberWritten) = 0 := by
  induction spelled with
  | nil => rfl
  | cons m rest ih => rw [List.map_cons, memberWritten, Written.membersDepth, ih]; rfl

/-- **Any members.**  Inside an object, the tokens of further members and of its end finish it
with these members. -/
theorem foldlM_step_members (spelled : List (List Piece × List Piece))
    (ms : List (List Piece × Written)) (key : List Piece) (w : Written) :
    (spelled.flatMap memberTokens ++ [Token.closeObject]).foldlM Written.Reading.step
        (.after w [.object ms key]) =
      some (.after (.object (((key, w) :: ms).reverse ++ spelled.map memberWritten)) []) := by
  induction spelled generalizing ms key w with
  | nil => simp [Written.Reading.step]
  | cons m rest ih =>
      have hmember : memberTokens m ++ (rest.flatMap memberTokens ++ [.closeObject]) =
          .comma :: .string m.1 :: .colon :: .string m.2 ::
            (rest.flatMap memberTokens ++ [.closeObject]) := rfl
      rw [List.flatMap_cons, List.append_assoc, hmember]
      -- after four tokens the machine is behind the next value, in the same frame
      simp only [List.foldlM_cons, Written.Reading.step, Written.Reading.begin,
        Option.bind_eq_bind, Option.bind_some, ih]
      simp [memberWritten]

/-- **An object of strings is read back**, whatever is in them. -/
theorem parse?_render_ofStrings {first : String × String} {members : List (String × String)}
    (h : ((first :: members).map Prod.fst).Nodup) :
    parse? ((ofStrings (first :: members)).render ++ "\n") = some (ofStrings (first :: members)) := by
  obtain ⟨key, hkey, hkeytext⟩ := Token.exists_string first.1
  obtain ⟨value, hvalue, hvaluetext⟩ := Token.exists_string first.2
  obtain ⟨spelled, hspelled, hread⟩ := exists_members members
  have hall : List.Forall₂ SpellsMember ((key, value) :: spelled) (first :: members) :=
    .cons ⟨hkeytext, hvaluetext⟩ hspelled
  have htext : ((ofStrings (first :: members)).render ++ "\n").toList =
      '{' :: (quote first.1 ++ ':' :: (quote first.2 ++
        (writeMembers (members.map fun m => (m.1, .string m.2)) ++ ['}', '\n']))) := by
    simp [render, ofStrings, write]
  have hend : Token.readAll? ['}', '\n'] = some [.closeObject] := by
    rw [(Token.readAll?_signs _).2.2.2, Token.readAll?_of_isBlank rfl, Token.readAll?]
    rfl
  have htokens : Token.readAll? ((ofStrings (first :: members)).render ++ "\n").toList =
      some (.openObject :: .string key :: .colon :: .string value ::
        (spelled.flatMap memberTokens ++ [.closeObject])) := by
    simp only [htext, Token.readAll?_signs, hkey, hvalue, hread, hend]
    rfl
  have hwritten : Written.parse? ((ofStrings (first :: members)).render ++ "\n") =
      some (.object (((key, value) :: spelled).map memberWritten)) := by
    rw [Written.parse?, htokens, Option.bind_some, Written.ofTokens?]
    simp only [List.foldlM_cons, Written.Reading.step, Written.Reading.begin, Option.bind_eq_bind,
      Option.bind_some, foldlM_step_members]
    rfl
  have hdepth : (Written.object (((key, value) :: spelled).map memberWritten)).depth ≤ maxDepth := by
    rw [Written.depth, membersDepth_written]
    decide
  simp only [parse?, hwritten, if_pos hdepth]
  rw [ofWritten?, membersOf?_written hall, Option.map_some, ofMembers_of_nodup]
  · rfl
  · simpa [Function.comp_def] using h

/-! ## No control characters -/

/-- Nothing that is written for a character is below the blank. -/
theorem le_of_mem_escape {c d : Char} (h : d ∈ escape c) : ' ' ≤ d := by
  rcases escape_cases c with ⟨e, -, hle, heq⟩ | ⟨hcontrol, heq⟩ | ⟨-, -, hcontrol, heq⟩
  all_goals
    rw [heq] at h
    simp only [List.mem_cons, List.not_mem_nil, or_false] at h
  · rcases h with rfl | rfl
    · decide
    · exact hle
  · have hdigits : ∀ n < 32, ' ' ≤ Nat.digitChar (n / 16) ∧ ' ' ≤ Nat.digitChar (n % 16) := by
      decide
    have hcode := hdigits c.toNat hcontrol
    rcases h with rfl | rfl | rfl | rfl | rfl | rfl
    · decide
    · decide
    · decide
    · decide
    · exact hcode.1
    · exact hcode.2
  · obtain rfl := h
    exact Char.not_lt.mp hcontrol

theorem le_of_mem_quote {s : String} {d : Char} (h : d ∈ quote s) : ' ' ≤ d := by
  rw [quote, List.cons_append, List.mem_cons, List.mem_append, List.mem_flatMap,
    List.mem_singleton] at h
  rcases h with rfl | ⟨c, -, hd⟩ | rfl
  · decide
  · exact le_of_mem_escape hd
  · decide

theorem le_of_mem_writeMembers {members : List (String × String)} {d : Char}
    (h : d ∈ writeMembers (members.map fun m => (m.1, .string m.2))) : ' ' ≤ d := by
  induction members with
  | nil => cases h
  | cons m rest ih =>
      simp only [List.map_cons, writeMembers, write, List.cons_append, List.mem_cons,
        List.mem_append] at h
      rcases h with rfl | (hkey | rfl | hvalue) | hrest
      · decide
      · exact le_of_mem_quote hkey
      · decide
      · exact le_of_mem_quote hvalue
      · exact ih hrest

/-- **An object of strings is written without control characters**, whatever is in them. -/
theorem le_of_mem_write {members : List (String × String)} {d : Char}
    (h : d ∈ (ofStrings members).write) : ' ' ≤ d := by
  cases members with
  | nil =>
      simp only [ofStrings, List.map_nil, write, List.mem_cons, List.not_mem_nil, or_false] at h
      rcases h with rfl | rfl <;> decide
  | cons m rest =>
      simp only [ofStrings, List.map_cons, write, List.cons_append, List.mem_cons,
        List.mem_append, List.not_mem_nil, or_false] at h
      rcases h with rfl | ((hkey | rfl | hvalue) | hrest) | rfl
      · decide
      · exact le_of_mem_quote hkey
      · decide
      · exact le_of_mem_quote hvalue
      · exact le_of_mem_writeMembers hrest
      · decide

end Json

end DocQuery
