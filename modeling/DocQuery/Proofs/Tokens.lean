import DocQuery.Json.Parser
import DocQuery.Json.Printer
import Mathlib.Data.List.Induction

/-!
# Texts of one token

Blanks before and after a token do not matter.  A text with a single token is that
token between blanks (`Token.readAll?_eq_singleton_iff`), and only such a text spells
a number: a token that is not the last one leaves the machine inside an array or an
object, and none leads back to the start (`Written.ofTokens?_eq_number_iff`).
-/

namespace DocQuery

namespace Token

section ReadAll

variable {c : Char} {cs rest blanks : List Char} {t : Token} {ts : List Token}

/-- A blank is passed over. -/
theorem readAll?_of_isBlank (h : isBlank c = true) : readAll? (c :: cs) = readAll? cs := by
  rw [readAll?, if_pos h]

/-- Elsewhere a token is read. -/
theorem readAll?_of_read? (hblank : isBlank c = false) (h : read? (c :: cs) = some (t, rest)) :
    readAll? (c :: cs) = (readAll? rest).map (t :: ·) := by
  rw [readAll?, if_neg (by simp [hblank])]
  split <;> simp_all

/-- Blanks are passed over. -/
theorem readAll?_blanks_append (h : ∀ c ∈ blanks, isBlank c = true) :
    readAll? (blanks ++ cs) = readAll? cs := by
  induction blanks with
  | nil => rfl
  | cons c rest ih =>
      obtain ⟨hc, hrest⟩ := List.forall_mem_cons.mp h
      rw [List.cons_append, readAll?_of_isBlank hc, ih hrest]

/-- The first token of a text, if it has one, stands behind blanks. -/
theorem readAll?_cases (cs : List Char) :
    (readAll? cs = some [] ∧ ∀ c ∈ cs, isBlank c = true) ∨
      ∃ blanks c core, cs = blanks ++ c :: core ∧ (∀ b ∈ blanks, isBlank b = true) ∧
        isBlank c = false ∧ readAll? cs = readAll? (c :: core) := by
  induction cs with
  | nil => exact Or.inl ⟨by rw [readAll?], by simp⟩
  | cons c rest ih =>
      cases hblank : isBlank c with
      | false => exact Or.inr ⟨[], c, rest, rfl, by simp, hblank, rfl⟩
      | true =>
          rw [readAll?_of_isBlank hblank]
          rcases ih with ⟨hnil, hrest⟩ | ⟨blanks, c', core, rfl, hblanks, hc', heq⟩
          · exact Or.inl ⟨hnil, List.forall_mem_cons.mpr ⟨hblank, hrest⟩⟩
          · exact Or.inr ⟨c :: blanks, c', core, rfl,
              List.forall_mem_cons.mpr ⟨hblank, hblanks⟩, hc', heq⟩

/-- A text has a single token if that stands between blanks. -/
theorem readAll?_eq_singleton_iff : readAll? cs = some [t] ↔
    ∃ blanks c core after, cs = blanks ++ c :: core ∧ (∀ b ∈ blanks, isBlank b = true) ∧
      isBlank c = false ∧ read? (c :: core) = some (t, after) ∧
        ∀ b ∈ after, isBlank b = true := by
  have hnil {after : List Char} :
      readAll? after = some [] ↔ ∀ b ∈ after, isBlank b = true := by
    constructor
    · intro h
      rcases readAll?_cases after with ⟨-, hblanks⟩ | ⟨_, c, core, -, -, hc, heq⟩
      · exact hblanks
      · rw [heq, readAll?, if_neg (by simp [hc])] at h
        split at h <;> simp at h
    · intro h
      rw [← List.append_nil after, readAll?_blanks_append h, readAll?]
  constructor
  · intro h
    rcases readAll?_cases cs with ⟨hempty, -⟩ | ⟨blanks, c, core, rfl, hblanks, hc, heq⟩
    · simp [hempty] at h
    · rw [heq] at h
      cases hread : read? (c :: core) with
      | none =>
          rw [readAll?, if_neg (by simp [hc])] at h
          split at h <;> simp_all
      | some read =>
          obtain ⟨t', after⟩ := read
          rw [readAll?_of_read? hc hread, Option.map_eq_some_iff] at h
          obtain ⟨ts, hts, hcons⟩ := h
          obtain ⟨rfl, rfl⟩ := List.cons.inj hcons
          exact ⟨blanks, c, core, after, rfl, hblanks, hc, hread, hnil.mp hts⟩
  · rintro ⟨blanks, c, core, after, rfl, hblanks, hc, hread, hafter⟩
    rw [readAll?_blanks_append hblanks, readAll?_of_read? hc hread, hnil.mpr hafter]
    rfl

end ReadAll

end Token

namespace Written

/-- No token leads back to the start. -/
theorem Reading.step_ne_start (r : Reading) (t : Token) : r.step t ≠ some (.value []) := by
  cases r with
  | after w stack =>
      cases stack with
      | nil => simp [step]
      | cons frame stack => cases frame <;> cases t <;> simp [step]
  | value stack | firstItem stack | firstKey stack | nextKey members stack
  | colon members key stack => cases t <;> simp [step, begin]

/-- A number alone is finished by its token, at the start. -/
theorem Reading.step_eq_number {r : Reading} {t : Token} {l : NumberLiteral}
    (h : r.step t = some (.after (.number l) [])) : r = .value [] ∧ t = .number l := by
  cases r with
  | after w stack =>
      cases stack with
      | nil => simp [step] at h
      | cons frame stack => cases frame <;> cases t <;> simp [step] at h
  | value stack | firstItem stack | firstKey stack | nextKey members stack
  | colon members key stack => cases t <;> simp_all [step, begin]

/-- Tokens spell a number exactly if it is the only one of them. -/
theorem ofTokens?_eq_number_iff {tokens : List Token} {l : NumberLiteral} :
    ofTokens? tokens = some (.number l) ↔ tokens = [.number l] := by
  constructor
  · intro h
    obtain ⟨r, hr, hresult⟩ := Option.bind_eq_some_iff.mp h
    have hend : r = .after (.number l) [] := by
      unfold Reading.result? at hresult
      split at hresult <;> simp_all
    subst hend
    rcases List.eq_nil_or_concat tokens with rfl | ⟨front, t, rfl⟩
    · simp [pure] at hr
    · rw [List.concat_eq_append, List.foldlM_append] at hr
      obtain ⟨r, hfront, hlast⟩ := Option.bind_eq_some_iff.mp hr
      obtain ⟨rfl, rfl⟩ := Reading.step_eq_number (r := r) (t := t) (by simpa using hlast)
      rcases List.eq_nil_or_concat front with rfl | ⟨front, t', rfl⟩
      · rfl
      · rw [List.concat_eq_append, List.foldlM_append] at hfront
        obtain ⟨r', -, hstart⟩ := Option.bind_eq_some_iff.mp hfront
        exact absurd (by simpa using hstart) (Reading.step_ne_start r' t')
  · rintro rfl
    rfl

end Written

end DocQuery
