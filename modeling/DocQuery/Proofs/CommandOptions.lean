import DocQuery.CommandLine.Options
import DocQuery.Proofs.Literals

/-!
# Sort and limit from the command line

A sort and a limit are texts that become loosely typed JSON and are read again.  The
name of a field may contain anything, colons too, since the direction has none and the
last colon counts (`splitLastColon?_append`).  A direction is a JSON number or a word,
and the words are no numbers, whatever case their letters have
(`ofJson_directionJson`).  A limit is read only from the decimal text of a number
(`limit_ofJson_optionsJson`).  So both reach a query as they were meant, and neither
depends on the other (`options_as_meant`).
-/

namespace DocQuery

/-! ## Letters in either case -/

/-- A character in small letters is the character, or the small form of a capital. -/
theorem toLower_cases (c : Char) :
    c.toLower = c ∨ 65 ≤ c.toNat ∧ c.toNat ≤ 90 ∧ c.toLower.toNat = c.toNat + 32 := by
  have hshift : ('a'.val - 'A'.val).toNat = 32 := rfl
  unfold Char.toLower
  split
  · next h =>
      obtain ⟨hlow, hhigh⟩ := h
      have hlow : 65 ≤ c.val.toNat := UInt32.le_iff_toNat_le.mp hlow
      have hhigh : c.val.toNat ≤ 90 := UInt32.le_iff_toNat_le.mp hhigh
      refine Or.inr ⟨hlow, hhigh, ?_⟩
      simp only [Char.toNat, UInt32.toNat_add, hshift]
      omega
  · exact Or.inl rfl

/-- What stays without letters when capitals are made small has had none before. -/
theorem eq_of_map_toLower {word small : String} (h : word.map Char.toLower = small)
    (hsmall : small.toList.all (fun c => c.toNat < 97) = true) : word = small := by
  have hsame : ∀ c ∈ word.toList, c.toLower = id c := by
    intro c hc
    rcases toLower_cases c with heq | ⟨hlow, -, hshift⟩
    · exact heq
    · have hmem : c.toLower ∈ small.toList := by
        rw [← h, String.toList_map]
        exact List.mem_map_of_mem hc
      have hbelow : c.toLower.toNat < 97 := of_decide_eq_true (List.all_eq_true.mp hsmall _ hmem)
      omega
  rw [← h, ← String.toList_inj, String.toList_map, List.map_congr_left hsame, List.map_id]

/-- A word that begins with a letter is no JSON number. -/
theorem Json.parse?_ne_number_of_letter {word : String} {c : Char} {cs : List Char}
    (h : (word.map Char.toLower).toList = c :: cs) (hletter : 97 ≤ c.toNat ∧ c.toNat ≤ 122)
    (num : Number) : parse? word ≠ some (.number num) := by
  rw [String.toList_map, List.map_eq_cons_iff] at h
  obtain ⟨first, rest, hword, rfl, -⟩ := h
  have hfirst : 65 ≤ first.toNat := by
    rcases toLower_cases first with heq | ⟨hlow, -, -⟩
    · rw [heq] at hletter
      omega
    · exact hlow
  rw [← String.ofList_toList (s := word), hword]
  refine parse?_ne_number rest (Bool.eq_false_iff.mpr fun hblank => ?_) ?_ ?_ num
  · rcases Token.eq_of_isBlank hblank with rfl | rfl | rfl | rfl <;> exact absurd hfirst (by decide)
  · rintro rfl
    exact absurd hfirst (by decide)
  · exact Bool.eq_false_iff.mpr fun hdigit => by
      have := toNat_of_isDigit hdigit
      omega

/-! ## Directions -/

/-- The direction that a word after a field names, its letters in either case. -/
def Direction.named? (word : String) : Option Direction :=
  match word.map Char.toLower with
  | "asc" | "1" => some .ascending
  | "desc" | "-1" => some .descending
  | _ => none

/-- A word that names a direction is one of four, in small letters. -/
theorem Direction.named?_cases {word : String} {direction : Direction}
    (h : Direction.named? word = some direction) :
    (word.map Char.toLower = "asc" ∨ word.map Char.toLower = "1") ∧ direction = .ascending ∨
      (word.map Char.toLower = "desc" ∨ word.map Char.toLower = "-1") ∧
        direction = .descending := by
  unfold Direction.named? at h
  split at h <;> simp_all

namespace Arguments

/-- A direction reaches a sort as it is named. -/
theorem ofJson_directionJson {word : String} {direction : Direction}
    (h : Direction.named? word = some direction) :
    Direction.ofJson (directionJson word) = direction := by
  have hword {c : Char} {cs : List Char} (hletters : (word.map Char.toLower).toList = c :: cs)
      (hc : 97 ≤ c.toNat ∧ c.toNat ≤ 122) : directionJson word = .string word := by
    unfold directionJson
    split
    · next num hnum => exact absurd hnum (Json.parse?_ne_number_of_letter hletters hc num)
    · rfl
  -- `asc` and `desc` reach the sort as words, the others as numbers
  rcases Direction.named?_cases h with ⟨hasc | hone, rfl⟩ | ⟨hdesc | hminus, rfl⟩
  · rw [hword (by rw [hasc]; rfl) (by decide), Direction.ofJson, hasc]
    rfl
  · rw [eq_of_map_toLower hone (by decide)]
    decide +kernel
  · rw [hword (by rw [hdesc]; rfl) (by decide), Direction.ofJson, hdesc]
    rfl
  · rw [eq_of_map_toLower hminus (by decide)]
    decide +kernel

/-- The words for a direction have no colon in them. -/
theorem notMem_of_named? {word : String} {direction : Direction}
    (h : Direction.named? word = some direction) : ':' ∉ word.toList := by
  intro hmem
  have hmem : ':' ∈ (word.map Char.toLower).toList := by
    rw [String.toList_map]
    exact List.mem_map.mpr ⟨':', hmem, rfl⟩
  rcases Direction.named?_cases h with ⟨heq | heq, -⟩ | ⟨heq | heq, -⟩
  all_goals exact absurd (heq ▸ hmem) (by decide)

/-! ## Fields -/

theorem splitLastColon?_eq_none {cs : List Char} (h : ':' ∉ cs) : splitLastColon? cs = none := by
  induction cs with
  | nil => rfl
  | cons c rest ih =>
      rw [List.mem_cons, not_or] at h
      rw [splitLastColon?, ih h.2]
      exact if_neg (Ne.symm h.1)

/-- The last colon is the one that no other follows. -/
theorem splitLastColon?_append (before : List Char) {after : List Char} (h : ':' ∉ after) :
    splitLastColon? (before ++ ':' :: after) = some (before, after) := by
  induction before with
  | nil => rw [List.nil_append, splitLastColon?, splitLastColon?_eq_none h]; rfl
  | cons c rest ih => rw [List.cons_append, splitLastColon?, ih]

/-- A sort is split at the colon in front of the direction. -/
theorem sortParts_append {field word : String} (hfield : field ≠ "") (hword : ':' ∉ word.toList) :
    sortParts (field ++ ":" ++ word) = (field, word) := by
  have htext : (field ++ ":" ++ word).toList = field.toList ++ ':' :: word.toList := by simp
  obtain ⟨c, rest, hcons⟩ := List.exists_cons_of_ne_nil (mt String.toList_eq_nil_iff.mp hfield)
  rw [sortParts, htext, splitLastColon?_append _ hword, hcons]
  simp only [← hcons, String.ofList_toList]

/-- A sort without a colon is the name of a field. -/
theorem sortParts_bare {field : String} (h : ':' ∉ field.toList) :
    sortParts field = (field, "asc") := by
  rw [sortParts, splitLastColon?_eq_none h]

/-! ## Options -/

theorem sort_ofJson_optionsJson (a : Arguments) : (Options.ofJson a.optionsJson).sort =
    a.sort.map fun sort => ⟨(sortParts sort).1, .ofJson (directionJson (sortParts sort).2)⟩ := by
  obtain ⟨-, -, -, sort, limit, -⟩ := a
  cases sort <;> cases limit <;> rfl

/-- **A limit is the decimal text of a number**, between blanks. -/
theorem limit_ofJson_optionsJson {a : Arguments} {n : Nat} :
    (Options.ofJson a.optionsJson).limit = some n ↔
      ∃ text, a.limit = some text ∧ Json.SpellsNat text n ∧ n < 0x10000000000000000 := by
  have hlookup : a.optionsJson.get? "limit" = a.limit.map limitJson := by
    obtain ⟨-, -, -, sort, limit, -⟩ := a
    cases sort <;> cases limit <;> rfl
  rw [Options.ofJson, Options.limitOf?, hlookup]
  cases a.limit with
  | none => simp
  | some text =>
      simp only [Option.map_some, Option.some.injEq, exists_eq_left', ← Json.parse?_toNat?_iff,
        limitJson]
      cases Json.parse? text with
      | none => simp
      | some v => cases v <;> simp

/-- **Options are as meant.**  A field that is not empty, a colon and a direction ask for
a sort by exactly that field in that direction; a field without a colon asks for an
ascending one.  The decimal text of a number below 2⁶⁴ asks for that limit, and any
other text asks for none, unless it differs from such a text by blanks around it only.
And neither of sort and limit changes the other. -/
theorem options_as_meant (a : Arguments) :
    (∀ field word direction, field ≠ "" → Direction.named? word = some direction →
      a.sort = some (field ++ ":" ++ word) →
        (Options.ofJson a.optionsJson).sort = some ⟨field, direction⟩) ∧
    (∀ field : String, ':' ∉ field.toList → a.sort = some field →
      (Options.ofJson a.optionsJson).sort = some ⟨field, .ascending⟩) ∧
    (∀ n : Nat, n < 0x10000000000000000 → a.limit = some (toString n) →
      (Options.ofJson a.optionsJson).limit = some n) ∧
    (∀ n, (Options.ofJson a.optionsJson).limit = some n ↔
      ∃ text, a.limit = some text ∧ Json.SpellsNat text n ∧ n < 0x10000000000000000) ∧
    (∀ limit, (Options.ofJson { a with limit := limit }.optionsJson).sort =
      (Options.ofJson a.optionsJson).sort) ∧
    ∀ sort, (Options.ofJson { a with sort := sort }.optionsJson).limit =
      (Options.ofJson a.optionsJson).limit := by
  refine ⟨?_, ?_, ?_, ?_, ?_, ?_⟩
  · intro field word direction hfield hword hsort
    rw [sort_ofJson_optionsJson, hsort, Option.map_some,
      sortParts_append hfield (notMem_of_named? hword), ofJson_directionJson hword]
  · intro field hcolon hsort
    have hasc : Direction.ofJson (directionJson "asc") = .ascending :=
      ofJson_directionJson (by decide +kernel)
    rw [sort_ofJson_optionsJson, hsort, Option.map_some, sortParts_bare hcolon, hasc]
  · intro n hlt hlimit
    have htext : (toString n).toList = [] ++ Nat.toDigits 10 n ++ [] := by
      simp [Nat.toList_repr]
    exact limit_ofJson_optionsJson.mpr ⟨toString n, hlimit, ⟨[], [], htext, by simp, by simp⟩, hlt⟩
  · intro n
    exact limit_ofJson_optionsJson
  · intro limit
    rw [sort_ofJson_optionsJson, sort_ofJson_optionsJson]
  · intro sort
    refine Option.ext fun n => ?_
    rw [limit_ofJson_optionsJson, limit_ofJson_optionsJson]

/-- The last of two colons counts, and the largest limit there is is read. -/
theorem options_as_meant_colons :
    let a : Arguments := ⟨"data.json", none, none, some "a:b:dEsc",
      some "18446744073709551615", []⟩
    (Options.ofJson a.optionsJson).sort = some ⟨"a:b", .descending⟩ ∧
      (Options.ofJson a.optionsJson).limit = some 18446744073709551615 := by
  obtain ⟨hsort, -, hlimit, -⟩ := options_as_meant ⟨"data.json", none, none, some "a:b:dEsc",
    some "18446744073709551615", []⟩
  exact ⟨hsort "a:b" "dEsc" .descending (by decide) (by decide +kernel) (by decide +kernel),
    hlimit _ (by decide) (by decide +kernel)⟩

/-- A limit with a sign, a fraction or an exponent, between quotes or out of range is none. -/
example :
    ["-1", "-0", "1.0", "1e2", "\"5\"", "18446744073709551616", "05", ""].map (fun text =>
      (Options.ofJson (optionsJson ⟨"data.json", none, none, none, some text, []⟩)).limit) =
        List.replicate 8 none := by
  decide +kernel

end Arguments

end DocQuery
