import Mathlib.Data.String.Basic
import Mathlib.Order.Basic

/-!
# The order of strings and of their bytes

Strings are ordered by their characters.  The bytes of a character begin with one that
grows with the length of the encoding, and within one length the character is spread
over its bytes from its upper bits down, so the bytes of a smaller character are
smaller at the first place where they differ (`utf8EncodeChar_append_lt`).  Hence
strings are ordered as their bytes are (`lt_iff_utf8Bytes_lt`).
-/

namespace DocQuery

/-- The bytes of a string. -/
def utf8Bytes (s : String) : List UInt8 := s.toUTF8.data.toList

/-- The bytes of a string are those of its characters. -/
theorem utf8Bytes_eq (s : String) : utf8Bytes s = s.toList.flatMap String.utf8EncodeChar := by
  rw [utf8Bytes, String.toUTF8_eq_toByteArray, ← String.utf8Encode_toList, List.utf8Encode,
    List.toList_data_toByteArray]

/-- Characters are below 17 planes of 2¹⁶. -/
theorem toNat_val_lt (c : Char) : c.val.toNat < 0x110000 := by
  have h : c.val.toNat < 0xD800 ∨ 0xDFFF < c.val.toNat ∧ c.val.toNat < 0x110000 := c.valid
  omega

/-- **One character.**  The bytes of a smaller character are smaller, whatever follows. -/
theorem utf8EncodeChar_append_lt {c d : Char} (h : c < d) (x y : List UInt8) :
    String.utf8EncodeChar c ++ x < String.utf8EncodeChar d ++ y := by
  have hlt : c.val.toNat < d.val.toNat := h
  have hd := toNat_val_lt d
  have one (k : Nat) (hk : k ≤ 127) : k % 256 = k := by omega
  have two (k : Nat) : (k % 32 + 192) % 256 = k % 32 + 192 := by omega
  have three (k : Nat) : (k % 16 + 224) % 256 = k % 16 + 224 := by omega
  have four (k : Nat) : (k % 8 + 240) % 256 = k % 8 + 240 := by omega
  have tail (k : Nat) : (k % 64 + 128) % 256 = k % 64 + 128 := by omega
  have digits (k : Nat) (hk : k < 0x110000) :
      k / 64 / 64 = k / 4096 ∧ k / 4096 / 64 = k / 262144 ∧ k / 262144 / 8 = 0 := by omega
  rw [String.utf8EncodeChar, String.utf8EncodeChar]
  generalize c.val.toNat = m at *
  generalize d.val.toNat = n at *
  have hm := digits m (by omega)
  have hn := digits n hd
  -- one case for each pair of lengths
  split_ifs <;>
    simp (disch := assumption) only [List.cons_append, List.nil_append, List.cons_lt_cons_iff,
      UInt8.lt_iff_toNat_lt, UInt8.toNat_ofNat', ← UInt8.toNat_inj, Nat.reducePow, one, two,
      three, four, tail] <;>
    omega

/-- Bytes in common in front do not matter. -/
theorem append_lt_append_left_iff {l x y : List UInt8} : l ++ x < l ++ y ↔ x < y := by
  induction l with
  | nil => rfl
  | cons b rest ih => rw [List.cons_append, List.cons_append, List.cons_lt_cons_self, ih]

/-- **Strings are ordered as their bytes are.** -/
theorem lt_iff_utf8Bytes_lt {s t : String} : s < t ↔ utf8Bytes s < utf8Bytes t := by
  rw [String.lt_iff_toList_lt, utf8Bytes_eq, utf8Bytes_eq]
  generalize s.toList = cs
  generalize t.toList = ds
  induction cs generalizing ds with
  | nil =>
      cases ds with
      | nil => simp
      | cons d ds =>
          obtain ⟨b, bs, hb⟩ := List.exists_cons_of_ne_nil (String.utf8EncodeChar_ne_nil (c := d))
          simp [hb]
  | cons c cs ih =>
      cases ds with
      | nil => simp
      | cons d ds =>
          rw [List.flatMap_cons, List.flatMap_cons, List.cons_lt_cons_iff]
          rcases lt_trichotomy c d with h | rfl | h
          · exact iff_of_true (Or.inl h) (utf8EncodeChar_append_lt h _ _)
          · rw [append_lt_append_left_iff, ← ih]
            simp
          · refine iff_of_false ?_ (List.lt_asymm (utf8EncodeChar_append_lt h _ _))
            rintro (h' | ⟨rfl, -⟩)
            · exact lt_asymm h h'
            · exact lt_irrefl c h

end DocQuery
