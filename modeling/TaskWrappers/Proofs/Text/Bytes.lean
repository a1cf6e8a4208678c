import Mathlib.Tactic.SplitIfs

/-!
# The order of bytes

Texts that are in order are in order by their bytes too (`bytes_lt_bytes`): of two characters the
one with the smaller code point has the smaller code, and that is settled within the codes
themselves, whatever follows them (`encode_append_lt`).
-/

namespace TaskWrappers.Text

/-- The bytes of a text. -/
def bytes (s : String) : List UInt8 := s.toUTF8.data.toList

theorem bytes_eq (s : String) : bytes s = s.toList.flatMap String.utf8EncodeChar := by
  have h : s.toUTF8 = s.toList.utf8Encode := by
    conv => lhs; rw [← String.ofList_toList (s := s)]
    rfl
  rw [bytes, h, List.utf8Encode, List.data_toByteArray]

theorem byte_cons_lt {m n : Nat} (hle : m ≤ n) (hn : n < 256) {as bs : List UInt8}
    (h : m = n → as < bs) : UInt8.ofNat m :: as < UInt8.ofNat n :: bs := by
  rw [List.cons_lt_cons_iff]
  rcases Nat.lt_or_eq_of_le hle with hlt | heq
  · refine .inl ?_
    rw [UInt8.lt_iff_toNat_lt, UInt8.toNat_ofNat_of_lt' (Nat.lt_trans hlt hn),
      UInt8.toNat_ofNat_of_lt' hn]
    exact hlt
  · exact .inr ⟨heq ▸ rfl, h heq⟩

theorem encode_append_lt {a b : Char} (h : a < b) (as bs : List UInt8) :
    String.utf8EncodeChar a ++ as < String.utf8EncodeChar b ++ bs := by
  have hlt : a.val.toNat < b.val.toNat := UInt32.lt_iff_toNat_lt.1 h
  have hb : b.val.toNat < 0x110000 := by
    rcases (b.valid : _ ∨ _ ∧ _) with hb | ⟨-, hb⟩
    · exact Nat.lt_trans hb (by decide)
    · exact hb
  unfold String.utf8EncodeChar
  generalize a.val.toNat = m at *
  generalize b.val.toNat = n at *
  dsimp only
  -- a longer code opens with a greater byte; codes of one length differ in their first differing
  -- digit to the base 64, and there is one since the code points differ
  split_ifs <;> simp only [List.cons_append, List.nil_append] <;>
    (repeat refine byte_cons_lt (by omega) (by omega) fun _ => ?_) <;> omega

theorem encode_ne_nil (c : Char) : String.utf8EncodeChar c ≠ [] := by
  intro h
  have hlength := String.length_utf8EncodeChar c
  rw [h] at hlength
  exact absurd hlength (Nat.ne_of_lt c.utf8Size_pos)

theorem flatMap_encode_lt : ∀ {a b : List Char}, a < b →
    a.flatMap String.utf8EncodeChar < b.flatMap String.utf8EncodeChar
  | _, [], h => absurd h (List.not_lt_nil _)
  | [], c :: cs, _ => by
    obtain ⟨b, bs, hc⟩ := List.exists_cons_of_ne_nil (encode_ne_nil c)
    rw [List.flatMap_cons, hc]
    exact List.nil_lt_cons b _
  | d :: ds, c :: cs, h => by
    rw [List.cons_lt_cons_iff] at h
    rw [List.flatMap_cons, List.flatMap_cons]
    rcases h with hlt | ⟨rfl, hlt⟩
    · exact encode_append_lt hlt _ _
    · exact List.append_left_lt (flatMap_encode_lt hlt)

theorem bytes_lt_bytes {s t : String} (h : s < t) : bytes s < bytes t := by
  rw [bytes_eq, bytes_eq]
  exact flatMap_encode_lt h

end TaskWrappers.Text
