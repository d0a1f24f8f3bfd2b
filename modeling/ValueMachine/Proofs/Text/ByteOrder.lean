import Mathlib.Data.String.Basic
import ValueMachine.Text.Utf8

/-!
# The order of texts by bytes

Results:
* `Text.Utf8.encode_lt_encode_iff`: texts are ordered as the bytes of their UTF-8 forms are.
-/

/-! ## Byte arrays as lists -/

namespace ByteArray

theorem toList_loop_eq (bytes : ByteArray) (start : Nat) (before : List UInt8) :
    toList.loop bytes start before = before.reverse ++ bytes.data.toList.drop start := by
  fun_induction toList.loop bytes start before with
  | case1 start before lt ih =>
    have lt' : start < bytes.data.toList.length := by simpa using lt
    rw [ih, List.drop_eq_getElem_cons lt']
    simp [ByteArray.get!, lt]
  | case2 start before ge =>
    have ge' : bytes.data.toList.length ≤ start := by simpa using ge
    rw [List.drop_eq_nil_of_le ge', List.append_nil]

theorem toList_eq (bytes : ByteArray) : bytes.toList = bytes.data.toList := by
  rw [toList, toList_loop_eq, List.drop_zero, List.reverse_nil, List.nil_append]

end ByteArray

namespace ValueMachine.Text.Utf8

/-! ## Characters -/

/-- The bytes of characters are ordered as the characters are, whatever comes after them. -/
theorem encodeChar_append_lt {c d : Char} (lt : c < d) (s t : List UInt8) :
    String.utf8EncodeChar c ++ s < String.utf8EncodeChar d ++ t := by
  have lt' : c.val.toNat < d.val.toNat := lt
  have last : d.val.toNat < 0x110000 := by
    have := d.valid
    simp only [UInt32.isValidChar, Nat.isValidChar] at this
    omega
  rw [String.utf8EncodeChar, String.utf8EncodeChar]
  generalize c.val.toNat = a at lt'
  generalize d.val.toNat = b at lt' last
  -- bytes of equal length differ first where the digits do; a longer form has a greater first byte
  split_ifs <;> first
    | omega
    | simp only [List.cons_append, List.nil_append, List.cons_lt_cons_iff, UInt8.lt_iff_toNat_lt,
        ← UInt8.toNat_inj, UInt8.toNat_ofNat']
      simp (disch := omega) only [Nat.mod_eq_of_lt]
      omega

theorem encodeChar_ne_nil (c : Char) : String.utf8EncodeChar c ≠ [] := by
  rw [String.utf8EncodeChar]
  split_ifs <;> exact List.cons_ne_nil _ _

/-! ## Texts -/

theorem flatMap_lt {a b : List Char} (lt : a < b) :
    a.flatMap String.utf8EncodeChar < b.flatMap String.utf8EncodeChar := by
  induction lt with
  | @nil d b =>
    obtain ⟨byte, bytes, eq⟩ := List.exists_cons_of_ne_nil (encodeChar_ne_nil d)
    rw [List.flatMap_nil, List.flatMap_cons, eq]
    exact List.Lex.nil
  | rel lt => exact encodeChar_append_lt lt _ _
  | cons _ ih => exact List.append_left_lt ih

theorem encode_eq (text : String) : encode text = text.toList.flatMap String.utf8EncodeChar := by
  rw [encode, String.toUTF8, ← String.utf8Encode_toList, List.utf8Encode, ByteArray.toList_eq,
    List.toList_data_toByteArray]

/-- Texts are ordered as their bytes are. -/
theorem encode_lt_encode_iff (a b : String) : encode a < encode b ↔ a < b := by
  rw [encode_eq, encode_eq, String.lt_iff_toList_lt]
  refine ⟨fun lt => ?_, flatMap_lt⟩
  rcases lt_trichotomy a.toList b.toList with lt' | eq | gt
  · exact lt'
  · rw [eq] at lt; exact absurd lt (List.lt_irrefl _)
  · exact absurd (flatMap_lt gt) (List.lt_asymm lt)

end ValueMachine.Text.Utf8
