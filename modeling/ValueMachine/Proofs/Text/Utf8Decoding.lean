import ValueMachine.Proofs.Text.ByteOrder

/-!
# Texts read back from their bytes

A character has one to four bytes, and the reader takes exactly these, whatever comes after them.

Results:
* `decodeFrom_encodeChar`: the bytes of a character are read back as the character;
* `decode?_flatMap`, `decodeLossy_encode`: so both readers give back every text;
* `lineFeed_mem_encodeChar`: no other character has the byte of a line feed.
-/

namespace ValueMachine.Text.Utf8

/-! ## Bytes of a character -/

/-- The code points of characters are those of Unicode without the surrogates. -/
theorem codePoint_bounds (c : Char) :
    c.val.toNat < 0xD800 ∨ 0xDFFF < c.val.toNat ∧ c.val.toNat < 0x110000 := c.valid

theorem start_one {v : Nat} (le : v ≤ 0x7F) : start (.ofNat v) = .complete (.ofNat v) := by
  have byte : (UInt8.ofNat v).toNat = v := by simp; omega
  rw [start, byte, if_pos (by omega)]

theorem start_two {v : Nat} (ge : 0x7F < v) (le : v ≤ 0x7FF) :
    start (.ofNat (v / 64 % 32 + 192)) = .pending ⟨1, 0x80, 0xBF, v / 64⟩ := by
  have byte : (UInt8.ofNat (v / 64 % 32 + 192)).toNat = v / 64 + 192 := by simp; omega
  rw [start, byte, if_neg (by omega), if_pos (by simp; omega), Nat.add_sub_cancel]

theorem start_three {v : Nat} (le : v ≤ 0xFFFF) :
    start (.ofNat (v / 4096 % 16 + 224)) =
      .pending ⟨2, if v / 4096 = 0 then 0xA0 else 0x80, if v / 4096 = 13 then 0x9F else 0xBF,
        v / 4096⟩ := by
  have byte : (UInt8.ofNat (v / 4096 % 16 + 224)).toNat = v / 4096 + 224 := by simp; omega
  have lead : (v / 4096 + 224 = 0xE0) = (v / 4096 = 0) := by simp
  have surrogate : (v / 4096 + 224 = 0xED) = (v / 4096 = 13) := by simp
  rw [start, byte, if_neg (by omega), if_neg (by simp), if_pos (by simp; omega),
    Nat.add_sub_cancel]
  simp only [lead, surrogate]

theorem start_four {v : Nat} (ge : 0xFFFF < v) (lt : v < 0x110000) :
    start (.ofNat (v / 262144 % 8 + 240)) =
      .pending ⟨3, if v / 262144 = 0 then 0x90 else 0x80, if v / 262144 = 4 then 0x8F else 0xBF,
        v / 262144⟩ := by
  have byte : (UInt8.ofNat (v / 262144 % 8 + 240)).toNat = v / 262144 + 240 := by simp; omega
  have lead : (v / 262144 + 240 = 0xF0) = (v / 262144 = 0) := by simp
  have last : (v / 262144 + 240 = 0xF4) = (v / 262144 = 4) := by simp
  rw [start, byte, if_neg (by omega), if_neg (by simp), if_neg (by simp), if_pos (by simp; omega),
    Nat.add_sub_cancel]
  simp only [lead, last]

/-- A continuation byte that completes a character. -/
theorem decodeFrom_last {low high bits v : Nat} (ge : low ≤ v % 64 + 128) (le : v % 64 + 128 ≤ high)
    (rest : List UInt8) :
    decodeFrom (some ⟨1, low, high, bits⟩) (.ofNat (v % 64 + 128) :: rest) =
      some (.ofNat (bits * 64 + v % 64)) :: decodeFrom none rest := by
  have byte : (UInt8.ofNat (v % 64 + 128)).toNat = v % 64 + 128 := by simp; omega
  have six : (v % 64 + 128) % 64 = v % 64 := by omega
  rw [decodeFrom]
  simp only [byte, six]
  rw [if_pos ⟨ge, le⟩, if_pos trivial]

/-- A continuation byte after which more are owed. -/
theorem decodeFrom_next (owed v : Nat) {low high bits : Nat} (ge : low ≤ v % 64 + 128)
    (le : v % 64 + 128 ≤ high) (rest : List UInt8) :
    decodeFrom (some ⟨owed + 2, low, high, bits⟩) (.ofNat (v % 64 + 128) :: rest) =
      decodeFrom (some ⟨owed + 1, 0x80, 0xBF, bits * 64 + v % 64⟩) rest := by
  have byte : (UInt8.ofNat (v % 64 + 128)).toNat = v % 64 + 128 := by simp; omega
  have six : (v % 64 + 128) % 64 = v % 64 := by omega
  rw [decodeFrom]
  simp only [byte, six]
  rw [if_pos ⟨ge, le⟩, if_neg (by omega)]
  rfl

/-- The bytes of a character are read back as the character. -/
theorem decodeFrom_encodeChar (c : Char) (rest : List UInt8) :
    decodeFrom none (String.utf8EncodeChar c ++ rest) = some c :: decodeFrom none rest := by
  have bounds := codePoint_bounds c
  have back : Char.ofNat c.val.toNat = c := c.ofNat_toNat
  rw [← congrArg some back, String.utf8EncodeChar]
  generalize c.val.toNat = v at bounds ⊢
  split_ifs with one two three
  · rw [List.singleton_append, decodeFrom, start_one one]
  · rw [List.cons_append, List.singleton_append, decodeFrom, start_two (by omega) two]
    dsimp only
    rw [decodeFrom_last (by omega) (by omega), show v / 64 * 64 + v % 64 = v by omega]
  · rw [List.cons_append, List.cons_append, List.singleton_append, decodeFrom, start_three three]
    dsimp only
    rw [decodeFrom_next 0 (v / 64) (by split <;> omega) (by split <;> omega),
      decodeFrom_last (by omega) (by omega),
      show (v / 4096 * 64 + v / 64 % 64) * 64 + v % 64 = v by omega]
  · rw [List.cons_append, List.cons_append, List.cons_append, List.singleton_append, decodeFrom,
      start_four (by omega) (by omega)]
    dsimp only
    rw [decodeFrom_next 1 (v / 4096) (by split <;> omega) (by split <;> omega),
      decodeFrom_next 0 (v / 64) (by omega) (by omega),
      decodeFrom_last (by omega) (by omega),
      show ((v / 262144 * 64 + v / 4096 % 64) * 64 + v / 64 % 64) * 64 + v % 64 = v by omega]

/-- Only the line feed has the byte of a line feed. -/
theorem lineFeed_mem_encodeChar {c : Char} : 0x0A ∈ String.utf8EncodeChar c ↔ c = '\n' := by
  refine ⟨fun mem => ?_, by rintro rfl; decide⟩
  have bounds := codePoint_bounds c
  refine Char.ext (UInt32.toNat_inj.mp (?_ : c.val.toNat = 10))
  rw [String.utf8EncodeChar] at mem
  generalize c.val.toNat = v at bounds mem ⊢
  split_ifs at mem <;>
    simp only [List.mem_cons, List.not_mem_nil, or_false, ← UInt8.toNat_inj, UInt8.toNat_ofNat',
      UInt8.reduceToNat] at mem <;>
    omega

/-! ## Texts -/

theorem decode_flatMap (text : List Char) :
    decode (text.flatMap String.utf8EncodeChar) = text.map some := by
  induction text with
  | nil => rfl
  | cons c text ih =>
    rw [List.flatMap_cons, decode, decodeFrom_encodeChar, List.map_cons]
    exact congrArg _ ih

theorem mapM_id_map_some {α : Type} (l : List α) : (l.map some).mapM id = some l := by
  induction l with
  | nil => rfl
  | cons a l ih => simp [ih]

theorem decode?_flatMap (text : List Char) :
    decode? (text.flatMap String.utf8EncodeChar) = some (.ofList text) := by
  rw [decode?, decode_flatMap, mapM_id_map_some]
  rfl

/-- What is well-formed is read back as it is, also by the lossy reader. -/
theorem decodeLossy_encode (text : String) : decodeLossy (encode text) = text := by
  rw [decodeLossy, encode_eq, decode_flatMap, List.map_map]
  exact (congrArg String.ofList (List.map_id _)).trans String.ofList_toList

end ValueMachine.Text.Utf8
