import ValueMachine.Proofs.Text.Occurrences
import ValueMachine.Proofs.Text.Utf8Decoding
import ValueMachine.Text.Offsets

/-!
# Positions and offsets

No character begins with a byte that continues another one. So the bytes of a pattern occur among
those of a text only where its characters do, and a text is never cut inside a character.

Results:
* `occursAt_bytesOf`: where the bytes of a pattern occur;
* `position?_eq_some_iff`, `position?_eq_none_iff`: the position that searching answers;
* `part?_eq`: the part between two positions.
-/

namespace ValueMachine.Text

/-! ## Bytes -/

/-- A byte that continues a character. -/
def IsContinuation (byte : UInt8) : Prop := 0x80 ≤ byte.toNat ∧ byte.toNat < 0xC0

/-- A character has one byte that begins it, and the others continue it. -/
theorem encodeChar_eq_cons (c : Char) : ∃ first others,
    String.utf8EncodeChar c = first :: others ∧ ¬IsContinuation first ∧
      ∀ byte ∈ others, IsContinuation byte := by
  have bounds := Utf8.codePoint_bounds c
  rw [String.utf8EncodeChar]
  generalize c.val.toNat = v at bounds
  have six (n : Nat) : IsContinuation (.ofNat (n % 64 + 128)) := by
    have byte : (UInt8.ofNat (n % 64 + 128)).toNat = n % 64 + 128 := by simp; omega
    constructor <;> omega
  have leads {n : Nat} (le : 192 ≤ n) (lt : n < 256) : ¬IsContinuation (.ofNat n) := by
    have byte : (UInt8.ofNat n).toNat = n := by simp; omega
    rintro ⟨-, below⟩
    omega
  split_ifs with one two three
  · refine ⟨_, _, rfl, ?_, nofun⟩
    have byte : (UInt8.ofNat v).toNat = v := by simp; omega
    rintro ⟨above, -⟩
    omega
  · exact ⟨_, _, rfl, leads (by omega) (by omega), List.forall_mem_singleton.mpr (six v)⟩
  · exact ⟨_, _, rfl, leads (by omega) (by omega),
      List.forall_mem_cons.mpr ⟨six (v / 64), List.forall_mem_singleton.mpr (six v)⟩⟩
  · exact ⟨_, _, rfl, leads (by omega) (by omega),
      List.forall_mem_cons.mpr ⟨six (v / 4096), List.forall_mem_cons.mpr
        ⟨six (v / 64), List.forall_mem_singleton.mpr (six v)⟩⟩⟩

theorem length_bytesOf_cons (c : Char) (text : List Char) :
    (bytesOf (c :: text)).length = c.utf8Size + (bytesOf text).length := by
  rw [bytesOf_cons, List.length_append, String.length_utf8EncodeChar]

/-- A text begins with a pattern as soon as its bytes begin with those of the pattern. -/
theorem prefix_of_bytesOf {pattern text : List Char} (prefixed : bytesOf pattern <+: bytesOf text) :
    pattern <+: text := by
  induction pattern generalizing text with
  | nil => exact List.nil_prefix
  | cons c pattern ih =>
    obtain ⟨after, eq⟩ := prefixed
    rw [bytesOf_cons, List.append_assoc] at eq
    cases text with
    | nil =>
      have empty := (List.append_eq_nil_iff.mp eq).1
      exact absurd empty (Utf8.encodeChar_ne_nil c)
    | cons d text =>
      rw [bytesOf_cons] at eq
      have decoded := congrArg (Utf8.decodeFrom none) eq
      rw [Utf8.decodeFrom_encodeChar, Utf8.decodeFrom_encodeChar] at decoded
      obtain rfl : c = d := Option.some.inj (List.cons.inj decoded).1
      exact List.cons_prefix_cons.mpr ⟨rfl, ih ⟨after, List.append_cancel_left eq⟩⟩

/-- Where the bytes of a pattern stand, its characters stand: no cut is inside a character. -/
theorem exists_of_bytesOf {pattern text : List Char} (some : pattern ≠ []) {before after : List UInt8}
    (eq : bytesOf text = before ++ bytesOf pattern ++ after) :
    ∃ front back, text = front ++ pattern ++ back ∧ before = bytesOf front := by
  obtain ⟨d, pattern', rfl⟩ := List.exists_cons_of_ne_nil some
  obtain ⟨begun, more, starts, begins, -⟩ := encodeChar_eq_cons d
  induction text generalizing before with
  | nil =>
    have empty := congrArg List.length eq
    rw [bytesOf_cons, starts] at empty
    simp [bytesOf] at empty
  | cons c text ih =>
    by_cases none : before = []
    · subst none
      obtain ⟨back, rest⟩ := prefix_of_bytesOf ⟨after, eq.symm⟩
      exact ⟨[], back, rest.symm, rfl⟩
    rw [bytesOf_cons, List.append_assoc] at eq
    obtain ⟨past, rfl, rest⟩ | ⟨inside, cut, rest⟩ := List.append_eq_append_iff.mp eq
    · -- the character ends before the bytes of the pattern
      obtain ⟨front, back, rfl, rfl⟩ := ih (by rw [rest, List.append_assoc])
      exact ⟨c :: front, back, rfl, rfl⟩
    · cases inside with
      | nil =>
        rw [List.append_nil] at cut
        obtain ⟨front, back, rfl, empty⟩ :=
          ih (show bytesOf text = [] ++ bytesOf _ ++ after from rest.symm)
        refine ⟨c :: front, back, rfl, ?_⟩
        rw [bytesOf_cons, ← empty, List.append_nil, cut]
      | cons byte inside =>
        -- the first byte of the pattern would continue the character
        obtain ⟨first, others, whole, -, continues⟩ := encodeChar_eq_cons c
        obtain ⟨first', before, rfl⟩ := List.exists_cons_of_ne_nil none
        rw [whole, List.cons_append] at cut
        rw [bytesOf_cons, starts, List.cons_append, List.cons_append] at rest
        have mem : byte ∈ others := by
          rw [(List.cons.inj cut).2]
          exact List.mem_append_right _ List.mem_cons_self
        rw [← (List.cons.inj rest).1] at mem
        exact absurd (continues _ mem) begins

/-- The bytes of a pattern occur where the pattern does. -/
theorem occursAt_bytesOf {pattern text : List Char} {offset : Nat} (some : pattern ≠ []) :
    OccursAt (bytesOf pattern) (bytesOf text) offset ↔
      ∃ place, OccursAt pattern text place ∧ offset = (bytesOf (text.take place)).length := by
  constructor
  · rintro ⟨before, after, eq, rfl⟩
    obtain ⟨front, back, rfl, rfl⟩ := exists_of_bytesOf some eq
    refine ⟨front.length, ⟨front, back, rfl, rfl⟩, ?_⟩
    rw [List.append_assoc, List.take_left]
  · rintro ⟨_, ⟨front, back, rfl, rfl⟩, rfl⟩
    refine ⟨bytesOf front, bytesOf back, ?_, ?_⟩
    · rw [bytesOf_append, bytesOf_append]
    · rw [List.append_assoc, List.take_left]

/-! ## Cutting -/

/-- A text is cut between two characters. -/
theorem splitAt?_append (front back : List Char) :
    splitAt? (bytesOf front).length (front ++ back) = some (front, back) := by
  induction front with
  | nil =>
    cases back with
    | nil => rfl
    | cons c back => rfl
  | cons c front ih =>
    have pos := c.utf8Size_pos
    rw [length_bytesOf_cons, List.cons_append, splitAt?, if_neg (by omega), if_pos (by omega),
      Nat.add_sub_cancel_left, ih]
    rfl

theorem splitAt?_take {text : List Char} (place : Nat) :
    splitAt? (bytesOf (text.take place)).length text = some (text.take place, text.drop place) := by
  have cut := splitAt?_append (text.take place) (text.drop place)
  rwa [List.take_append_drop] at cut

/-- The offset of a position is the size of what stands before it. -/
theorem getD_offsetOf? (text : List Char) (place : Nat) :
    (offsetOf? place text).getD (byteSize text) = (bytesOf (text.take place)).length := by
  induction text generalizing place with
  | nil => cases place <;> rfl
  | cons c text ih =>
    cases place with
    | zero => rfl
    | succ place =>
      rw [offsetOf?, List.take_succ_cons, length_bytesOf_cons, ← ih]
      cases offsetOf? place text <;> rfl

/-- Every part of a text is there. -/
theorem part?_eq (place : Nat) (count : Int) (text : List Char) :
    part? place count text = some ((text.drop place).take count.toNat) := by
  generalize clamped : (max 0 (min count ((text.length : Int) - place))).toNat = length
  have taken : (text.drop place).take length = (text.drop place).take count.toNat := by
    rw [List.take_eq_take_iff, List.length_drop]
    omega
  have size : (bytesOf (text.take (place + length))).length - (bytesOf (text.take place)).length =
      (bytesOf ((text.drop place).take length)).length := by
    rw [List.take_add, bytesOf_append, List.length_append, Nat.add_sub_cancel_left]
  rw [part?, clamped, getD_offsetOf?, getD_offsetOf?, between?, splitAt?_take, ← taken]
  show (splitAt? (_ - _) (text.drop place)).bind (fun cut => some cut.1) = _
  rw [size, splitAt?_take]
  rfl

/-! ## Searching -/

variable {pattern text : List Char} {place : Nat}

theorem length_bytesOf_take_le {place' : Nat} (le : place ≤ place') :
    (bytesOf (text.take place)).length ≤ (bytesOf (text.take place')).length := by
  obtain ⟨more, rfl⟩ := Nat.exists_eq_add_of_le le
  rw [List.take_add, bytesOf_append, List.length_append]
  exact Nat.le_add_right _ _

/-- The first place of a pattern is also that of its bytes. -/
theorem IsFirst.bytes (first : IsFirst pattern text place) :
    IsFirst (bytesOf pattern) (bytesOf text) (bytesOf (text.take place)).length := by
  by_cases none : pattern = []
  · subst none
    obtain rfl := first.unique (isFirst_zero List.nil_prefix)
    exact isFirst_zero List.nil_prefix
  · refine ⟨(occursAt_bytesOf none).mpr ⟨place, first.occurs, rfl⟩, fun offset lt occurs => ?_⟩
    obtain ⟨earlier, occurs', rfl⟩ := (occursAt_bytesOf none).mp occurs
    refine first.least earlier (Nat.lt_of_not_le fun le => ?_) occurs'
    exact absurd (length_bytesOf_take_le le) (Nat.not_le_of_lt lt)

theorem position?_of_isFirst (first : IsFirst pattern text place) :
    position? pattern text = some place := by
  have le := first.occurs.le
  rw [position?, find?_eq_some_iff.mpr first.bytes, Option.bind_eq_bind, Option.bind_some,
    splitAt?_take]
  show some (text.take place).length = some place
  rw [List.length_take, Nat.min_eq_left (by omega)]

/-- Where no character pattern occurs, its bytes do not occur either. -/
theorem position?_of_absent (absent : ∀ place, ¬OccursAt pattern text place) :
    position? pattern text = none := by
  have some : pattern ≠ [] := by
    rintro rfl
    exact absent 0 (occursAt_zero.mpr List.nil_prefix)
  have none : find? (bytesOf pattern) (bytesOf text) = none := by
    refine find?_eq_none_iff.mpr fun offset occurs => ?_
    obtain ⟨place, occurs', -⟩ := (occursAt_bytesOf some).mp occurs
    exact absent place occurs'
  rw [position?, none]
  rfl

/-- What searching answers is the first position of the pattern. -/
theorem position?_eq_some_iff : position? pattern text = some place ↔ IsFirst pattern text place := by
  refine ⟨fun is => ?_, position?_of_isFirst⟩
  by_cases absent : ∀ place, ¬OccursAt pattern text place
  · rw [position?_of_absent absent] at is
    cases is
  · obtain ⟨somewhere, occurs⟩ := not_forall_not.mp absent
    obtain ⟨first, isFirst⟩ := exists_isFirst occurs
    rw [position?_of_isFirst isFirst, Option.some_inj] at is
    rwa [is] at isFirst

theorem position?_eq_none_iff :
    position? pattern text = none ↔ ∀ place, ¬OccursAt pattern text place := by
  refine ⟨fun none place occurs => ?_, position?_of_absent⟩
  obtain ⟨first, isFirst⟩ := exists_isFirst occurs
  rw [position?_of_isFirst isFirst] at none
  cases none

end ValueMachine.Text
