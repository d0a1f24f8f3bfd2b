import ValueMachine.Proofs.Number.Signs
import ValueMachine.Proofs.Value.Mutations
import ValueMachine.Value.Limits

/-!
# Elements written and read back

Writing an element of an array and reading one take every value as a key, by the number that it is
seen as. The key is ignored, out of bounds or a position for both alike, so that what was written is
found again.

Results:
* `position?_eq`: the position that a key stands for, by the exact value of its number;
* `isWritten_writeAt`: the elements after a write;
* `setIndex_readsBack`: what a write leaves behind and what is read after it.
-/

namespace ValueMachine

open Number (twoPow)

/-! ## Positions -/

namespace Heap

variable {h : Heap} {key : Value}

/-- The position that a key stands for, by the exact value of its number. -/
theorem position?_eq (h : Heap) (key : Value) : h.position? key =
    match Number.read (h.toNumber key) with
    | .finite negative mantissa exponent =>
      if negative = true ∧ mantissa ≠ 0 then none
      else some (min (twoPow 64 - 1) (Number.Reading.wholePart mantissa exponent))
    | _ => none := by
  have finite := @Number.isFinite_iff (h.toNumber key)
  have negative := Number.lt_zero_iff (h.toNumber key)
  show (if (!(h.toNumber key).isFinite || decide (h.toNumber key < 0.0)) = true then none
    else some (Number.toCount (h.toNumber key))) = _
  cases reading : Number.read (h.toNumber key) with
  | nan =>
    have : (h.toNumber key).isFinite = false := by simpa [reading] using finite
    simp [this]
  | infinite sign =>
    have : (h.toNumber key).isFinite = false := by simpa [reading] using finite
    simp [this]
  | finite sign mantissa exponent =>
    have isFinite : (h.toNumber key).isFinite = true := finite.mpr ⟨_, _, _, reading⟩
    by_cases below : sign = true ∧ mantissa ≠ 0
    · rw [decide_eq_true (negative.mpr (by rw [reading]; exact below)), Bool.or_true]
      exact (if_pos below).symm
    · have notNegative : ¬(Number.read (h.toNumber key)).IsNegative := by rw [reading]; exact below
      rw [isFinite, decide_eq_false (mt negative.mp notNegative),
        Number.toCount_of_finite reading notNegative]
      exact (if_neg below).symm

/-- A number that is a position for indexing is the same place for reading characters. -/
theorem place?_eq {x : Float} {position : Nat} (number : h.payload key = .number x)
    (is : h.position? key = some position) : Value.place? x = some position := by
  have negative := Number.zero_le_iff x
  have opened : (if (!x.isFinite || decide (x < 0.0)) = true then none
      else some (Number.toCount x)) = some position := by
    rw [← is, position?, toNumber_of_number number]
  split at opened
  · cases opened
  · next finite =>
    rw [Bool.not_eq_true, Bool.or_eq_false_iff, Bool.not_eq_false', decide_eq_false_iff_not,
      Number.lt_zero_iff] at finite
    obtain ⟨_, _, _, reading⟩ := Number.isFinite_iff.mp finite.1
    have : 0.0 ≤ x := negative.mpr ⟨by simp [reading], finite.2⟩
    rw [Value.place?, if_pos this, opened]

/-- A handle of an array leads to no other value through boxes, before and after a write to it. -/
theorem follow_write_array {a : Value} {items : Array Value} (array : h.payload a = .array items)
    (after : Array Value) (fuel : Nat) :
    ∀ v, (h.write a (.array after)).follow fuel v = h.follow fuel v := by
  have holds : h.holds a = true := by
    obtain ⟨address, rfl, lt⟩ := holds_of_isContainer (v := a) (by rw [array]; rfl)
    exact decide_eq_true lt
  induction fuel with
  | zero => exact fun v => rfl
  | succ fuel ih =>
    intro v
    unfold follow
    by_cases same : v = a
    · rw [same, array, write, payload_update_self h _ holds]
    · have payload : (h.write a (.array after)).payload v = h.payload v :=
        payload_update_of_ne h _ same
      simp only [payload, ih]

/-- A write to an array changes no number that a value is seen as. -/
theorem toNumber_write_array {a : Value} {items : Array Value} (array : h.payload a = .array items)
    (after : Array Value) (v : Value) : (h.write a (.array after)).toNumber v = h.toNumber v := by
  have holds : h.holds a = true := by
    obtain ⟨address, rfl, lt⟩ := holds_of_isContainer (v := a) (by rw [array]; rfl)
    exact decide_eq_true lt
  have content : (h.write a (.array after)).content v = h.content v := by
    rw [Heap.content, Heap.content, write, size_update, ← write, follow_write_array array]
  rw [toNumber, toNumber, contentPayload, contentPayload, content]
  by_cases same : h.content v = a
  · rw [same, array, write, payload_update_self h _ holds]
  · rw [write, payload_update_of_ne h _ same, outside_update]

end Heap

/-! ## Writing -/

/-- The elements of an array before and after an element was written at a position: the array
reaches at least to the position, and what lies between its old end and the position is undefined. -/
structure IsWritten (items after : Array Value) (position : Nat) (v : Value) : Prop where
  size_eq : after.size = max items.size (position + 1)
  written : after[position]? = some v
  filled {i : Nat} : items.size ≤ i → i < position → after[i]? = some .undefined
  kept {i : Nat} : i < items.size → i ≠ position → after[i]? = items[i]?

theorem isWritten_writeAt (items : Array Value) (position : Nat) (v : Value) :
    IsWritten items (Value.writeAt items position v) position v := by
  rw [Value.writeAt]
  split
  · next inside =>
    refine ⟨?_, ?_, fun le lt => ?_, fun _ ne => ?_⟩
    · rw [Array.size_setIfInBounds]; omega
    · rw [Array.getElem?_setIfInBounds_self_of_lt inside]
    · omega
    · exact Array.getElem?_setIfInBounds_ne ne.symm
  · next outside =>
    have size : (items ++ Array.replicate (position - items.size) Value.undefined).size =
        position := by
      rw [Array.size_append, Array.size_replicate]; omega
    refine ⟨?_, ?_, fun le lt => ?_, fun lt ne => ?_⟩
    · rw [Array.size_push, size]; omega
    · rw [Array.getElem?_push, size, if_pos rfl]
    · rw [Array.getElem?_push, size, if_neg (by omega), Array.getElem?_append_right le,
        Array.getElem?_replicate, if_pos (by omega)]
    · rw [Array.getElem?_push, size, if_neg (by omega), Array.getElem?_append_left lt]

section Elements

variable {config : Config} {h : Heap} {a : Value} {items : Array Value}

theorem holds_of_array (array : h.payload a = .array items) : h.holds a = true := by
  obtain ⟨address, rfl, lt⟩ := Heap.holds_of_isContainer (v := a) (by rw [array]; rfl)
  exact decide_eq_true lt

/-- What writing an element does, by the position that the key stands for. -/
theorem perform_setElement (a : Value) (items : Array Value) (key v : Value) :
    HeapM.perform (Value.setElement a items key v).run config h =
      if (h.toNumber key).isNaN || decide (h.toNumber key < 0.0) then (.ok v, h)
      else match h.position? key with
        | none => (.error ⟨Fault.arrayBounds.status, .null⟩, h)
        | some position =>
          if position < items.size + Value.maxGrowth then
            (.ok v, h.write a (.array (Value.writeAt items position v)))
          else (.error ⟨Fault.arrayBounds.status, .null⟩, h) := by
  have read : HeapM.perform (get : Attempt Heap).run config h = (.ok h, h) := rfl
  rw [Value.setElement, Attempt.bind_ok read]
  dsimp only
  generalize ((h.toNumber key).isNaN || decide (h.toNumber key < 0.0)) = ignored
  cases ignored with
  | true => rfl
  | false =>
    cases h.position? key with
    | none => rfl
    | some position =>
      rw [if_neg Bool.false_ne_true, if_neg Bool.false_ne_true]
      dsimp only
      split <;> rfl

/-- What writing an element does, by the number that the key is seen as. -/
theorem perform_setIndex (array : h.payload a = .array items) (key v : Value) :
    HeapM.perform (Value.setIndex a key v).run config h =
      match Number.read (h.toNumber key) with
      | .nan => (.ok v, h)
      | .infinite negative =>
        if negative then (.ok v, h) else (.error ⟨Fault.arrayBounds.status, .null⟩, h)
      | .finite negative mantissa exponent =>
        let position := min (twoPow 64 - 1) (Number.Reading.wholePart mantissa exponent)
        if negative = true ∧ mantissa ≠ 0 then (.ok v, h)
        else if position < items.size + Value.maxGrowth then
          (.ok v, h.write a (.array (Value.writeAt items position v)))
        else (.error ⟨Fault.arrayBounds.status, .null⟩, h) := by
  have opened : HeapM.perform (Value.setIndex a key v).run config h =
      HeapM.perform (Value.setElement a items key v).run config h := by
    have read : HeapM.perform (get : Attempt Heap).run config h = (.ok h, h) := rfl
    rw [Value.setIndex, Attempt.bind_ok read, array]
  have ignored : ((h.toNumber key).isNaN || decide (h.toNumber key < 0.0)) =
      decide (Number.read (h.toNumber key) = .nan ∨ (Number.read (h.toNumber key)).IsNegative) := by
    rw [Bool.eq_iff_iff, Bool.or_eq_true, decide_eq_true_iff, decide_eq_true_iff,
      Number.isNaN_iff_read, Number.lt_zero_iff]
  rw [opened, perform_setElement, ignored, Heap.position?_eq]
  cases Number.read (h.toNumber key) with
  | nan => rfl
  | infinite negative => cases negative <;> rfl
  | finite negative mantissa exponent =>
    by_cases below : negative = true ∧ mantissa ≠ 0
    · simp [Number.Reading.IsNegative, below]
    · simp [Number.Reading.IsNegative, below]

end Elements

/-! ## Reading back -/

section Reading

variable {m : Machine} {a k v : Value} {items : Array Value} {position : Nat}

/-- The element at the position of a key is found by each of the three ways to read it. -/
theorem reads_element (array : m.heap.payload a = .array items)
    (place : m.heap.position? k = some position) (there : items[position]? = some v)
    (status : m.status = .ok) :
    (settle (Value.index a k)).run.run m = (.ok v, m) ∧
      (settle (Value.indexSafe a k)).run.run m = (.ok v, m) ∧
      ∀ x, m.heap.payload k = .number x → (settle (Value.charAt a k)).run.run m = (.ok v, m) := by
  have element : m.heap.elementAt? a k = some v := by
    rw [Heap.elementAt?, array]
    show (m.heap.position? k).bind (items[·]?) = some v
    rw [place, Option.bind_some, there]
  have same : ({ m with heap := m.heap, status := .ok } : Machine) = m := by rw [← status]
  refine ⟨?_, ?_, fun x number => ?_⟩
  · have found : Attempt.Returns _ (m.heap.elementAt? a k) m.config m.heap := Value.returns_lookup a k
    rw [element] at found
    rw [Value.index, settle_ok found, same]
  · have found : Attempt.Returns _ (m.heap.elementAt? a k) m.config m.heap :=
      Value.returns_indexSafe a k
    rw [element] at found
    rw [settle_ok found, same]
  · have found : Attempt.Returns (Value.charAt a k) _ m.config m.heap := Value.returns_charAt a k
    have finite : Payload.array? (.array items) = some items := rfl
    have content : Payload.number? (.number x) = some x := rfl
    rw [array, number, finite, content, Option.bind_some, Option.bind_some,
      Heap.place?_eq number place, Option.bind_some, there] at found
    rw [settle_ok found, same]

/-- The position of a key is not changed by what is written there. -/
theorem position?_write_array (array : m.heap.payload a = .array items) (after : Array Value)
    (key : Value) : (m.heap.write a (.array after)).position? key = m.heap.position? key := by
  rw [Heap.position?, Heap.position?, Heap.toNumber_write_array array]

/-- Writing an element by a key, and reading it by the same key. Keys that are seen as NaN or as a
negative number are ignored, and those that are too far past the end are refused. Any other is a
position: what is written there, the array itself included, is what is read from there. Every array
is small enough for its positions to have 64 bits. -/
theorem setIndex_readsBack (array : m.heap.payload a = .array items)
    (fits : items.size + twoPow 24 < twoPow 64) (k v : Value) :
    let ignored := (settle (Value.setIndex a k v)).run.run m = (.ok v, { m with status := .ok })
    let refused := (settle (Value.setIndex a k v)).run.run m =
      (.ok .null, { m with status := Fault.arrayBounds.status })
    match Number.read (m.heap.toNumber k) with
    | .nan => ignored
    | .infinite negative => if negative then ignored else refused
    | .finite negative mantissa exponent =>
      let position := Number.Reading.wholePart mantissa exponent
      if negative = true ∧ mantissa ≠ 0 then ignored
      else if items.size + twoPow 24 ≤ position then refused
      else ∃ after, IsWritten items after position v ∧
        let m' := { m with heap := m.heap.write a (.array after), status := .ok }
        (settle (Value.setIndex a k v)).run.run m = (.ok v, m') ∧
          m'.heap.payload a = .array after ∧ m.heap.WritesOnly m'.heap a ∧
          (settle (Value.index a k)).run.run m' = (.ok v, m') ∧
          (settle (Value.indexSafe a k)).run.run m' = (.ok v, m') ∧
          ∀ x, m.heap.payload k = .number x →
            (settle (Value.charAt a k)).run.run m' = (.ok v, m') := by
  have run := settle_eq (Value.setIndex a k v) m
  have place := m.heap.position?_eq k
  rw [perform_setIndex array] at run
  dsimp only
  cases reading : Number.read (m.heap.toNumber k) with
  | nan =>
    rw [reading] at run
    exact run
  | infinite negative =>
    rw [reading] at run
    cases negative with
    | false => exact run
    | true => exact run
  | finite negative mantissa exponent =>
    rw [reading] at run place
    dsimp only at run place ⊢
    generalize Number.Reading.wholePart mantissa exponent = position at run place ⊢
    by_cases below : negative = true ∧ mantissa ≠ 0
    · rw [if_pos below] at run ⊢
      exact run
    rw [if_neg below] at run place ⊢
    by_cases far : items.size + twoPow 24 ≤ position
    · rw [if_neg (by rw [Value.maxGrowth]; omega)] at run
      rw [if_pos far]
      exact run
    have exact : min (twoPow 64 - 1) position = position := by omega
    rw [exact] at place
    rw [exact, if_pos (by rw [Value.maxGrowth]; omega)] at run
    rw [if_neg far]
    have written := isWritten_writeAt items position v
    have payload : (m.heap.write a (.array (Value.writeAt items position v))).payload a =
        .array (Value.writeAt items position v) :=
      m.heap.payload_update_self _ (holds_of_array array)
    obtain ⟨index, indexSafe, charAt⟩ := reads_element (v := v)
      (m := { m with heap := m.heap.write a (.array (Value.writeAt items position v)), status := .ok })
      payload ((position?_write_array array _ k).trans place) written.written rfl
    refine ⟨_, written, run, payload, m.heap.writesOnly_write a _, index, indexSafe,
      fun x number => ?_⟩
    refine charAt x ?_
    rw [← number]
    refine m.heap.payload_update_of_ne _ fun same => ?_
    rw [same, array] at number
    cases number

/-- A machine with an array of one element and with texts to be used as keys. -/
def shelf : Machine :=
  { Machine.start ⟨"linux", "2024-01-01 00:00:00", 0, 0.5⟩ [] with
    heap := .ofCells #[.ofPayload (.array #[.small 7]), .ofPayload (.text false " 3.9kg"),
      .ofPayload (.text false "-.1")] }

/-- An array that is written to its own fourth place by a text; a negative fraction is ignored. -/
theorem setIndex_readsBack_itself :
    shelf.heap.payload (.cell 0) = .array #[.small 7] ∧
      (#[.small 7] : Array Value).size + twoPow 24 < twoPow 64 ∧
      (∃ after, IsWritten #[.small 7] after 3 (.cell 0) ∧
        let m' := { shelf with heap := shelf.heap.write (.cell 0) (.array after), status := .ok }
        (settle (Value.setIndex (.cell 0) (.cell 1) (.cell 0))).run.run shelf = (.ok (.cell 0), m') ∧
          (settle (Value.index (.cell 0) (.cell 1))).run.run m' = (.ok (.cell 0), m')) ∧
      (settle (Value.setIndex (.cell 0) (.cell 2) .null)).run.run shelf =
        (.ok .null, { shelf with status := .ok }) := by
  have array : shelf.heap.payload (.cell 0) = .array #[.small 7] := rfl
  have fits : (#[.small 7] : Array Value).size + twoPow 24 < twoPow 64 := by decide +kernel
  have weight : Number.read (shelf.heap.toNumber (.cell 1)) =
    .finite false 8782019273372467 (-51) := by decide +kernel
  have fraction : Number.read (shelf.heap.toNumber (.cell 2)) =
    .finite true 7205759403792794 (-56) := by decide +kernel
  have whole : Number.Reading.wholePart 8782019273372467 (-51) = 3 := by decide +kernel
  have written := setIndex_readsBack array fits (.cell 1) (.cell 0)
  have ignored := setIndex_readsBack array fits (.cell 2) .null
  rw [weight] at written
  rw [fraction] at ignored
  dsimp only at written ignored
  rw [if_neg (by simp), whole, if_neg (by decide +kernel)] at written
  rw [if_pos (by simp)] at ignored
  obtain ⟨after, elements, run, _, _, index, _⟩ := written
  exact ⟨array, fits, ⟨after, elements, run, index⟩, ignored⟩

end Reading

end ValueMachine
