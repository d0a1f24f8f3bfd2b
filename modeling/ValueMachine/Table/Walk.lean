import ValueMachine.Table.Hashed

/-!
# Walking the slots

The searches of a hashed table are loops without a bound: they go from slot to slot until they meet
the key or an empty slot. `Walks` and `Settles` are these loops, `probe` and `firstEmpty` run them
with fuel, and as long as one slot is empty the fuel is enough.

Results:
* `walks_probe`, `settles_firstEmpty`: a table with an empty slot lets every loop end, with the
  answer of the bounded search;
* `Walks.answers`, `Settles.isVacant`: what a loop that has ended has found.
-/

namespace ValueMachine.Table

/-- Whether a slot holds a position. -/
def Slot.isFull : Slot → Bool
  | full _ => true
  | _ => false

theorem Slot.position?_eq_none {slot : Slot} : slot.position? = none ↔ slot.isFull = false := by
  cases slot <;> simp [position?, isFull]

theorem Slot.ne_empty_of_position? {slot : Slot} {index : Nat} (h : slot.position? = some index) :
    slot ≠ .empty := by
  rintro rfl
  cases h

namespace Hashed

variable {α : Type}

/-- The loop of a search for a key, from a slot on and with the first tombstone met so far. -/
inductive Walks (t : Hashed α) (key : String) : Nat → Option Nat → Lookup → Prop
  | empty {slot : Nat} {tombstone : Option Nat} (h : t.slots.getD slot .empty = .empty) :
    Walks t key slot tombstone (.vacant (tombstone.getD slot))
  | tombstone {slot : Nat} {tombstone : Option Nat} {answer : Lookup}
    (h : t.slots.getD slot .empty = .tombstone)
    (onward : Walks t key (next t.slots.size slot) (tombstone.or (some slot)) answer) :
    Walks t key slot tombstone answer
  | found {slot index : Nat} {tombstone : Option Nat} {entry : Entry α}
    (h : (t.slots.getD slot .empty).position? = some index)
    (held : t.entries.getD index none = some entry) (eq : entry.key = key) :
    Walks t key slot tombstone (.found slot index)
  | other {slot index : Nat} {tombstone : Option Nat} {answer : Lookup}
    (h : (t.slots.getD slot .empty).position? = some index)
    (ne : ∀ entry, t.entries.getD index none = some entry → entry.key ≠ key)
    (onward : Walks t key (next t.slots.size slot) tombstone answer) :
    Walks t key slot tombstone answer

/-- The loop that looks for an empty slot, from a slot on. -/
inductive Settles (slots : Array Slot) : Nat → Nat → Prop
  | empty {slot : Nat} (h : slots.getD slot .empty = .empty) : Settles slots slot slot
  | taken {slot answer : Nat} (h : slots.getD slot .empty ≠ .empty)
    (onward : Settles slots (next slots.size slot) answer) : Settles slots slot answer

/-! ## The loops end -/

theorem next_add (capacity slot steps : Nat) :
    (next capacity slot + steps) % capacity = (slot + (steps + 1)) % capacity := by
  rw [next, Nat.mod_add_mod, Nat.add_assoc, Nat.add_comm 1 steps]

theorem next_mod (capacity start steps : Nat) :
    next capacity ((start + steps) % capacity) = (start + (steps + 1)) % capacity := by
  rw [next, Nat.mod_add_mod, Nat.add_assoc]

theorem next_lt {capacity : Nat} (pos : 0 < capacity) (slot : Nat) :
    next capacity slot < capacity := Nat.mod_lt _ pos

/-- Every slot is found within one round. -/
theorem exists_steps {capacity start slot : Nat} (hstart : start < capacity)
    (hslot : slot < capacity) : ∃ steps < capacity, (start + steps) % capacity = slot := by
  rcases Nat.le_total start slot with le | le
  · refine ⟨slot - start, by omega, ?_⟩
    rw [Nat.add_sub_cancel' le, Nat.mod_eq_of_lt hslot]
  · rcases Nat.eq_or_lt_of_le le with rfl | lt
    · exact ⟨0, by omega, Nat.mod_eq_of_lt hslot⟩
    · refine ⟨slot + capacity - start, by omega, ?_⟩
      rw [Nat.add_sub_cancel' (by omega), Nat.add_mod_right, Nat.mod_eq_of_lt hslot]

theorem walks_of_lt_fuel (t : Hashed α) (key : String) :
    ∀ (fuel steps slot : Nat) (tombstone : Option Nat), steps < fuel → slot < t.slots.size →
      t.slots.getD ((slot + steps) % t.slots.size) .empty = .empty →
      Walks t key slot tombstone (t.probe key fuel slot tombstone) := by
  intro fuel
  induction fuel with
  | zero => intro steps slot tombstone hsteps; omega
  | succ fuel ih =>
    intro steps slot tombstone hsteps hslot hempty
    have pos : 0 < t.slots.size := by omega
    -- the empty slot is one step closer from the next slot on
    have onward : ∀ tombstone, t.slots.getD slot .empty ≠ .empty →
        Walks t key (next t.slots.size slot) tombstone
          (t.probe key fuel (next t.slots.size slot) tombstone) := by
      intro tombstone ne
      cases steps with
      | zero => rw [Nat.add_zero, Nat.mod_eq_of_lt hslot] at hempty; exact absurd hempty ne
      | succ steps =>
        refine ih steps _ tombstone (by omega) (next_lt pos slot) ?_
        rw [next_add]; exact hempty
    rw [probe]
    cases hs : t.slots.getD slot .empty with
    | empty => exact .empty hs
    | tombstone => exact .tombstone hs (onward _ (by rw [hs]; simp))
    | full position =>
      have onward := onward tombstone (by rw [hs]; simp)
      have held : (t.slots.getD slot .empty).position? = some position.toNat := by rw [hs]; rfl
      dsimp only
      cases he : t.entries.getD position.toNat none with
      | none => exact .other held (by rw [he]; simp) onward
      | some entry =>
        dsimp only
        split
        · next eq => exact .found held he eq
        · next ne =>
          refine .other held ?_ onward
          intro entry' he'
          rw [he, Option.some.injEq] at he'
          rw [← he']; exact ne

/-- With an empty slot, the search for any key ends, and with the answer of `lookup`. -/
theorem walks_probe {t : Hashed α} {slot : Nat} (hslot : slot < t.slots.size)
    (hempty : t.slots.getD slot .empty = .empty) (key : String) :
    Walks t key (home t.slots.size key) none (t.lookup key) := by
  have pos : 0 < t.slots.size := by omega
  have hhome : home t.slots.size key < t.slots.size := Nat.mod_lt _ pos
  obtain ⟨steps, hsteps, rfl⟩ := exists_steps hhome hslot
  exact walks_of_lt_fuel t key _ steps _ none hsteps hhome hempty

theorem settles_of_lt_fuel (slots : Array Slot) :
    ∀ (fuel steps slot : Nat), steps < fuel → slot < slots.size →
      slots.getD ((slot + steps) % slots.size) .empty = .empty →
      Settles slots slot (firstEmpty slots fuel slot) := by
  intro fuel
  induction fuel with
  | zero => intro steps slot hsteps; omega
  | succ fuel ih =>
    intro steps slot hsteps hslot hempty
    rw [firstEmpty]
    by_cases h : slots.getD slot .empty = .empty
    · rw [if_pos h]; exact .empty h
    · rw [if_neg h]
      refine .taken h ?_
      cases steps with
      | zero => rw [Nat.add_zero, Nat.mod_eq_of_lt hslot] at hempty; exact absurd hempty h
      | succ steps =>
        refine ih steps _ (by omega) (next_lt (by omega) slot) ?_
        rw [next_add]; exact hempty

/-- With an empty slot, the search for one ends. -/
theorem settles_firstEmpty {slots : Array Slot} {slot start : Nat} (hslot : slot < slots.size)
    (hempty : slots.getD slot .empty = .empty) (hstart : start < slots.size) :
    Settles slots start (firstEmpty slots slots.size start) := by
  obtain ⟨steps, hsteps, rfl⟩ := exists_steps hstart hslot
  exact settles_of_lt_fuel slots _ steps _ hsteps hstart hempty

/-! ## What a loop has found -/

/-- None of the first `steps` slots from `start` on is empty. -/
def Unbroken (slots : Array Slot) (start steps : Nat) : Prop :=
  ∀ i < steps, slots.getD ((start + i) % slots.size) .empty ≠ .empty

theorem Unbroken.succ {slots : Array Slot} {start steps : Nat} (h : Unbroken slots start steps)
    (ne : slots.getD ((start + steps) % slots.size) .empty ≠ .empty) :
    Unbroken slots start (steps + 1) := by
  intro i hi
  rcases Nat.lt_succ_iff_lt_or_eq.mp hi with lt | rfl
  · exact h i lt
  · exact ne

/-- A slot that a walk from `start` on comes to without an empty slot before it. -/
def Reaches (slots : Array Slot) (start slot : Nat) : Prop :=
  ∃ steps, slot = (start + steps) % slots.size ∧ Unbroken slots start steps

/-- A slot on the way of a search at which a position can be put. -/
structure IsVacant (slots : Array Slot) (start slot : Nat) : Prop where
  reaches : Reaches slots start slot
  notFull : (slots.getD slot .empty).position? = none

/-- No slot on the way of a search holds the key. -/
def Misses (t : Hashed α) (key : String) : Prop :=
  ∀ {slot index : Nat} {entry : Entry α}, Reaches t.slots (home t.slots.size key) slot →
    (t.slots.getD slot .empty).position? = some index → t.entries.getD index none = some entry →
    entry.key ≠ key

/-- What the answer of a search says about the table. -/
def Answers (t : Hashed α) (key : String) : Lookup → Prop
  | .found slot index => (t.slots.getD slot .empty).position? = some index ∧
      ∃ entry, t.entries.getD index none = some entry ∧ entry.key = key
  | .vacant slot => IsVacant t.slots (home t.slots.size key) slot ∧ t.Misses key

theorem Walks.answers_from {t : Hashed α} {key : String} {slot : Nat} {tombstone : Option Nat}
    {answer : Lookup} (walks : Walks t key slot tombstone answer) :
    ∀ steps, slot = (home t.slots.size key + steps) % t.slots.size →
      Unbroken t.slots (home t.slots.size key) steps →
      (∀ i < steps, ∀ index entry,
        (t.slots.getD ((home t.slots.size key + i) % t.slots.size) .empty).position? = some index →
        t.entries.getD index none = some entry → entry.key ≠ key) →
      (∀ s ∈ tombstone, IsVacant t.slots (home t.slots.size key) s) →
      Answers t key answer := by
  -- the state of the loop: where it stands, that nothing on its way was empty or held the key,
  -- and that a remembered tombstone is a vacant slot of the same way
  induction walks with
  | @empty slot tombstone h =>
    rintro steps rfl unbroken missed vacant
    refine ⟨?_, ?_⟩
    · cases tombstone with
      | none => exact ⟨⟨steps, rfl, unbroken⟩, by rw [Option.getD_none, h]; rfl⟩
      | some s => exact vacant s rfl
    · rintro slot index entry ⟨i, rfl, hi⟩ full held
      rcases Nat.lt_trichotomy i steps with lt | rfl | gt
      · exact missed i lt index entry full held
      · rw [h] at full; cases full
      · exact absurd h (hi steps gt)
  | @tombstone slot tombstone answer h _ ih =>
    rintro steps rfl unbroken missed vacant
    refine ih (steps + 1) ?_ (unbroken.succ (by rw [h]; simp)) ?_ ?_
    · exact next_mod _ _ _
    · intro i hi index entry full
      rcases Nat.lt_succ_iff_lt_or_eq.mp hi with lt | rfl
      · exact missed i lt index entry full
      · rw [h] at full; cases full
    · intro s hs
      cases tombstone with
      | none =>
        cases hs
        exact ⟨⟨steps, rfl, unbroken⟩, by rw [h]; rfl⟩
      | some s' => exact vacant s hs
  | @found slot index tombstone entry h held eq =>
    intro _ _ _ _ _
    exact ⟨h, entry, held, eq⟩
  | @other slot index tombstone answer h ne _ ih =>
    rintro steps rfl unbroken missed vacant
    refine ih (steps + 1) ?_ (unbroken.succ (Slot.ne_empty_of_position? h)) ?_ vacant
    · exact next_mod _ _ _
    · intro i hi index' entry full held
      rcases Nat.lt_succ_iff_lt_or_eq.mp hi with lt | rfl
      · exact missed i lt index' entry full held
      · rw [h] at full
        cases full
        exact ne entry held

/-- A search that has ended is right about the table. -/
theorem Walks.answers {t : Hashed α} {key : String} {answer : Lookup}
    (walks : Walks t key (home t.slots.size key) none answer) : Answers t key answer := by
  refine walks.answers_from 0 ?_ (fun i hi => absurd hi (Nat.not_lt_zero i))
    (fun i hi => absurd hi (Nat.not_lt_zero i)) (fun s hs => by cases hs)
  rw [home, Nat.add_zero, Nat.mod_mod]

theorem Settles.reaches_from {slots : Array Slot} {start slot answer : Nat}
    (settles : Settles slots slot answer) :
    ∀ steps, slot = (start + steps) % slots.size → Unbroken slots start steps →
      Reaches slots start answer ∧ slots.getD answer .empty = .empty := by
  induction settles with
  | empty h =>
    intro steps eq unbroken
    exact ⟨⟨steps, eq, unbroken⟩, h⟩
  | taken h _ ih =>
    rintro steps rfl unbroken
    exact ih (steps + 1) (next_mod _ _ _) (unbroken.succ h)

/-- The search for an empty slot ends at a vacant one. -/
theorem Settles.isVacant {slots : Array Slot} {start answer : Nat} (hstart : start < slots.size)
    (settles : Settles slots start answer) : IsVacant slots start answer := by
  have eq : start = (start + 0) % slots.size := by rw [Nat.add_zero, Nat.mod_eq_of_lt hstart]
  obtain ⟨reaches, empty⟩ := settles.reaches_from 0 eq fun i hi => absurd hi (Nat.not_lt_zero i)
  exact ⟨reaches, by rw [empty]; rfl⟩

end Hashed

end ValueMachine.Table
