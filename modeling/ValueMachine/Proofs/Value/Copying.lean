import Mathlib.Data.Nat.Basic
import ValueMachine.Proofs.Heap.Graph
import ValueMachine.Value.Copies

/-!
# Copying a graph

While a graph is copied, some containers have been noted with a copy that is still being filled. The
invariant `Copying` says what holds of the copies noted so far: they are new cells, one for each
source, and those that are not pending mirror their source. `Extends` says what a step leaves as it
was: cells below a bound, and what has been noted.

Results:
* `perform_copyWithin`: what copying a value does, by what the value is;
* `Copying.note`, `Copying.update`, `Copying.fill`: a copy is noted, written to and finished.
-/

namespace ValueMachine

open Value (CopyM copyWithin putField)

/-- The copies made so far and the heap. -/
abbrev CopyState := Copied × Heap

/-! ## Running -/

/-- Runs a copying computation. -/
def Value.CopyM.perform {α : Type} (x : CopyM α) (config : Config) (s : CopyState) :
    α × CopyState :=
  let ((a, c), h) := ((x.run s.1).run config).run s.2
  (a, c, h)

open Value.CopyM (perform)

theorem perform_bind {α β : Type} (x : CopyM α) (f : α → CopyM β) (config : Config)
    (s : CopyState) :
    perform (x >>= f) config s = perform (f (perform x config s).1) config (perform x config s).2 :=
  rfl

theorem perform_mapM_cons {α β : Type} (f : α → CopyM β) (config : Config) (a : α) (as : List α)
    (s : CopyState) : perform ((a :: as).mapM f) config s =
      let first := perform (f a) config s
      let others := perform (as.mapM f) config first.2
      (first.1 :: others.1, others.2) := by
  rw [List.mapM_cons]; rfl

/-- What copying a value does, by what the value is. -/
theorem perform_copyWithin (config : Config) (depth : Nat) (v : Value) (c : Copied) (h : Heap) :
    perform (copyWithin (depth + 1) v) config (c, h) =
      match c.get? v with
      | some copy => (copy, c, h)
      | none =>
        let copy := .cell h.size
        match h.payload v with
        | .array items =>
          let copied := perform (items.toList.mapM (copyWithin depth)) config
            (c.note v copy, (h.alloc (.ofPayload (.array #[]))).2)
          (copy, copied.2.1, copied.2.2.write copy (.array copied.1.toArray))
        | .object fields =>
          (copy, (perform (fields.toList.forM fun p => do putField copy p.1 (← copyWithin depth p.2))
            config (c.note v copy, (h.alloc (.ofPayload (.object .empty))).2)).2)
        | .extension e => (copy, c, (h.alloc (.ofPayload (.extension e))).2)
        | _ => (v, c, h) := by
  rw [copyWithin, perform_bind]
  show perform (match c.get? v with | some copy => _ | none => _ : CopyM Value) config (c, h) = _
  cases c.get? v with
  | some copy => rfl
  | none =>
    dsimp only
    rw [perform_bind]
    show perform (match h.payload v with
      | .array items => _ | .object fields => _ | .extension e => _ | _ => _ : CopyM Value)
      config (c, h) = _
    cases h.payload v <;> rfl

/-! ## The memo table -/

/-- The number of cells of the source without a copy. -/
def Copied.missing (c : Copied) : Nat := c.copies.countP Option.isNone

theorem missing_start_lt (h : Heap) : (Copied.start h).missing < h.size + 1 := by
  simp [Copied.missing, Copied.start, Array.countP_replicate]

theorem missing_note {c : Copied} {v : Value} (copy : Value) (room : c.admits v = true)
    (new : c.get? v = none) : (c.note v copy).missing + 1 = c.missing := by
  cases v with
  | cell address =>
    have lt : address < c.copies.size := of_decide_eq_true room
    have := Table.countP_setIfInBounds Option.isNone (some copy) none lt
    rw [show c.copies.getD address none = none from new] at this
    simpa [Copied.missing, Copied.note] using this
  | _ => cases room

/-! ## The invariant -/

/-- What stands for a value among the copies: the copy of a container, a new cell with the content
of an object that has a payload of its own, and all else itself. -/
inductive Stands (source : Heap) (s : CopyState) : Value → Value → Prop
  | container {u w : Value} (is : (source.payload u).isContainer = true)
    (copied : s.1.get? u = some w) : Stands source s u w
  | extension {u : Value} {e : Extension} {address : Nat} (is : source.payload u = .extension e)
    (fresh : source.size ≤ address) (lt : address < s.2.size)
    (eq : s.2.payload (.cell address) = .extension e) : Stands source s u (.cell address)
  | leaf {u : Value} (notContainer : (source.payload u).isContainer = false)
    (notExtension : ∀ e, source.payload u ≠ .extension e) : Stands source s u u

structure Copying (source : Heap) (pending : List Value) (s : CopyState) : Prop where
  room : s.1.copies.size = source.size
  size_le : source.size ≤ s.2.size
  frame {address : Nat} : address < source.size →
    s.2.cell (.cell address) = source.cell (.cell address)
  container {u w : Value} : s.1.get? u = some w → (source.payload u).isContainer = true
  fresh {u w : Value} : s.1.get? u = some w →
    ∃ address, w = .cell address ∧ source.size ≤ address ∧ address < s.2.size
  injective {u u' w : Value} : s.1.get? u = some w → s.1.get? u' = some w → u = u'
  /-- A copy that is not pending has all its elements. -/
  filled {u w : Value} : s.1.get? u = some w → u ∉ pending →
    Mirrors (Stands source s) (source.payload u) (s.2.payload w)

/-- What is kept from one state to a later one; cells below the bound do not change. -/
structure Extends (bound : Nat) (s s' : CopyState) : Prop where
  copied {u w : Value} : s.1.get? u = some w → s'.1.get? u = some w
  size_le : s.2.size ≤ s'.2.size
  frame {address : Nat} : address < bound → s'.2.cell (.cell address) = s.2.cell (.cell address)
  missing_le : s'.1.missing ≤ s.1.missing

namespace Extends

theorem refl (bound : Nat) (s : CopyState) : Extends bound s s :=
  ⟨fun h => h, le_rfl, fun _ => rfl, le_rfl⟩

theorem trans {bound bound' : Nat} {s s' s'' : CopyState} (h : Extends bound s s')
    (h' : Extends bound' s' s'') (le : bound ≤ bound') : Extends bound s s'' :=
  ⟨fun hu => h'.copied (h.copied hu), Nat.le_trans h.size_le h'.size_le,
    fun lt => (h'.frame (by omega)).trans (h.frame lt), Nat.le_trans h'.missing_le h.missing_le⟩

theorem payload_eq {bound : Nat} {s s' : CopyState} (h : Extends bound s s') {address : Nat}
    (lt : address < bound) : s'.2.payload (.cell address) = s.2.payload (.cell address) :=
  congrArg Cell.payload (h.frame lt)

theorem mono {bound bound' : Nat} {s s' : CopyState} (h : Extends bound s s')
    (le : bound' ≤ bound) : Extends bound' s s' :=
  ⟨h.copied, h.size_le, fun lt => h.frame (by omega), h.missing_le⟩

end Extends

theorem Stands.mono {source : Heap} {s s' : CopyState} (ext : Extends s.2.size s s') {u w : Value}
    (h : Stands source s u w) : Stands source s' u w := by
  cases h with
  | container is copied => exact .container is (ext.copied copied)
  | extension is fresh lt eq =>
    exact .extension is fresh (Nat.lt_of_lt_of_le lt ext.size_le) ((ext.payload_eq lt).trans eq)
  | leaf notContainer notExtension => exact .leaf notContainer notExtension

theorem extends_alloc (s : CopyState) (c : Cell) :
    Extends s.2.size s (s.1, (s.2.alloc c).2) := by
  refine ⟨fun h => h, ?_, fun lt => s.2.cell_alloc_of_lt c lt, le_rfl⟩
  rw [Heap.size_alloc]; omega

theorem extends_update (s : CopyState) (address : Nat) (change : Payload → Payload) :
    Extends address s (s.1, s.2.update (.cell address) change) := by
  refine ⟨fun h => h, Nat.le_of_eq (Heap.size_update _ _ _).symm, fun {other} lt => ?_, le_rfl⟩
  have ne : Value.cell other ≠ .cell address := by
    rintro ⟨⟩
    exact absurd lt (lt_irrefl _)
  exact s.2.cell_update_of_ne _ ne

namespace Copying

variable {source : Heap} {pending : List Value} {s : CopyState}

theorem start (source : Heap) : Copying source [] (Copied.start source, source) := by
  have none : ∀ {u w : Value}, (Copied.start source).get? u ≠ some w := by
    intro u w h
    rw [Copied.get?_start] at h; cases h
  exact ⟨by simp [Copied.start], le_rfl, fun _ => rfl, fun h => absurd h none,
    fun h => absurd h none, fun h => absurd h none, fun h => absurd h none⟩

/-- A value of the source still has the payload that it had. -/
theorem payload_eq (h : Copying source pending s) {v : Value} (named : source.names v = true) :
    s.2.payload v = source.payload v := by
  cases v with
  | cell address => exact congrArg Cell.payload (h.frame (of_decide_eq_true named))
  | _ => rfl

/-- A new cell changes nothing. -/
theorem alloc (h : Copying source pending s) (c : Cell) :
    Copying source pending (s.1, (s.2.alloc c).2) := by
  have ext := extends_alloc s c
  refine ⟨h.room, Nat.le_trans h.size_le ext.size_le, fun lt => ?_, h.container, fun hu => ?_,
    h.injective, fun hu not => ?_⟩
  · exact (ext.frame (Nat.lt_of_lt_of_le lt h.size_le)).trans (h.frame lt)
  · obtain ⟨address, rfl, le, lt⟩ := h.fresh hu
    exact ⟨address, rfl, le, Nat.lt_of_lt_of_le lt ext.size_le⟩
  · obtain ⟨address, rfl, _, lt⟩ := h.fresh hu
    rw [ext.payload_eq lt]
    exact (h.filled hu not).mono fun _ _ stands => stands.mono ext

theorem admits (h : Copying source pending s) {v : Value}
    (is : (source.payload v).isContainer = true) : s.1.admits v = true := by
  obtain ⟨address, rfl, lt⟩ := Heap.holds_of_isContainer is
  exact decide_eq_true (h.room ▸ lt)

/-- A container without a copy is noted with a new cell, which is pending from then on. -/
theorem note (h : Copying source pending s) {v : Value}
    (is : (source.payload v).isContainer = true) (new : s.1.get? v = none) (c : Cell) :
    Copying source (v :: pending) (s.1.note v (.cell s.2.size), (s.2.alloc c).2) ∧
      Extends s.2.size s (s.1.note v (.cell s.2.size), (s.2.alloc c).2) ∧
      (s.1.note v (.cell s.2.size)).get? v = some (.cell s.2.size) ∧
      (s.1.note v (.cell s.2.size)).missing < s.1.missing := by
  have room := h.admits is
  have opened := h.alloc c
  have read := s.1.get?_note (.cell s.2.size) room
  have ext : Extends s.2.size s (s.1.note v (.cell s.2.size), (s.2.alloc c).2) := by
    refine ⟨fun {u w} hu => ?_, (extends_alloc s c).size_le, (extends_alloc s c).frame, ?_⟩
    · have ne : u ≠ v := by
        rintro rfl
        rw [new] at hu; cases hu
      exact (read u).trans (if_neg ne ▸ hu)
    · have := missing_note (.cell s.2.size) room new
      show (s.1.note v (.cell s.2.size)).missing ≤ s.1.missing
      omega
  have inside : s.2.size < (s.2.alloc c).2.size := by rw [Heap.size_alloc]; omega
  refine ⟨⟨?_, opened.size_le, opened.frame, ?_, ?_, ?_, ?_⟩, ext, by rw [read, if_pos rfl],
    by have := missing_note (.cell s.2.size) room new; omega⟩
  · rw [← h.room]
    cases v <;> simp [Copied.note]
  · intro u w hu
    rw [read] at hu
    split at hu
    · next eq => exact eq ▸ is
    · exact h.container hu
  · intro u w hu
    rw [read] at hu
    split at hu
    · cases hu
      exact ⟨s.2.size, rfl, h.size_le, inside⟩
    · exact opened.fresh hu
  · intro u u' w hu hu'
    -- the new cell is no copy that was noted before
    have other : ∀ {u}, s.1.get? u ≠ some (.cell s.2.size) := by
      intro u hu
      obtain ⟨address, eq, _, lt⟩ := h.fresh hu
      cases eq
      exact absurd lt (lt_irrefl _)
    rw [read] at hu hu'
    split at hu <;> split at hu'
    · next eq eq' => rw [eq, eq']
    · cases hu; exact absurd hu' other
    · cases hu'; exact absurd hu other
    · exact h.injective hu hu'
  · intro u w hu not
    rw [List.mem_cons, not_or] at not
    rw [read, if_neg not.1] at hu
    obtain ⟨address, rfl, _, lt⟩ := h.fresh hu
    rw [ext.payload_eq lt]
    exact (h.filled hu not.2).mono fun _ _ stands => stands.mono ext

/-! ### Writing to a copy -/

/-- Writing to a cell that holds no extension object leaves what stands for a value. -/
theorem stands_update {address : Nat}
    (notExtension : ∀ e, s.2.payload (.cell address) ≠ .extension e)
    (change : Payload → Payload) {u w : Value} (h : Stands source s u w) :
    Stands source (s.1, s.2.update (.cell address) change) u w := by
  cases h with
  | container is copied => exact .container is copied
  | @extension e other is fresh lt eq =>
    have ne : Value.cell other ≠ .cell address := by
      rintro ⟨⟩
      exact notExtension e eq
    refine .extension is fresh (by rw [Heap.size_update]; exact lt) ?_
    exact (Heap.payload_update_of_ne _ _ ne).trans eq
  | leaf notContainer notExtension => exact .leaf notContainer notExtension

/-- A copy that is pending may be written to. -/
theorem update (h : Copying source pending s) {v : Value} {address : Nat} (mem : v ∈ pending)
    (copied : s.1.get? v = some (.cell address))
    (notExtension : ∀ e, s.2.payload (.cell address) ≠ .extension e) (change : Payload → Payload) :
    Copying source pending (s.1, s.2.update (.cell address) change) := by
  have size : (s.2.update (.cell address) change).size = s.2.size := Heap.size_update _ _ _
  obtain ⟨_, eq, le, _⟩ := h.fresh copied
  cases eq
  refine ⟨h.room, size ▸ h.size_le, fun {other} lt => ?_, h.container, fun hu => ?_, h.injective,
    fun {u w} hu not => ?_⟩
  · have ne : Value.cell other ≠ .cell address := by
      rintro ⟨⟩
      omega
    rw [Heap.cell_update_of_ne _ _ ne, h.frame lt]
  · obtain ⟨other, rfl, le, lt⟩ := h.fresh hu
    exact ⟨other, rfl, le, size ▸ lt⟩
  · have ne : w ≠ .cell address := by
      rintro rfl
      exact not (h.injective hu copied ▸ mem)
    rw [show (s.2.update (.cell address) change).payload w = s.2.payload w from
      Heap.payload_update_of_ne _ _ ne]
    exact (h.filled hu not).mono fun _ _ => stands_update notExtension change

/-- A pending copy that mirrors its source is no longer pending. -/
theorem fill {v copy : Value} (h : Copying source (v :: pending) s)
    (copied : s.1.get? v = some copy)
    (mirrors : Mirrors (Stands source s) (source.payload v) (s.2.payload copy)) :
    Copying source pending s := by
  refine ⟨h.room, h.size_le, h.frame, h.container, h.fresh, h.injective, fun {u w} hu not => ?_⟩
  by_cases eq : u = v
  · subst eq
    rw [copied, Option.some.injEq] at hu
    rw [← hu]; exact mirrors
  · exact h.filled hu fun mem => (List.mem_cons.mp mem).elim eq not

end Copying

end ValueMachine
