import Mathlib.Data.List.Forall2
import ValueMachine.Proofs.Table.Listing
import ValueMachine.Heap

/-!
# Graphs of values

Arrays and objects lead to their elements, and boxes to their content. What is reached from a value
along such edges is its graph; which edges count is a parameter.

Results:
* `Heap.Grows.payload_eq`: what holds anything goes on holding it in a later heap;
* `Heap.Reaches.names`: in a closed heap everything that is reached has a cell;
* `Mirrors.exists_copy`, `Mirrors.exists_source`: elements of corresponding containers.
-/

namespace ValueMachine

namespace Payload

def isContainer : Payload → Bool
  | array _ => true
  | object _ => true
  | _ => false

/-- The elements of an array, the values of an object. -/
def elements : Payload → List Value
  | array items => items.toList
  | object fields => fields.toList.map Prod.snd
  | _ => []

/-- The elements, or the content of a box. -/
def parts : Payload → List Value
  | box content => [content]
  | p => p.elements

theorem eq_of_array? {p : Payload} {items : Array Value} (is : p.array? = some items) :
    p = .array items := by
  cases p <;> simp_all [array?]

theorem eq_of_object? {p : Payload} {fields : Table Value} (is : p.object? = some fields) :
    p = .object fields := by
  cases p <;> simp_all [object?]

theorem isContainer_of_mem {p : Payload} {v : Value} (mem : v ∈ p.elements) :
    p.isContainer = true := by
  cases p <;> first | rfl | cases mem

end Payload

namespace Heap

/-- Whether a handle is a constant or has a cell. -/
def names (h : Heap) : Value → Bool
  | .cell address => address < h.size
  | _ => true

/-- What is reached from a value along edges. -/
inductive Reaches (h : Heap) (edges : Payload → List Value) (root : Value) : Value → Prop
  | root : Reaches h edges root root
  | edge {u v : Value} (reached : Reaches h edges root u) (mem : v ∈ edges (h.payload u)) :
    Reaches h edges root v

/-- No array, object or box holds a handle without a cell. -/
def IsClosed (h : Heap) : Prop := ∀ c ∈ h.cells, ∀ v ∈ c.payload.parts, h.names v = true

variable {h : Heap} {edges : Payload → List Value}

/-- What is reached from an element is reached from the container. -/
theorem Reaches.of_edge {u v w : Value} (mem : v ∈ edges (h.payload u))
    (reached : h.Reaches edges v w) : h.Reaches edges u w := by
  induction reached with
  | root => exact .edge .root mem
  | edge _ mem' ih => exact .edge ih mem'

/-- A list of values that leads to no others has all that is reached from one of them. -/
theorem Reaches.mem_of_closed {root u : Value} {values : List Value} (mem : root ∈ values)
    (closed : ∀ u ∈ values, ∀ v ∈ edges (h.payload u), v ∈ values)
    (reached : h.Reaches edges root u) : u ∈ values := by
  induction reached with
  | root => exact mem
  | edge _ mem' ih => exact closed _ ih _ mem'

theorem payload_of_size_le {address : Nat} (le : h.size ≤ address) :
    h.payload (.cell address) = .undefined := by
  have le' : h.cells.size ≤ address := le
  simp [payload, cell, Array.getD_eq_getD_getElem?, Array.getElem?_eq_none le', Cell.immortal]

/-- A later heap that has the cells of an earlier one unchanged. -/
structure Grows (h h' : Heap) : Prop where
  size_le : h.size ≤ h'.size
  frame {address : Nat} : address < h.size → h'.cell (.cell address) = h.cell (.cell address)
  dropped_eq : h'.dropped = h.dropped
  outside_eq : h'.outside = h.outside

theorem Grows.refl (h : Heap) : h.Grows h := ⟨Nat.le_refl _, fun _ => rfl, rfl, rfl⟩

theorem Grows.trans {h' h'' : Heap} (grows : h.Grows h') (grows' : h'.Grows h'') : h.Grows h'' where
  size_le := Nat.le_trans grows.size_le grows'.size_le
  frame lt := (grows'.frame (Nat.lt_of_lt_of_le lt grows.size_le)).trans (grows.frame lt)
  dropped_eq := grows'.dropped_eq.trans grows.dropped_eq
  outside_eq := grows'.outside_eq.trans grows.outside_eq

theorem grows_alloc (h : Heap) (c : Cell) : h.Grows (h.alloc c).2 := by
  refine ⟨?_, fun lt => h.cell_alloc_of_lt c lt, rfl, rfl⟩
  rw [size_alloc]; omega

/-- Only a cell of the list has anything in it. -/
theorem holds_of_payload_ne {v : Value} {address : Nat} (eq : v = .cell address)
    (ne : h.payload v ≠ .undefined) : address < h.size := by
  subst eq
  rcases Nat.lt_or_ge address h.size with lt | ge
  · exact lt
  · exact absurd (payload_of_size_le ge) ne

/-- What holds anything goes on holding it. -/
theorem Grows.payload_eq {h' : Heap} (grows : h.Grows h') {v : Value}
    (ne : h.payload v ≠ .undefined) : h'.payload v = h.payload v := by
  cases v with
  | cell address => exact congrArg Cell.payload (grows.frame (holds_of_payload_ne rfl ne))
  | _ => rfl

/-- A container is a cell of the list. -/
theorem holds_of_isContainer {v : Value} (is : (h.payload v).isContainer = true) :
    ∃ address, v = .cell address ∧ address < h.size := by
  cases v with
  | cell address =>
    rcases Nat.lt_or_ge address h.size with lt | ge
    · exact ⟨address, rfl, lt⟩
    · rw [payload_of_size_le ge] at is; cases is
  | _ => cases is

theorem elements_subset_parts (p : Payload) : p.elements ⊆ p.parts := by
  cases p <;> first | exact List.Subset.refl _ | exact List.nil_subset _

theorem names_of_isClosed (closed : h.IsClosed) {u v : Value}
    (mem : v ∈ (h.payload u).parts) : h.names v = true := by
  cases u with
  | cell address =>
    rcases Nat.lt_or_ge address h.size with lt | ge
    · have lt' : address < h.cells.size := lt
      refine closed _ (Array.getElem_mem lt') v ?_
      simpa [payload, cell, Array.getD_eq_getD_getElem?, lt'] using mem
    · rw [payload_of_size_le ge] at mem; cases mem
  | _ => cases mem

/-- In a closed heap everything that is reached from a handle with a cell has one. -/
theorem Reaches.names (closed : h.IsClosed) {root u : Value} (named : h.names root = true)
    (reached : h.Reaches Payload.elements root u) : h.names u = true := by
  cases reached with
  | root => exact named
  | edge _ mem => exact names_of_isClosed closed (elements_subset_parts _ mem)

end Heap

/-! ## Lists side by side -/

/-- An element of a list has a partner in the other list. -/
theorem exists_of_forall₂ {α β : Type} {R : α → β → Prop} {l : List α} {l' : List β}
    (h : List.Forall₂ R l l') {a : α} (mem : a ∈ l) : ∃ b ∈ l', R a b := by
  induction h with
  | nil => cases mem
  | cons related _ ih =>
    rcases List.mem_cons.mp mem with rfl | mem
    · exact ⟨_, List.mem_cons_self, related⟩
    · obtain ⟨b, mem', related'⟩ := ih mem
      exact ⟨b, List.mem_cons_of_mem _ mem', related'⟩

theorem exists_mem_zip {α β : Type} {l : List α} {l' : List β}
    (length : l.length = l'.length) {b : β} (mem : b ∈ l') : ∃ a, (a, b) ∈ l.zip l' := by
  have seconds : (l.zip l').map Prod.snd = l' := List.map_snd_zip (Nat.le_of_eq length.symm)
  rw [← seconds] at mem
  obtain ⟨⟨a, _⟩, pair, rfl⟩ := List.mem_map.mp mem
  exact ⟨a, pair⟩

theorem length_eq_of_fst_eq {α β γ : Type} {l : List (α × β)} {l' : List (α × γ)}
    (names : l.map Prod.fst = l'.map Prod.fst) : l.length = l'.length := by
  have := congrArg List.length names
  rwa [List.length_map, List.length_map] at this

theorem mem_zip_map {α β : Type} {f : α → β} {l : List α} {p : α × β} (mem : p ∈ l.zip (l.map f)) :
    p.1 ∈ l ∧ p.2 = f p.1 := by
  induction l with
  | nil => cases mem
  | cons a l ih =>
    rcases List.mem_cons.mp mem with rfl | mem
    · exact ⟨List.mem_cons_self, rfl⟩
    · exact ⟨List.mem_cons_of_mem a (ih mem).1, (ih mem).2⟩

theorem eq_map_of_zip {α β : Type} {f : α → β} {l : List α} {l' : List β}
    (length : l.length = l'.length) (each : ∀ p ∈ l.zip l', p.2 = f p.1) : l' = l.map f := by
  induction l generalizing l' with
  | nil => exact List.length_eq_zero_iff.mp length.symm
  | cons a l ih =>
    cases l' with
    | nil => cases length
    | cons b l' =>
      have first : b = f a := each (a, b) List.mem_cons_self
      have others := fun p mem => each p (List.mem_cons_of_mem _ mem)
      rw [List.map_cons, first, ih (Nat.succ.inj length) others]

theorem map_fst_of_forall₂ {R : Value → Value → Prop} {l l' : List (String × Value)}
    (h : List.Forall₂ (fun p p' => p.1 = p'.1 ∧ R p.2 p'.2) l l') :
    l.map Prod.fst = l'.map Prod.fst := by
  induction h with
  | nil => rfl
  | cons h _ ih => rw [List.map_cons, List.map_cons, h.1, ih]

theorem fst_eq_of_mem_zip {α β γ : Type} {l : List (α × β)} {l' : List (α × γ)}
    (names : l.map Prod.fst = l'.map Prod.fst) {p : (α × β) × (α × γ)} (mem : p ∈ l.zip l') :
    p.2.1 = p.1.1 := by
  induction l generalizing l' with
  | nil => cases mem
  | cons a l ih =>
    cases l' with
    | nil => cases mem
    | cons b l' =>
      rw [List.map_cons, List.map_cons, List.cons.injEq] at names
      rcases List.mem_cons.mp mem with rfl | mem
      · exact names.1.symm
      · exact ih names.2 mem

/-! ## Containers with corresponding elements -/

/-- The payloads are containers of one form with the same keys, and their elements correspond. -/
inductive Mirrors (R : Value → Value → Prop) : Payload → Payload → Prop
  | array {items items' : Array Value} (elements : List.Forall₂ R items.toList items'.toList) :
    Mirrors R (.array items) (.array items')
  | object {fields fields' : Table Value}
    (elements : List.Forall₂ (fun p p' => p.1 = p'.1 ∧ R p.2 p'.2) fields.toList fields'.toList) :
    Mirrors R (.object fields) (.object fields')

theorem Mirrors.mono {R S : Value → Value → Prop} {p p' : Payload}
    (imp : ∀ u w, R u w → S u w) (h : Mirrors R p p') : Mirrors S p p' := by
  cases h with
  | array elements => exact .array (elements.imp imp)
  | object elements => exact .object (elements.imp fun _ _ h => ⟨h.1, imp _ _ h.2⟩)

theorem forall₂_imp_getElem? {α β : Type} {R S : α → β → Prop} {l : List α} {l' : List β}
    (related : List.Forall₂ R l l')
    (imp : ∀ (i : Nat) (a : α) (b : β), l[i]? = some a → l'[i]? = some b → R a b → S a b) :
    List.Forall₂ S l l' := by
  induction related with
  | nil => exact .nil
  | cons first _ ih =>
    exact .cons (imp 0 _ _ rfl rfl first) (ih fun i a b held held' => imp (i + 1) a b held held')

/-- A relation of elements may depend on where they are held. -/
theorem Mirrors.imp_getElem? {R S : Value → Value → Prop} {p p' : Payload} (h : Mirrors R p p')
    (imp : ∀ (i : Nat) (u w : Value), p.elements[i]? = some u → p'.elements[i]? = some w → R u w →
      S u w) : Mirrors S p p' := by
  cases h with
  | array elements => exact .array (forall₂_imp_getElem? elements imp)
  | object elements =>
    refine .object (forall₂_imp_getElem? elements fun i a b held held' related => ⟨related.1, ?_⟩)
    refine imp i a.2 b.2 ?_ ?_ related.2
    · exact (List.getElem?_map ..).trans (congrArg (Option.map Prod.snd) held)
    · exact (List.getElem?_map ..).trans (congrArg (Option.map Prod.snd) held')

theorem Mirrors.elements {R : Value → Value → Prop} {p p' : Payload} (h : Mirrors R p p') :
    List.Forall₂ R p.elements p'.elements := by
  cases h with
  | array elements => exact elements
  | object elements =>
    rw [Payload.elements, Payload.elements, List.forall₂_map_left_iff, List.forall₂_map_right_iff]
    exact elements.imp fun _ _ h => h.2

theorem Mirrors.exists_copy {R : Value → Value → Prop} {p p' : Payload} (h : Mirrors R p p')
    {u : Value} (mem : u ∈ p.elements) : ∃ w ∈ p'.elements, R u w :=
  exists_of_forall₂ h.elements mem

theorem Mirrors.exists_source {R : Value → Value → Prop} {p p' : Payload} (h : Mirrors R p p')
    {w : Value} (mem : w ∈ p'.elements) : ∃ u ∈ p.elements, R u w :=
  exists_of_forall₂ h.elements.flip mem

theorem Mirrors.isContainer {R : Value → Value → Prop} {p p' : Payload} (h : Mirrors R p p') :
    p'.isContainer = true := by
  cases h <;> rfl

end ValueMachine
