import Mathlib.Data.Option.Basic
import ValueMachine.Proofs.Heap.Graph

/-!
# Heaps that look the same

A path leads from a value into its graph. Two heaps are twins along a relation of handles if related
handles hold the same and lead to related handles, one to one. Then no path tells them apart, and they
stay twins when related cells are written alike.

Results:
* `Twins.at?`, `Twins.view`: what is seen along paths;
* `Twins.toNumber`: a key or a scalar is the same number in both;
* `Twins.write`: what writing keeps.
-/

namespace ValueMachine

/-! ## Paths -/

/-- What is selected in a container: an element by its position or a field by its name. -/
inductive Selector where
  | position (i : Nat)
  | field (name : String)
  deriving DecidableEq

namespace Payload

def at? (p : Payload) : Selector → Option Value
  | .position i => p.array?.bind (·[i]?)
  | .field name => p.object?.bind (·.get? name)

/-- The payload of what holds no handles and cannot be written. -/
def leaf? : Payload → Option Payload
  | array _ | object _ | extension _ => none
  | p => some p

theorem eq_of_leaf? {p q : Payload} (eq : p.leaf? = some q) : p = q := by
  cases p <;> cases eq <;> rfl

theorem of_leaf?_eq_none {p : Payload} (node : p.leaf? = none) :
    (∃ items, p = .array items) ∨ (∃ fields, p = .object fields) ∨ ∃ e, p = .extension e := by
  cases p with
  | array items => exact .inl ⟨items, rfl⟩
  | object fields => exact .inr (.inl ⟨fields, rfl⟩)
  | extension e => exact .inr (.inr ⟨e, rfl⟩)
  | _ => cases node

/-- What is neither a container nor an object with a payload of its own is a leaf. -/
theorem isLeaf_of {p : Payload} (notContainer : p.isContainer = false)
    (notExtension : ∀ e, p ≠ .extension e) : p.leaf?.isSome = true := by
  cases p with
  | array | object => cases notContainer
  | extension e => exact absurd rfl (notExtension e)
  | _ => rfl

theorem object?_of_leaf {p : Payload} (is : p.leaf?.isSome = true) : p.object? = none := by
  cases p <;> first | rfl | cases is

theorem at?_of_leaf {p : Payload} (is : p.leaf?.isSome = true) (selector : Selector) :
    p.at? selector = none := by
  cases p <;> cases selector <;> first | rfl | cases is

end Payload

/-- What is seen of a value without going further: the size of an array, the names in an object, the
content of an object with a payload of its own, and every other handle itself with its payload. -/
inductive View where
  | array (size : Nat)
  | object (names : List String)
  | extension (e : Extension)
  | leaf (v : Value) (p : Payload)

namespace Heap

/-- What a path leads to. -/
def at? (h : Heap) : List Selector → Value → Option Value
  | [], v => some v
  | selector :: path, v => ((h.payload v).at? selector).bind (h.at? path)

def view (h : Heap) (v : Value) : View :=
  match h.payload v with
  | .array items => .array items.size
  | .object fields => .object (fields.toList.map Prod.fst)
  | .extension e => .extension e
  | p => .leaf v p

/-- A value that holds no handles and cannot be written. -/
def IsLeaf (h : Heap) (v : Value) : Prop := (h.payload v).leaf?.isSome = true

theorem holds_of_leaf? {h : Heap} {v : Value} (node : (h.payload v).leaf? = none) :
    h.holds v = true := by
  cases v with
  | cell address =>
    refine decide_eq_true (holds_of_payload_ne rfl fun none => ?_)
    rw [none] at node
    cases node
  | _ => cases node

/-- Writing what is no leaf to what is no leaf changes no leaf. -/
theorem leaf?_write {h : Heap} {u : Value} (node : (h.payload u).leaf? = none) {q : Payload}
    (node' : q.leaf? = none) (v : Value) : ((h.write u q).payload v).leaf? = (h.payload v).leaf? := by
  by_cases eq : v = u
  · rw [eq, write, h.payload_update_self _ (holds_of_leaf? node), node', node]
  · rw [write, h.payload_update_of_ne _ eq]

end Heap

/-! ## Corresponding containers -/

theorem rel_getElem? {α β : Type} {R : α → β → Prop} {l : List α} {l' : List β}
    (related : List.Forall₂ R l l') (i : Nat) : Option.Rel R l[i]? l'[i]? := by
  induction related generalizing i with
  | nil => exact .none
  | cons first _ ih =>
    cases i with
    | zero => exact .some first
    | succ i => exact ih i

theorem rel_lookup {R : Value → Value → Prop} {l l' : List (String × Value)}
    (related : List.Forall₂ (fun p p' => p.1 = p'.1 ∧ R p.2 p'.2) l l') (name : String) :
    Option.Rel R (l.lookup name) (l'.lookup name) := by
  induction related with
  | nil => exact .none
  | @cons p p' l l' first _ ih =>
    rw [List.lookup_cons, List.lookup_cons, first.1]
    cases name == p'.1
    · exact ih
    · exact .some first.2

theorem Mirrors.at? {R : Value → Value → Prop} {p p' : Payload} (mirrors : Mirrors R p p')
    (selector : Selector) : Option.Rel R (p.at? selector) (p'.at? selector) := by
  cases mirrors with
  | @array items items' elements =>
    cases selector with
    | position i =>
      have related := rel_getElem? elements i
      rwa [Array.getElem?_toList, Array.getElem?_toList] at related
    | field name => exact .none
  | @object fields fields' elements =>
    cases selector with
    | position i => exact .none
    | field name =>
      have related := rel_lookup elements name
      rwa [← Table.get?_eq, ← Table.get?_eq] at related

/-! ## Twins -/

/-- Containers whose elements correspond, or the same object with a payload of its own. -/
inductive Resembles (R : Value → Value → Prop) : Payload → Payload → Prop
  | container {p p' : Payload} (mirrors : Mirrors R p p') : Resembles R p p'
  | extension (e : Extension) : Resembles R (.extension e) (.extension e)

/-- What two related handles hold: they are the same leaf, or what can be written resembles. -/
inductive Agrees (R : Value → Value → Prop) (h h' : Heap) : Value → Value → Prop
  | node {u w : Value} {p p' : Payload} (eq : h.payload u = p) (eq' : h'.payload w = p')
    (resembles : Resembles R p p') : Agrees R h h' u w
  | leaf {u : Value} (is : h.IsLeaf u) : Agrees R h h' u u

/-- The heaps are twins along the relation. In the second one, only cells from `bound` on are related
as anything but leaves. -/
structure Twins (R : Value → Value → Prop) (bound : Nat) (h h' : Heap) : Prop where
  size : h'.size = h.size
  outside : h'.outside = h.outside
  leaf? (v : Value) : (h'.payload v).leaf? = (h.payload v).leaf?
  agrees {u w : Value} : R u w → Agrees R h h' u w
  oneToOne {u w u' w' : Value} : R u w → R u' w' → (u = u' ↔ w = w')
  new {u w : Value} : R u w → h.IsLeaf u ∨ ∃ address, w = .cell address ∧ bound ≤ address
  leaf {v : Value} : h.IsLeaf v → R v v

theorem Resembles.at? {R : Value → Value → Prop} {p p' : Payload} (resembles : Resembles R p p')
    (selector : Selector) : Option.Rel R (p.at? selector) (p'.at? selector) := by
  cases resembles with
  | container mirrors => exact mirrors.at? selector
  | extension e => cases selector <;> exact .none

theorem Resembles.leaf? {R : Value → Value → Prop} {p p' : Payload} (resembles : Resembles R p p') :
    p.leaf? = none ∧ p'.leaf? = none := by
  cases resembles with
  | container mirrors => cases mirrors <;> exact ⟨rfl, rfl⟩
  | extension e => exact ⟨rfl, rfl⟩

/-- A leaf is related to nothing but itself. -/
theorem Agrees.eq_of_isLeaf {R : Value → Value → Prop} {h h' : Heap} {u w : Value}
    (agrees : Agrees R h h' u w) (is : h.IsLeaf u ∨ h'.IsLeaf w) : u = w := by
  cases agrees with
  | node eq eq' resembles =>
    obtain ⟨none, none'⟩ := resembles.leaf?
    rw [Heap.IsLeaf, Heap.IsLeaf, eq, eq', none, none'] at is
    simp at is
  | leaf => rfl

namespace Twins

variable {R : Value → Value → Prop} {bound : Nat} {h h' : Heap}

/-! ### Reading -/

/-- What does not depend on more than leaves is read alike. -/
theorem read {α : Type} (twins : Twins R bound h h') {f : Payload → α} (other : α)
    (reads : ∀ p, f p = p.leaf?.elim other f) (v : Value) : f (h'.payload v) = f (h.payload v) := by
  rw [reads, twins.leaf? v, ← reads]

/-- A handle is a leaf with one payload in both heaps, or a leaf in neither. -/
theorem payload_eq_or (twins : Twins R bound h h') (v : Value) : h'.payload v = h.payload v ∨
    (h.payload v).leaf? = none ∧ (h'.payload v).leaf? = none := by
  have same := twins.leaf? v
  cases leaf : (h.payload v).leaf? with
  | none => exact .inr ⟨rfl, same.trans leaf⟩
  | some p =>
    refine .inl ?_
    rw [Payload.eq_of_leaf? leaf, Payload.eq_of_leaf? (same.trans leaf)]

/-- A leaf holds the same in both heaps. -/
theorem payload_eq (twins : Twins R bound h h') {v : Value} (is : h.IsLeaf v) :
    h'.payload v = h.payload v := by
  refine (twins.payload_eq_or v).resolve_right fun node => ?_
  rw [Heap.IsLeaf, node.1] at is
  cases is

theorem payload_eq_iff (twins : Twins R bound h h') {v : Value} {p : Payload} (is : p.leaf? = some p) :
    h'.payload v = p ↔ h.payload v = p := by
  constructor <;> intro eq <;> rw [← eq] at is
  · exact (Payload.eq_of_leaf? ((twins.leaf? v).symm.trans is)).trans eq
  · exact (Payload.eq_of_leaf? ((twins.leaf? v).trans is)).trans eq

/-- The same path leads to related values, or nowhere in both. -/
theorem at? (twins : Twins R bound h h') (path : List Selector) : ∀ {u w : Value}, R u w →
    Option.Rel R (h.at? path u) (h'.at? path w) := by
  induction path with
  | nil => exact fun related => .some related
  | cons selector path ih =>
    intro u w related
    have step : Option.Rel R ((h.payload u).at? selector) ((h'.payload w).at? selector) := by
      cases twins.agrees related with
      | node eq eq' resembles =>
        rw [eq, eq']
        exact resembles.at? selector
      | leaf is =>
        rw [twins.payload_eq is, Payload.at?_of_leaf is]
        exact .none
    rw [Heap.at?, Heap.at?]
    generalize (h.payload u).at? selector = part, (h'.payload w).at? selector = part' at step
    cases step with
    | none => exact .none
    | some related' => exact ih related'

theorem view (twins : Twins R bound h h') {u w : Value} (related : R u w) :
    h'.view w = h.view u := by
  rw [Heap.view, Heap.view]
  cases twins.agrees related with
  | node eq eq' resembles =>
    rw [eq, eq']
    cases resembles with
    | container mirrors =>
      cases mirrors with
      | array elements =>
        have length := elements.length_eq
        rw [Array.length_toList, Array.length_toList] at length
        exact congrArg View.array length.symm
      | object elements => exact congrArg View.object (map_fst_of_forall₂ elements).symm
    | extension e => rfl
  | leaf is => rw [twins.payload_eq is]

/-- What is seen at the end of a path is the same. -/
theorem view_at? (twins : Twins R bound h h') (path : List Selector) {u w : Value}
    (related : R u w) : (h'.at? path w).map h'.view = (h.at? path u).map h.view := by
  have ends := twins.at? path related
  generalize h.at? path u = a, h'.at? path w = a' at ends
  cases ends with
  | none => rfl
  | some related' => exact congrArg some (twins.view related')

/-- Two paths lead to one value in both heaps or in neither. -/
theorem at?_eq_iff (twins : Twins R bound h h') (path path' : List Selector) {u w : Value}
    (related : R u w) : h'.at? path w = h'.at? path' w ↔ h.at? path u = h.at? path' u := by
  have ends := twins.at? path related
  have ends' := twins.at? path' related
  generalize h.at? path u = a, h'.at? path w = a' at ends
  generalize h.at? path' u = b, h'.at? path' w = b' at ends'
  cases ends with
  | none => cases ends' <;> simp
  | some related =>
    cases ends' with
    | none => simp
    | some related' =>
      rw [Option.some_inj, Option.some_inj]
      exact (twins.oneToOne related related').symm

/-! ### Writing -/

/-- Writing related cells alike keeps the heaps twins, and the cells of the second one that are
related as leaves. -/
theorem write (twins : Twins R bound h h') {u w : Value} (related : R u w) {p p' q q' : Payload}
    (eq : h.payload u = p) (eq' : h'.payload w = p') (before : Resembles R p p')
    (after : Resembles R q q') : Twins R bound (h.write u q) (h'.write w q') ∧
      ∀ address < bound, (h'.write w q').cell (.cell address) = h'.cell (.cell address) := by
  have node : (h.payload u).leaf? = none := eq ▸ before.leaf?.1
  have node' : (h'.payload w).leaf? = none := eq' ▸ before.leaf?.2
  have written := h.payload_update_self (fun _ => q) (Heap.holds_of_leaf? node)
  have written' := h'.payload_update_self (fun _ => q') (Heap.holds_of_leaf? node')
  have leaf (v : Value) : ((h.write u q).payload v).leaf? = (h.payload v).leaf? :=
    Heap.leaf?_write node after.leaf?.1 v
  have leaf' (v : Value) : ((h'.write w q').payload v).leaf? = (h'.payload v).leaf? :=
    Heap.leaf?_write node' after.leaf?.2 v
  have isLeaf {v : Value} : (h.write u q).IsLeaf v ↔ h.IsLeaf v := by
    rw [Heap.IsLeaf, Heap.IsLeaf, leaf]
  refine ⟨⟨?_, ?_, fun v => ?_, fun {u' w'} related' => ?_,
    twins.oneToOne, fun related' => ?_,
    fun is => twins.leaf (isLeaf.mp is)⟩, ?_⟩
  · exact (Heap.size_update _ _ _).trans (twins.size.trans (Heap.size_update _ _ _).symm)
  · rw [Heap.write, Heap.write, Heap.outside_update, Heap.outside_update, twins.outside]
  · rw [leaf, leaf', twins.leaf? v]
  · by_cases same : u' = u
    · obtain rfl := same
      obtain rfl := (twins.oneToOne related' related).mp rfl
      exact .node written written' after
    · have other : w' ≠ w := fun eq => same ((twins.oneToOne related' related).mpr eq)
      cases twins.agrees related' with
      | node eq₂ eq₂' resembles =>
        exact .node ((h.payload_update_of_ne _ same).trans eq₂)
          ((h'.payload_update_of_ne _ other).trans eq₂') resembles
      | leaf is => exact .leaf (isLeaf.mpr is)
  · exact (twins.new related').imp_left isLeaf.mpr
  · intro address lt
    have notLeaf : ¬h.IsLeaf u := by
      rw [Heap.IsLeaf, node]
      exact Bool.false_ne_true
    obtain ⟨other, rfl, le⟩ := (twins.new related).resolve_left notLeaf
    have ne : Value.cell address ≠ .cell other := by
      rintro ⟨⟩
      omega
    exact h'.cell_write_of_ne q' ne

end Twins

end ValueMachine
