import ValueMachine.Call
import ValueMachine.Value.Coercion

/-!
# Sorting

A stable merge sort. It asks only whether an element of the right half goes before one of the left
half, so it answers a rearrangement of its elements whatever the order is.
-/

namespace ValueMachine

/-! ## Merge sort -/

section

variable {m : Type → Type} [Monad m] {α : Type}

/-- Merges two lists: the head of the right one is taken only if it goes before that of the left
one. `fuel` bounds the number of elements. -/
def mergeM (before : α → α → m Bool) : (fuel : Nat) → List α → List α → m (List α)
  | 0, left, right => return left ++ right
  | _, [], right => return right
  | _, left, [] => return left
  | fuel + 1, x :: left, y :: right => do
    if ← before y x then return y :: (← mergeM before fuel (x :: left) right)
    else return x :: (← mergeM before fuel left (y :: right))

/-- Sorts the two halves of a list, the left one first, and merges them; `fuel` bounds the number of
halvings. -/
def sortM (before : α → α → m Bool) : (fuel : Nat) → List α → m (List α)
  | 0, items => return items
  | fuel + 1, items => do
    if items.length < 2 then return items
    let half := items.length / 2
    let left ← sortM before fuel (items.take half)
    let right ← sortM before fuel (items.drop half)
    mergeM before items.length left right

end

/-! ## Orders of values -/

/-- The place of a number among all numbers, given the handle that it was read from. -/
def Heap.totalKey (h : Heap) (v : Value) (x : Float) : Int := Number.totalKey x (h.outside.nan v)

/-- Numbers by their total order, texts by code points, all else by kind. -/
def Heap.defaultBefore (h : Heap) (a b : Value) : Bool :=
  match h.payload a, h.payload b with
  | .number x, .number y => h.totalKey a x < h.totalKey b y
  | .text _ x, .text _ y => x < y
  | _, _ => (h.kind a).tag < (h.kind b).tag

/-- The order of a comparator: its answer is below zero. -/
def comparatorBefore (call : Caller) (comparator a b : Value) : Run Bool := do
  let verdict ← call comparator [a, b]
  return (← observe (·.toNumber verdict)) < 0.0

/-- A sorted copy of an array, by a comparator if one is given. -/
def Value.sort (call : Caller) (array comparator : Value) : Action Value := do
  let items := (← arrayArg array "sort" .object).toList
  match ← payloadOf comparator with
  | .function _ =>
    let before : Value → Value → Run Bool := comparatorBefore call comparator
    ofList (← ExceptT.lift (sortM before items.length items))
  | p =>
    if p.isNull || p.isUndefined then
      let h ← observe id
      ofList (Id.run (sortM (fun a b => pure (h.defaultBefore a b)) items.length items))
    else failNull (.argument "sort" "comparator must be a function") .object

end ValueMachine
