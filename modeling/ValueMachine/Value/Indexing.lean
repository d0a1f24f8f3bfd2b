import ValueMachine.Value.Coercion
import ValueMachine.Value.Objects

/-!
# Indexing

`container[key]` for arrays, buffers and objects. A key is a position if its number is finite and
not negative; its integer part counts. Writing past the end of an array fills the gap with
undefined.
-/

namespace ValueMachine

namespace Heap

/-- The position that a key stands for. -/
def position? (h : Heap) (key : Value) : Option Nat :=
  let index := h.toNumber key
  if !index.isFinite || index < 0.0 then none else some (Number.toCount index)

end Heap

namespace Value

/-- The element or field at a key. -/
def lookup (container key : Value) : Attempt Value := do
  let h ← get
  match h.payload container with
  | .null => fail .nullIndexed .null
  | .array items =>
    match (h.position? key).bind (items[·]?) with
    | some item => return item
    | none => fail .arrayBounds .null
  | .extension e =>
    match h.payload key with
    | .number _ =>
      match e.bytes? with
      | none => fail .notIndexable .null
      | some bytes =>
        match (h.position? key).bind (bytes[·]?) with
        | some byte => ofNat byte.toNat
        | none => fail .bufferBounds .null
    | .text _ name =>
      match ← virtualProperty? container e name with
      | some v => return v
      | none => fail .keyNotFound .null
    | _ => fail .notIndexable .null
  | .object fields =>
    match (h.payload key).text? with
    | some name =>
      match fields.get? name with
      | some v => return v
      | none => fail .keyNotFound .null
    | none => fail .notIndexable .null
  | _ => fail .notIndexable .null

/-- The element or field at a key; a miss is reported and gives null. -/
def index (container key : Value) : Attempt Value := lookup container key

/-- The element or field at a key; a miss gives undefined without a report. -/
def indexSafe (container key : Value) : Attempt Value :=
  tryCatch (lookup container key) fun _ => return .undefined

/-- Most undefined elements that one write may append. -/
def maxGrowth : Nat := Number.twoPow 24

/-- The array with `v` at a position, filled up with undefined to reach it. -/
def writeAt (items : Array Value) (position : Nat) (v : Value) : Array Value :=
  if position < items.size then items.setIfInBounds position v
  else (items ++ Array.replicate (position - items.size) undefined).push v

/-- Writes an element of an array. Negative and NaN keys are ignored; keys too far past the end are
out of bounds. -/
def setElement (container : Value) (items : Array Value) (key v : Value) : Attempt Value := do
  let h ← get
  let index := h.toNumber key
  if index.isNaN || index < 0.0 then return v
  else match h.position? key with
    | none => fail .arrayBounds .null
    | some position =>
      if position < items.size + maxGrowth then
        writePayload container (.array (writeAt items position v))
        return v
      else fail .arrayBounds .null

/-- Writes a byte of a buffer: the integer part of the value modulo 256. -/
def setByte (container : Value) (e : Extension) (key v : Value) : Attempt Value := do
  let h ← get
  match e.bytes? with
  | none => fail .notAssignable .null
  | some bytes =>
    match h.position? key with
    | none => fail .bufferBounds .null
    | some position =>
      if position < bytes.size then
        let byte := Number.toByte (h.toNumber v)
        writePayload container (.extension (.buffer (bytes.setIfInBounds position byte)))
        return v
      else fail .bufferBounds .null

/-- `container[key] := v`, in place. -/
def setIndex (container key v : Value) : Attempt Value := do
  let h ← get
  match h.payload container with
  | .object _ =>
    match (h.payload key).text? with
    | some name => setField container name v
    | none => fail .notAssignable .null
  | .array items => setElement container items key v
  | .extension e =>
    match h.payload key with
    | .number _ => setByte container e key v
    | _ => fail .notAssignable .null
  | .null => fail .nullIndexed .null
  | _ => fail .notAssignable .null

end Value

end ValueMachine
