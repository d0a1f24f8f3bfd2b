import ValueMachine.Proofs.Table.Unions
import ValueMachine.Proofs.Value.Mutations

/-!
# Objects that are put together

Merging and spreading put two objects together: the first one's entries with the second one's
values under common keys, and then the second one's other entries. Merging writes both sides into an
empty table and spreading writes the second side into a copy of the first, so the tables that they
build may differ, but what the tables list does not.

Results:
* `Run.MakesNew`: computations that make a new value and change nothing else;
* `makesNew_merge`, `makesNew_spreadObject`: what is built, by what each side gives;
* `spreadObject_unites`: spreading any two values;
* `merge_ordered_union`: the laws of merging.
-/

namespace ValueMachine

open Listing (union)

/-! ## Making a new value -/

/-- The computation answers a value that did not exist, of which `is` holds. It leaves the status
`ok` and every cell as it was. -/
def Run.MakesNew (x : Run Value) (m : Machine) (is : Payload → Prop) : Prop :=
  ∃ w h, x.run.run m = (.ok w, { m with heap := h, status := .ok }) ∧ m.heap.Grows h ∧
    m.heap.holds w = false ∧ is (h.payload w)

/-- An object that lists the given entries, in order. -/
def Payload.Lists (l : List (String × Value)) : Payload → Prop
  | .object fields => fields.toList = l
  | _ => False

/-- The attempt makes one cell and answers it. -/
def Attempt.Builds (x : Attempt Value) (p : Payload) (config : Config) (h : Heap) : Prop :=
  HeapM.perform x.run config h = (.ok (h.alloc (.ofPayload p)).1, (h.alloc (.ofPayload p)).2)

section MakesNew

variable {m : Machine} {is : Payload → Prop}

theorem Attempt.Builds.makesNew {x : Attempt Value} {p : Payload}
    (builds : x.Builds p m.config m.heap) (holds : is p) : (settle x).MakesNew m is := by
  refine ⟨_, _, settle_ok builds, m.heap.grows_alloc _, ?_, ?_⟩
  · exact decide_eq_false (Nat.lt_irrefl _)
  · rw [Heap.payload, m.heap.cell_alloc_self]
    exact holds

/-- A new value that is made from another new value. -/
theorem Run.MakesNew.bind {x : Run Value} (made : x.MakesNew m is) {f : Value → Run Value}
    {is' : Payload → Prop} (next : ∀ w h, m.heap.Grows h → is (h.payload w) →
      (f w).MakesNew { m with heap := h, status := .ok } is') : (x >>= f).MakesNew m is' := by
  obtain ⟨w, h, run, grows, -, holds⟩ := made
  obtain ⟨w', h', run', grows', new, holds'⟩ := next w h grows holds
  refine ⟨w', h', (Run.bind_ok run f).trans run', grows.trans grows', ?_, holds'⟩
  cases w' with
  | cell address =>
    have le : h.size ≤ address := Nat.le_of_not_lt (of_decide_eq_false new)
    exact decide_eq_false (Nat.not_lt.mpr (Nat.le_trans grows.size_le le))
  | _ => rfl

end MakesNew

/-! ## What a side gives -/

/-- The entries of a plain object; all else has none. -/
def Payload.entries (p : Payload) : List (String × Value) := p.object?.elim [] Table.toList

namespace Payload

variable {p : Payload} {l : List (String × Value)}

/-- What may be merged: plain objects, null and undefined. -/
def isMergeable (p : Payload) : Bool := p.object?.isSome || p.isNull || p.isUndefined

/-- What a shallow clone copies: arrays and objects of all sorts. -/
def isCopied : Payload → Bool
  | array _ => true
  | object _ => true
  | extension _ => true
  | _ => false

theorem nodup_keys_entries (p : Payload) : (Listing.keys p.entries).Nodup := by
  cases p with
  | object fields => exact fields.nodup_keys
  | _ => exact List.nodup_nil

theorem entries_of_lists (lists : p.Lists l) : p.entries = l := by
  cases p with
  | object fields => exact lists
  | _ => exact lists.elim

theorem isMergeable_of_lists (lists : p.Lists l) : p.isMergeable = true := by
  cases p with
  | object fields => rfl
  | _ => exact lists.elim

/-- What has no entries to merge. -/
theorem isMergeable_of_empty (none : p = .null ∨ p = .undefined ∨ p.Lists []) :
    p.isMergeable = true ∧ p.entries = [] := by
  obtain rfl | rfl | lists := none
  · exact ⟨rfl, rfl⟩
  · exact ⟨rfl, rfl⟩
  · exact ⟨isMergeable_of_lists lists, entries_of_lists lists⟩

end Payload

/-! ## Merging and spreading -/

section Operations

variable {config : Config} {h : Heap} {m : Machine} {left right : Value}

theorem perform_mergeSide (side : (h.payload left).isMergeable = true) :
    HeapM.perform (Value.mergeSide left).run config h = (.ok (h.payload left).entries, h) := by
  rw [Value.mergeSide, Attempt.bind_payloadOf]
  cases is : h.payload left with
  | object fields =>
    have some : (h.payload left).object? = some fields := by rw [is]; rfl
    have listed := perform_require Payload.object? config some "merge" "requires object"
      (Value.nullOf .object)
    rw [if_neg (by simp [Payload.isNull, Payload.isUndefined]), Value.entriesArg,
      Attempt.bind_ok listed]
    rfl
  | null => rfl
  | undefined => rfl
  | _ => rw [is] at side; cases side

theorem builds_merge (first : (h.payload left).isMergeable = true)
    (second : (h.payload right).isMergeable = true) :
    (Value.merge left right).Builds (.object (.ofList config.hashThreshold
      ((h.payload left).entries ++ (h.payload right).entries))) config h := by
  rw [Attempt.Builds, Value.merge, Attempt.bind_ok (perform_mergeSide first),
    Attempt.bind_ok (perform_mergeSide second)]
  rfl

/-- Merging makes a new object with the entries of both sides. -/
theorem makesNew_merge (first : (m.heap.payload left).isMergeable = true)
    (second : (m.heap.payload right).isMergeable = true) :
    (settle (Value.merge left right)).MakesNew m
      (Payload.Lists (union (m.heap.payload left).entries (m.heap.payload right).entries)) :=
  (builds_merge first second).makesNew (Table.toList_ofList_append _
    (Payload.nodup_keys_entries _) (Payload.nodup_keys_entries _))

theorem makesNew_merge_lists {l r : List (String × Value)} (first : (m.heap.payload left).Lists l)
    (second : (m.heap.payload right).Lists r) :
    (settle (Value.merge left right)).MakesNew m (Payload.Lists (union l r)) := by
  have made := makesNew_merge (Payload.isMergeable_of_lists first)
    (Payload.isMergeable_of_lists second)
  rwa [Payload.entries_of_lists first, Payload.entries_of_lists second] at made

theorem perform_lift_eq (x : HeapM Value) :
    HeapM.perform (liftM x : Attempt Value).run config h =
      (.ok (x.perform config h).1, (x.perform config h).2) := rfl

theorem builds_shallowClone {v : Value} (copied : (h.payload v).isCopied = true) :
    Attempt.Builds (liftM (Value.shallowClone v)) (h.payload v) config h := by
  rw [Attempt.Builds, perform_lift_eq, Value.shallowClone, HeapM.bind_payloadOf]
  cases is : h.payload v with
  | array items => rfl
  | object fields => rfl
  | extension e => rfl
  | _ => rw [is] at copied; cases copied

theorem perform_shallowClone_of_not {v : Value} (kept : (h.payload v).isCopied = false) :
    HeapM.perform (liftM (Value.shallowClone v) : Attempt Value).run config h = (.ok v, h) := by
  rw [perform_lift_eq, Value.shallowClone, HeapM.bind_payloadOf]
  cases is : h.payload v with
  | array | object | extension => rw [is] at kept; cases kept
  | _ => rfl

/-- Spreading writes the second object into the first, or copies one side. -/
theorem perform_spreadObject (config : Config) (h : Heap) (target source : Value) :
    HeapM.perform (Value.spreadObject target source).run config h =
      HeapM.perform (liftM (match (h.payload target).object?, (h.payload source).object? with
        | some first, some second =>
          Value.ofTable (first.insertAll config.hashThreshold second.toList)
        | some _, none => Value.shallowClone target
        | none, _ => Value.shallowClone source) : Attempt Value).run config h := by
  have threshold : HeapM.perform (read : Attempt Config).run config h = (.ok config, h) := rfl
  rw [Value.spreadObject, Attempt.bind_payloadOf, Attempt.bind_payloadOf]
  cases (h.payload target).object? with
  | none => rfl
  | some first =>
    cases (h.payload source).object? with
    | none => rfl
    | some second => exact Attempt.bind_ok threshold _

/-- A copy of a plain object. -/
theorem builds_copy {fields : Table Value} {v : Value} (is : (h.payload v).object? = some fields) :
    Attempt.Builds (liftM (Value.shallowClone v)) (.object fields) config h := by
  have copied := Payload.eq_of_object? is
  rw [← copied]
  exact builds_shallowClone (by rw [copied]; rfl)

/-- Spreading makes a new object with the entries of both sides, if one of them is an object. -/
theorem makesNew_spreadObject {target source : Value}
    (one : (m.heap.payload target).object?.isSome || (m.heap.payload source).object?.isSome) :
    (settle (Value.spreadObject target source)).MakesNew m
      (Payload.Lists (union (m.heap.payload target).entries (m.heap.payload source).entries)) := by
  have run := perform_spreadObject m.config m.heap target source
  cases first : (m.heap.payload target).object? with
  | some fields =>
    cases second : (m.heap.payload source).object? with
    | some others =>
      rw [first, second] at run
      rw [Payload.entries, Payload.entries, first, second]
      exact Attempt.Builds.makesNew (p := .object _) run
        (fields.toList_insertAll_eq _ others.nodup_keys)
    | none =>
      rw [first, second] at run
      rw [Payload.entries, Payload.entries, first, second]
      exact Attempt.Builds.makesNew (run.trans (builds_copy first)) (Listing.union_nil _).symm
  | none =>
    rw [first] at one run
    obtain ⟨others, second⟩ := Option.isSome_iff_exists.mp one
    rw [Payload.entries, Payload.entries, first, second]
    exact Attempt.Builds.makesNew (run.trans (builds_copy second)) (Listing.nil_union _).symm

/-- Spreading one value into another makes a new object with the entries of both, where a value that
is no plain object has none. If neither is one, the second value is copied: an array gives an array,
an object with a payload of its own another one, and all else is answered as it is. -/
theorem spreadObject_unites (m : Machine) (target source : Value) :
    if (m.heap.payload target).object?.isSome || (m.heap.payload source).object?.isSome then
      (settle (Value.spreadObject target source)).MakesNew m
        (Payload.Lists (union (m.heap.payload target).entries (m.heap.payload source).entries))
    else if (m.heap.payload source).isCopied then
      (settle (Value.spreadObject target source)).MakesNew m (· = m.heap.payload source)
    else (settle (Value.spreadObject target source)).run.run m =
      (.ok source, { m with status := .ok }) := by
  have run := perform_spreadObject m.config m.heap target source
  split
  · next one => exact makesNew_spreadObject one
  · next neither =>
    rw [Bool.or_eq_true, not_or, Option.not_isSome_iff_eq_none] at neither
    rw [neither.1] at run
    split
    · next copied => exact Attempt.Builds.makesNew (run.trans (builds_shallowClone copied)) rfl
    · next kept =>
      rw [Bool.not_eq_true] at kept
      exact settle_ok (run.trans (perform_shallowClone_of_not kept))

/-- A number that is spread into nothing is answered: no object is made. -/
theorem spreadObject_scalars : ¬∀ (m : Machine) (target source : Value),
    (settle (Value.spreadObject target source)).MakesNew m
      (Payload.Lists (union (m.heap.payload target).entries (m.heap.payload source).entries)) := by
  intro unites
  let m : Machine := .start ⟨"linux", "2024-01-01 00:00:00", 0, 0.5⟩ []
  obtain ⟨w, h, run, -, -, lists⟩ := unites m .null (.small 5)
  have answered : (settle (Value.spreadObject .null (.small 5))).run.run m =
      (.ok (.small 5), { m with status := .ok }) :=
    settle_ok ((perform_spreadObject _ _ _ _).trans (perform_shallowClone_of_not rfl))
  obtain rfl : Value.small 5 = w := Except.ok.inj (congrArg Prod.fst (answered.symm.trans run))
  exact lists

/-! ## The laws of merging -/

/-- Where three objects are merged, the one that is made of two of them can come first or last. -/
theorem makesNew_merge_merge {a b c : Value} {ta tb tc : Table Value}
    (ha : m.heap.payload a = .object ta) (hb : m.heap.payload b = .object tb)
    (hc : m.heap.payload c = .object tc) :
    (settle (Value.merge a b) >>= fun ab => settle (Value.merge ab c)).MakesNew m
        (Payload.Lists (union (union ta.toList tb.toList) tc.toList)) ∧
      (settle (Value.merge b c) >>= fun bc => settle (Value.merge a bc)).MakesNew m
        (Payload.Lists (union ta.toList (union tb.toList tc.toList))) := by
  have object {v : Value} {t : Table Value} (is : m.heap.payload v = .object t) :
      (m.heap.payload v).Lists t.toList := by
    rw [is]
    rfl
  -- an object that was there is the same beside a new one
  have kept {v : Value} {t : Table Value} (is : m.heap.payload v = .object t) {h : Heap}
      (grows : m.heap.Grows h) : (h.payload v).Lists t.toList := by
    rw [grows.payload_eq (fun none => by rw [is] at none; cases none), is]
    rfl
  constructor
  · refine (makesNew_merge_lists (object ha) (object hb)).bind fun ab h grows lists => ?_
    exact makesNew_merge_lists lists (kept hc grows)
  · refine (makesNew_merge_lists (object hb) (object hc)).bind fun bc h grows lists => ?_
    exact makesNew_merge_lists (kept ha grows) lists

end Operations

/-- A hashed table that has lost an entry. -/
def wornTable : Table Value :=
  ((Table.emptyHashed.insertAll 8 [("ink", .small 1), ("pen", .small 2), ("cap", .small 3)]).erase
    "pen").2

/-- A machine with that table and two lists of pairs as objects. -/
def drawers : Machine :=
  { Machine.start ⟨"linux", "2024-01-01 00:00:00", 0, 0.5⟩ [] with
    heap := .ofCells #[.ofPayload (.object wornTable),
      .ofPayload (.object (.ofList 8 [("pen", .small 4), ("ink", .small 5)])),
      .ofPayload (.object .empty)] }

end ValueMachine
