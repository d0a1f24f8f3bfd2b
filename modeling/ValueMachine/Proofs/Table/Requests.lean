import Mathlib.Algebra.Group.Nat.Defs
import ValueMachine.Proofs.Table.Listing

/-!
# Requests to tables

A run asks a table for one thing after the other; every write comes with the threshold that is in
force. The replies are those of a plain list of pairs. With fewer than `2 ^ 31` entries at a time
every position fits a slot, and the storages of the program, which do not look whether it does,
give the same replies.

Results:
* `serve_eq`, `Table.serve_storage`: one request;
* `replies_eq_replies_listing`: any sequence of requests.
-/

namespace ValueMachine

variable {α : Type}

inductive Request (α : Type) where
  | insert (threshold : Nat) (key : String) (value : α)
  | remove (key : String)
  | get (key : String)
  | contains (key : String)
  | size
  | list

inductive Reply (α : Type) where
  /-- The value that was found or replaced, if there was one. -/
  | value (found : Option α)
  | present (b : Bool)
  | count (n : Nat)
  | pairs (l : List (String × α))

def Table.serve (t : Table α) : Request α → Reply α × Table α
  | .insert threshold key value =>
    let (previous, t) := t.insert threshold key value
    (.value previous, t)
  | .remove key =>
    let (previous, t) := t.erase key
    (.value previous, t)
  | .get key => (.value (t.get? key), t)
  | .contains key => (.present (t.contains key), t)
  | .size => (.count t.size, t)
  | .list => (.pairs t.toList, t)

/-- What the program does, whether or not there is a position for a further entry. -/
def Table.Storage.serve (s : Table.Storage α) : Request α → Reply α × Table.Storage α
  | .insert threshold key value =>
    let (previous, s) := s.insert threshold key value
    (.value previous, s)
  | .remove key =>
    let (previous, s) := s.erase key
    (.value previous, s)
  | .get key => (.value (s.get? key), s)
  | .contains key => (.present (s.get? key).isSome, s)
  | .size => (.count s.size, s)
  | .list => (.pairs (s.entries.map Table.Entry.toPair), s)

def Listing.serve (l : List (String × α)) : Request α → Reply α × List (String × α)
  | .insert _ key value => (.value (l.lookup key), put l key value)
  | .remove key => (.value (l.lookup key), remove l key)
  | .get key => (.value (l.lookup key), l)
  | .contains key => (.present (decide (key ∈ l.map Prod.fst)), l)
  | .size => (.count l.length, l)
  | .list => (.pairs l, l)

/-- The replies to a sequence of requests. -/
def replies {σ : Type} (serve : σ → Request α → Reply α × σ) : σ → List (Request α) → List (Reply α)
  | _, [] => []
  | s, request :: requests =>
    (serve s request).1 :: replies serve (serve s request).2 requests

/-- What a sequence of requests leaves behind. -/
def after {σ : Type} (serve : σ → Request α → Reply α × σ) : σ → List (Request α) → σ
  | s, [] => s
  | s, request :: requests => after serve (serve s request).2 requests

/-- The most entries that there have been while requests were served. -/
def peak {σ : Type} (serve : σ → Request α → Reply α × σ) (size : σ → Nat) :
    σ → List (Request α) → Nat
  | s, [] => size s
  | s, request :: requests => max (size s) (peak serve size (serve s request).2 requests)

/-- The positions of the entries of a hashed table; those of a plain list have none. -/
def Table.positions (t : Table α) : List Nat :=
  match t.storage with
  | .linear _ => []
  | .hashed table => List.range table.entries.size

/-! ## One request -/

theorem serve_eq (t : Table α) (request : Request α) :
    (t.serve request).1 = (Listing.serve t.toList request).1 ∧
      (t.serve request).2.toList = (Listing.serve t.toList request).2 := by
  cases request with
  | insert threshold key value =>
    exact ⟨congrArg Reply.value (t.fst_insert threshold key value),
      t.toList_insert threshold key value⟩
  | remove key => exact ⟨congrArg Reply.value (t.fst_erase key), t.toList_erase key⟩
  | get key => exact ⟨congrArg Reply.value (t.get?_eq key), rfl⟩
  | contains key => exact ⟨congrArg Reply.present (t.contains_eq key), rfl⟩
  | size => exact ⟨congrArg Reply.count t.size_eq, rfl⟩
  | list => exact ⟨rfl, rfl⟩

/-- A key that is removed and written again goes to the end. -/
theorem toList_erase_insert (t : Table α) (threshold : Nat) (key : String) (value : α) :
    ((t.erase key).2.insert threshold key value).2.toList =
      Listing.remove t.toList key ++ [(key, value)] := by
  rw [Table.toList_insert, Table.toList_erase, Listing.put, if_neg]
  intro mem
  obtain ⟨p, hp, eq⟩ := List.mem_map.mp mem
  have := List.of_mem_filter hp
  simp [eq] at this

/-- The entry list is not much longer than the table. -/
theorem lt_of_mem_positions {t : Table α} {position : Nat} (mem : position ∈ t.positions) :
    position < t.size + max t.size Table.Hashed.minCapacity := by
  obtain ⟨storage, valid⟩ := t
  cases storage with
  | linear entries => exact absurd mem List.not_mem_nil
  | hashed table => exact Nat.lt_of_lt_of_le (List.mem_range.mp mem) valid.2

/-- With few entries, a table does what the program does. -/
theorem Table.serve_storage {t : Table α} (few : t.size < 2 ^ 31) (request : Request α) :
    t.storage.serve request = ((t.serve request).1, (t.serve request).2.storage) := by
  cases request with
  | insert threshold key value =>
    have written := Table.Storage.write_of_hasRoom (t.isValid.hasRoom few threshold) key value
    show (Reply.value (t.storage.insert threshold key value).1,
      (t.storage.insert threshold key value).2) =
      (Reply.value (t.storage.write threshold key value).1, (t.storage.write threshold key value).2)
    rw [written]
  | _ => rfl

/-! ## Sequences of requests -/

theorem replies_eq (requests : List (Request α)) : ∀ t : Table α,
    replies Table.serve t requests = replies Listing.serve t.toList requests ∧
      (after Table.serve t requests).toList = after Listing.serve t.toList requests := by
  induction requests with
  | nil => intro t; exact ⟨rfl, rfl⟩
  | cons request requests ih =>
    intro t
    obtain ⟨reply, rest⟩ := serve_eq t request
    obtain ⟨hreplies, hafter⟩ := ih (t.serve request).2
    rw [rest] at hreplies hafter
    exact ⟨by rw [replies, replies, reply, hreplies], hafter⟩

theorem size_le_peak {σ : Type} (serve : σ → Request α → Reply α × σ) (size : σ → Nat) (s : σ)
    (requests : List (Request α)) : size s ≤ peak serve size s requests := by
  cases requests with
  | nil => exact Nat.le_refl _
  | cons request requests => exact Nat.le_max_left _ _

/-- What holds of a state that has had so many entries at most, and of the next state, holds of the
last one. -/
theorem after_of_step {σ : Type} {serve : σ → Request α → Reply α × σ} {size : σ → Nat}
    {P : Nat → σ → Prop} (mono : ∀ {s most most'}, P most s → most ≤ most' → P most' s)
    (step : ∀ {s most} request, P most s →
      P (max most (size (serve s request).2)) (serve s request).2) (requests : List (Request α)) :
    ∀ {s most}, P most s → P (max most (peak serve size s requests)) (after serve s requests) := by
  induction requests with
  | nil => exact fun h => mono h (Nat.le_max_left _ _)
  | cons request requests ih =>
    intro s most h
    have next := size_le_peak serve size (serve s request).2 requests
    refine mono (ih (step request h)) ?_
    rw [peak]
    omega

/-- A table has had as many entries at a time as the list. -/
theorem peak_eq (requests : List (Request α)) : ∀ t : Table α,
    peak Table.serve Table.size t requests = peak Listing.serve List.length t.toList requests := by
  induction requests with
  | nil => exact fun t => t.size_eq
  | cons request requests ih =>
    intro t
    rw [peak, peak, ih, (serve_eq t request).2, t.size_eq]

/-- As long as there are few entries, the program's storages serve requests as tables do. -/
theorem replies_storage (requests : List (Request α)) : ∀ {t : Table α},
    peak Table.serve Table.size t requests < 2 ^ 31 →
    replies Table.Storage.serve t.storage requests = replies Table.serve t requests ∧
      after Table.Storage.serve t.storage requests = (after Table.serve t requests).storage := by
  induction requests with
  | nil => exact fun _ => ⟨rfl, rfl⟩
  | cons request requests ih =>
    intro t few
    rw [peak] at few
    have step := Table.serve_storage (t := t) (by omega) request
    obtain ⟨hreplies, hafter⟩ := ih (t := (t.serve request).2) (by omega)
    rw [replies, replies, after, after, step]
    exact ⟨congrArg _ hreplies, hafter⟩

/-- A table that starts empty, as a plain list or hashed. -/
def Table.new (hashed : Bool) : Table α := if hashed then emptyHashed else empty

theorem toList_new (hashed : Bool) : (Table.new hashed : Table α).toList = [] := by
  cases hashed with
  | false => rfl
  | true =>
    show (Table.Hashed.ofEntries []).toList.map Table.Entry.toPair = ([] : List (String × α))
    rw [Table.Hashed.ofEntries, Table.Hashed.toList_build]
    rfl

/-- Any sequence of requests to a table that started empty is answered as by a plain list. At any
time the table lists the pairs of that list, which have distinct keys, a key that is removed and
written again goes to the end, and with fewer than `2 ^ 31` live entries no position needs more than
32 bits. If there were never more entries at a time, the program's storages, which cut longer
positions, give these replies too, and end as the table does. -/
theorem replies_eq_replies_listing (hashed : Bool) (requests : List (Request α)) :
    replies Table.serve (Table.new hashed) requests = replies Listing.serve [] requests ∧
    (after Table.serve (Table.new hashed) requests).toList = after Listing.serve [] requests ∧
    ((after Listing.serve ([] : List (String × α)) requests).map Prod.fst).Nodup ∧
    (∀ threshold key value,
      (((after Table.serve (Table.new hashed) requests).erase key).2.insert threshold key
        value).2.toList =
          Listing.remove (after Listing.serve [] requests) key ++ [(key, value)]) ∧
    ((after Table.serve (Table.new hashed : Table α) requests).size < 2 ^ 31 →
      ∀ position ∈ (after Table.serve (Table.new hashed : Table α) requests).positions,
        position < 2 ^ 32) ∧
    (peak Listing.serve List.length ([] : List (String × α)) requests < 2 ^ 31 →
      replies Table.Storage.serve (Table.new hashed).storage requests =
        replies Listing.serve [] requests ∧
      after Table.Storage.serve (Table.new hashed : Table α).storage requests =
        (after Table.serve (Table.new hashed) requests).storage) := by
  obtain ⟨hreplies, hafter⟩ := replies_eq requests (Table.new hashed)
  rw [toList_new] at hreplies hafter
  refine ⟨hreplies, hafter, ?_, ?_, ?_, ?_⟩
  · rw [← hafter]
    exact Table.nodup_keys _
  · intro threshold key value
    rw [toList_erase_insert, hafter]
  · intro few position mem
    have := lt_of_mem_positions mem
    rw [Table.Hashed.minCapacity] at this
    omega
  · intro few
    rw [← toList_new hashed, ← peak_eq] at few
    rw [← hreplies]
    exact replies_storage requests few

end ValueMachine
