import ValueMachine.Number.Power

/-!
# Tallies

Counts of the cells that a program has made and freed, and of the functions among them.
-/

namespace ValueMachine

structure Tally where
  allocated : Nat
  freed : Nat
  closuresAllocated : Nat
  closuresFreed : Nat
  deriving DecidableEq

namespace Tally

/-- How many cells are in use. -/
def live (t : Tally) : Nat := t.allocated - t.freed

def liveClosures (t : Tally) : Nat := t.closuresAllocated - t.closuresFreed

/-- A difference of counters of 64 bits. -/
def elapsed (later earlier : Nat) : Nat :=
  (((later : Int) - (earlier : Int)) % (Number.twoPow 64 : Int)).toNat

/-- What was counted since an earlier tally. -/
def since (later earlier : Tally) : Tally where
  allocated := elapsed later.allocated earlier.allocated
  freed := elapsed later.freed earlier.freed
  closuresAllocated := elapsed later.closuresAllocated earlier.closuresAllocated
  closuresFreed := elapsed later.closuresFreed earlier.closuresFreed

end Tally

end ValueMachine
