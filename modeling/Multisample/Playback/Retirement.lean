/-!
# Retirement

Whatever playback lets go of is handed to a bounded queue, to be freed later by
someone with time for it.  An item that finds the queue full is dropped on the
spot and counted.
-/

namespace Multisample

structure RetireQueue (α : Type) where
  capacity : Nat
  pending : List α
  overflow : Nat
deriving Repr

namespace RetireQueue

variable {α : Type}

/-- An empty queue; it has room for one item at least. -/
def empty (capacity : Nat) : RetireQueue α :=
  ⟨max capacity 1, [], 0⟩

def retire (q : RetireQueue α) (item : α) : RetireQueue α :=
  if q.pending.length < q.capacity then { q with pending := q.pending ++ [item] }
  else { q with overflow := q.overflow + 1 }

def retireAll (q : RetireQueue α) (items : List α) : RetireQueue α :=
  items.foldl retire q

/-- Frees what is queued and forgets what was dropped; the number is the one of freed items. -/
def collect (q : RetireQueue α) : RetireQueue α × Nat :=
  ({ q with pending := [], overflow := 0 }, q.pending.length)

end RetireQueue

end Multisample
