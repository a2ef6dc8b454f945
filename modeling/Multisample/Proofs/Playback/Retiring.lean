import Mathlib.Data.Nat.Notation
import Multisample.Playback.Retirement

/-!
# The retire queue

Every item that is handed over is either queued or counted as dropped, and the
queue never holds more than it has room for.
-/

namespace Multisample

namespace RetireQueue

variable {α : Type}

theorem retireAll_append (q : RetireQueue α) (items more : List α) :
    q.retireAll (items ++ more) = (q.retireAll items).retireAll more :=
  List.foldl_append

/-- How many items a queue has been given since it was last emptied. -/
def received (q : RetireQueue α) : ℕ :=
  q.pending.length + q.overflow

theorem retire_spec (q : RetireQueue α) (item : α) :
    (q.retire item).capacity = q.capacity ∧ (q.retire item).received = q.received + 1 ∧
      q.overflow ≤ (q.retire item).overflow ∧
      (q.pending.length ≤ q.capacity → (q.retire item).pending.length ≤ q.capacity) := by
  unfold retire received
  split
  · rename_i h
    refine ⟨rfl, ?_, Nat.le_refl _, ?_⟩
    · rw [List.length_append, List.length_singleton, Nat.add_right_comm]
    · intro _
      rw [List.length_append]
      exact h
  · exact ⟨rfl, rfl, Nat.le_succ _, id⟩

theorem retireAll_spec (q : RetireQueue α) (items : List α) :
    (q.retireAll items).capacity = q.capacity ∧
      (q.retireAll items).received = q.received + items.length ∧
      q.overflow ≤ (q.retireAll items).overflow ∧
      (q.pending.length ≤ q.capacity → (q.retireAll items).pending.length ≤ q.capacity) := by
  induction items generalizing q with
  | nil => exact ⟨rfl, rfl, Nat.le_refl _, id⟩
  | cons item rest ih =>
      obtain ⟨hcapacity, hreceived, hoverflow, hpending⟩ := q.retire_spec item
      obtain ⟨ihcapacity, ihreceived, ihoverflow, ihpending⟩ := ih (q.retire item)
      refine ⟨ihcapacity.trans hcapacity, ?_, Nat.le_trans hoverflow ihoverflow, ?_⟩
      · rw [List.length_cons, ← Nat.add_assoc, Nat.add_right_comm, ← hreceived]
        exact ihreceived
      · intro h
        exact hcapacity ▸ ihpending (hcapacity ▸ hpending h)

end RetireQueue

end Multisample
