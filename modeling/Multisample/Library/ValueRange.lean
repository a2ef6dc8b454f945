/-!
# Value ranges

Keys and percentages are grouped into half-open ranges.  A range that ends
where it starts, or before, holds nothing.
-/

namespace Multisample

/-- The values from `start` up to, and not including, `stop`. -/
structure ValueRange where
  start : Nat
  stop : Nat
deriving DecidableEq, Repr, Inhabited

namespace ValueRange

def contains (r : ValueRange) (value : Nat) : Bool :=
  r.start ≤ value && value < r.stop

def overlaps (r s : ValueRange) : Bool :=
  r.start < s.stop && s.start < r.stop

def size (r : ValueRange) : Nat :=
  r.stop - r.start

def isEmpty (r : ValueRange) : Bool :=
  r.stop ≤ r.start

/-- A range is shown as `[start, stop)`. -/
def text (r : ValueRange) : String :=
  s!"[{r.start}, {r.stop})"

theorem contains_iff {r : ValueRange} {value : Nat} :
    r.contains value = true ↔ r.start ≤ value ∧ value < r.stop := by
  simp [contains]

theorem isEmpty_iff {r : ValueRange} : r.isEmpty = true ↔ ∀ value, r.contains value = false := by
  simp only [isEmpty, contains, decide_eq_true_eq, Bool.and_eq_false_iff, decide_eq_false_iff_not]
  constructor
  · intro h value
    omega
  · intro h
    have := h r.start
    omega

end ValueRange

end Multisample
