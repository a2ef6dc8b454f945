import Multisample.Numeric.Machine

/-!
# Durations

A duration is a whole number of nanoseconds.  Seconds as a float are read as
the exact number they stand for and rounded to the nearest nanosecond, a tie to
the even one.
-/

namespace Multisample

structure Duration where
  nanoseconds : Nat
deriving DecidableEq, Repr, Inhabited

namespace Duration

def perSecond : Nat := 1000000000

def ofMillis (ms : Nat) : Duration :=
  ⟨ms * 1000000⟩

def seconds (d : Duration) : Nat :=
  d.nanoseconds / perSecond

/-- The nanoseconds past the whole seconds. -/
def subsecond (d : Duration) : Nat :=
  d.nanoseconds % perSecond

/-- The whole milliseconds. -/
def millis (d : Duration) : Nat :=
  d.nanoseconds / 1000000

/-- Reads a number of seconds; a number that is negative or not finite has no duration. -/
def ofSeconds? (x : Float) : Option Duration := do
  let b ← Binary.ofFloat? x
  if b.negative && b.mantissa != 0 then none else some ⟨b.scaled 9⟩

/-- The duration in seconds: whole seconds and the rest are converted apart and added. -/
def toSeconds (d : Duration) : Float :=
  d.seconds.toFloat + d.subsecond.toFloat / 1000000000

end Duration

end Multisample
