import Multisample.Library.Model

/-!
# Loop points

Loop points are stated before the length of a file is known.  Resolution
counts negative indices from the end, checks the points against the length and
shortens the crossfade to what the loop has room for.
-/

namespace Multisample

/-- Loop points that fit a buffer: `start < stop`, and no further than its end. -/
structure ResolvedLoop where
  start : Nat
  stop : Nat
  crossfade : Nat
  pingPong : Bool
deriving DecidableEq, Repr, Inhabited

/-- Why loop points do not fit a buffer. -/
inductive LoopError where
  | outOfBounds (start stop : Int) (frames : Nat)
  | empty (start stop : Int)
deriving DecidableEq, Repr

def LoopError.message : LoopError → String
  | outOfBounds start stop frames =>
    s!"loop [{start}, {stop}) lies outside the file's {frames} frames"
  | empty start stop => s!"loop end {stop} is not after loop start {start}"

namespace SampleLoop

/-- A frame index as written; -1 is the number of frames. -/
def frameIndex (index : Int) (frames : Nat) : Int :=
  if 0 ≤ index then index else frames + 1 + index

/-- The longest crossfade between two points: a forward loop also reads the frames before it. -/
def crossfadeLimit (start stop : Nat) (pingPong : Bool) : Nat :=
  if pingPong then (stop - start) / 2 else min (stop - start) start

def resolve (l : SampleLoop) (frames : Nat) : Except LoopError ResolvedLoop :=
  let start := frameIndex l.start frames
  let stop := frameIndex l.stop frames
  if start < 0 ∨ (frames : Int) < stop then .error (.outOfBounds start stop frames)
  else if stop ≤ start then .error (.empty start stop)
  else
    .ok {
      start := start.toNat
      stop := stop.toNat
      crossfade := min l.crossfade (crossfadeLimit start.toNat stop.toNat l.pingPong)
      pingPong := l.pingPong }

end SampleLoop

end Multisample
