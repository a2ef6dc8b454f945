import Multisample.Library.Model
import Multisample.Numeric.Scalar

/-!
# Selecting regions

A note event triggers the regions whose keys, velocities, timbre and round
robin admit it, up to a fixed number.  Regions that overlap on purpose share
the sound: their gains follow how far the event lies inside each range, and the
squares of the gains add up to one.
-/

namespace Multisample

/-- A note as regions see it: velocity and timbre run from 0 to 99. -/
structure NoteEvent where
  kind : TriggerEvent
  key : Nat
  velocity : Nat
  roundRobin : Nat
  timbre : Nat
deriving DecidableEq, Repr, Inhabited

/-- A region that sounds, by its place in the instrument. -/
structure Triggered (σ : Type) where
  region : Nat
  gain : σ
deriving Repr

namespace Selection

/-- The most regions one event triggers; matches past them are dropped. -/
def limit : Nat := 32

/-- A MIDI velocity on the scale of regions. -/
def percent (velocity : Nat) : Nat :=
  min velocity 127 * 100 / 128

/-- How many steps the round robin of an instrument has. -/
def cycle (i : Instrument) : Nat :=
  i.maxRoundRobin + 1

def admits (cycle : Nat) (r : Region) (e : NoteEvent) : Bool :=
  r.trigger.event == e.kind && r.trigger.keys.contains e.key
    && r.trigger.velocities.contains e.velocity
    && r.trigger.roundRobin.all (fun index => e.roundRobin % cycle == index)
    && r.options.timbre.all (fun range => range.contains e.timbre)

/-- The regions that an event triggers, in the order of the instrument. -/
def kept (i : Instrument) (e : NoteEvent) : List (Region × Nat) :=
  (i.regions.zipIdx.filter fun (r, _) => admits (cycle i) r e).take limit

variable {σ : Type} [Elementary σ]

/-- Steps from a value to the nearer edge of a range, plus one: values on an edge still count. -/
@[specialize] def distance (r : ValueRange) (value : Nat) : σ :=
  Scalar.ofNat (min (value - r.start) (r.stop - 1 - value)) + 1

/-- The summed squares of distances. -/
@[specialize] def energy (value : Nat) (ranges : List ValueRange) : σ :=
  ranges.foldl
    (fun sum r =>
      let d : σ := distance r value
      sum + d * d)
    0

/-- The share of one range among several that hold a value. -/
@[specialize] def weight (value : Nat) (own : ValueRange) (ranges : List ValueRange) : σ :=
  distance own value / Elementary.sqrt (energy value ranges)

/-- The regions that share a timbre range with `r`. -/
def timbreLayer (kept : List (Region × Nat)) (r : Region) : List (Region × Nat) :=
  kept.filter fun (other, _) => other.options.timbre == r.options.timbre

/-- The timbre ranges of the regions that share a velocity range with `r`. -/
def velocityLayer (kept : List (Region × Nat)) (r : Region) : List ValueRange :=
  kept.filterMap fun (other, _) =>
    if other.trigger.velocities == r.trigger.velocities then other.options.timbre else none

/-- Velocity layers blend only when there are several and every one of them feathers. -/
@[specialize] def velocityWeight (kept : List (Region × Nat)) (r : Region) (velocity : Nat) : σ :=
  let layer := timbreLayer kept r
  if 1 < layer.length && layer.all (fun (other, _) => other.options.feather) then
    weight velocity r.trigger.velocities (layer.map fun (other, _) => other.trigger.velocities)
  else 1

/-- Timbre layers blend with those of the same velocity range. -/
@[specialize] def timbreWeight (kept : List (Region × Nat)) (r : Region) (timbre : Nat) : σ :=
  match r.options.timbre with
  | none => 1
  | some own => weight timbre own (velocityLayer kept r)

/-- The regions of an instrument that an event triggers, with their gains. -/
@[specialize] def select (i : Instrument) (e : NoteEvent) : List (Triggered σ) :=
  let kept := kept i e
  kept.map fun (r, index) =>
    ⟨index, velocityWeight kept r e.velocity * timbreWeight kept r e.timbre⟩

end Selection

end Multisample
