import Multisample.Effects.Parameter

/-!
# Reverb

Eight damped comb filters side by side, then four all-pass filters in a row,
for each channel; the right one is tuned a little longer.
-/

namespace Multisample

structure Comb (σ : Type) where
  buffer : Array σ
  index : Nat
  /-- The damped output fed back last. -/
  store : σ

namespace Comb

variable {σ : Type} [Scalar σ]

@[specialize] def ofSize (size : Nat) : Comb σ :=
  ⟨Array.replicate (max size 1) 0, 0, 0⟩

@[specialize] def step (feedback damp : σ) (c : Comb σ) (x : σ) : Comb σ × σ :=
  match c with
  | ⟨buffer, index, store⟩ =>
    let output := buffer.getD index 0
    let store := output * (1 - damp) + store * damp
    (⟨buffer.setIfInBounds index (x + store * feedback), (index + 1) % buffer.size, store⟩, output)

/-- Silences the filter; its place in the ring is kept. -/
@[specialize] def clear (c : Comb σ) : Comb σ :=
  ⟨Array.replicate c.buffer.size 0, c.index, 0⟩

end Comb

/-- An all-pass filter around a ring of samples. -/
structure RingAllPass (σ : Type) where
  buffer : Array σ
  index : Nat

namespace RingAllPass

variable {σ : Type} [Scalar σ]

@[specialize] def ofSize (size : Nat) : RingAllPass σ :=
  ⟨Array.replicate (max size 1) 0, 0⟩

@[specialize] def step (a : RingAllPass σ) (x : σ) : RingAllPass σ × σ :=
  match a with
  | ⟨buffer, index⟩ =>
    let delayed := buffer.getD index 0
    (⟨buffer.setIfInBounds index (x + delayed * 0.5), (index + 1) % buffer.size⟩, delayed - x)

@[specialize] def clear (a : RingAllPass σ) : RingAllPass σ :=
  ⟨Array.replicate a.buffer.size 0, a.index⟩

end RingAllPass

structure ReverbChannel (σ : Type) where
  combs : List (Comb σ)
  allPasses : List (RingAllPass σ)

structure Reverb (σ : Type) where
  left : ReverbChannel σ
  right : ReverbChannel σ

namespace Reverb

variable {σ : Type} [Scalar σ]

@[specialize] def params : List (ParamInfo σ) := [
  ⟨"Size", "", 0, 1, 0.5, false⟩,
  ⟨"Damping", "", 0, 1, 0.5, false⟩,
  ⟨"Width", "", 0, 1, 1, false⟩,
  ⟨"Mix", "", 0, 1, 0.25, false⟩]

/-- Comb lengths in frames at 44.1 kHz. -/
def combTuning : List Nat := [1116, 1188, 1277, 1356, 1422, 1491, 1557, 1617]

/-- All-pass lengths in frames at 44.1 kHz. -/
def allPassTuning : List Nat := [556, 441, 341, 225]

/-- How much longer the right channel is tuned. -/
def spread : Nat := 23

@[specialize] def sized (sampleRate : σ) (tuning : Nat) : Nat :=
  Scalar.toNat (Scalar.ofNat tuning * (sampleRate / 44100))

@[specialize] def channel (sampleRate : σ) (longer : Nat) : ReverbChannel σ :=
  ⟨combTuning.map fun t => Comb.ofSize (sized sampleRate (t + longer)),
    allPassTuning.map fun t => RingAllPass.ofSize (sized sampleRate (t + longer))⟩

@[specialize] def ofRate (sampleRate : σ) : Reverb σ :=
  ⟨channel sampleRate 0, channel sampleRate spread⟩

@[specialize] def clearChannel (c : ReverbChannel σ) : ReverbChannel σ :=
  ⟨c.combs.map Comb.clear, c.allPasses.map RingAllPass.clear⟩

@[specialize] def reset (r : Reverb σ) : Reverb σ :=
  ⟨clearChannel r.left, clearChannel r.right⟩

/-- The settings of a block. -/
structure Settings (σ : Type) where
  feedback : σ
  damp : σ
  /-- How much of the own channel and of the other one is heard. -/
  own : σ
  other : σ
  mix : σ

@[specialize] def settings (p : ParamValues σ) : Settings σ :=
  let width := p.at 2
  ⟨p.at 0 * 0.28 + 0.7, p.at 1 * 0.4, width / 2 + 0.5, (1 - width) / 2, p.at 3⟩

/-- The sum of all combs, on top of what is there already. -/
@[specialize] def stepCombs (feedback damp x : σ) : List (Comb σ) → σ → List (Comb σ) × σ
  | [], sum => ([], sum)
  | c :: rest, sum =>
    let (c, y) := c.step feedback damp x
    let (rest, sum) := stepCombs feedback damp x rest (sum + y)
    (c :: rest, sum)

@[specialize] def stepAllPasses : List (RingAllPass σ) → σ → List (RingAllPass σ) × σ
  | [], x => ([], x)
  | a :: rest, x =>
    let (a, y) := a.step x
    let (rest, z) := stepAllPasses rest y
    (a :: rest, z)

@[specialize] def stepChannel (s : Settings σ) (c : ReverbChannel σ) (x : σ) : ReverbChannel σ × σ :=
  match c with
  | ⟨combs, allPasses⟩ =>
    let (combs, wet) := stepCombs s.feedback s.damp x combs 0
    let (allPasses, wet) := stepAllPasses allPasses wet
    (⟨combs, allPasses⟩, wet)

@[specialize] def step (s : Settings σ) (r : Reverb σ) (x : Frame σ) : Reverb σ × Frame σ :=
  match r with
  | ⟨left, right⟩ =>
    let mono := (x.left + x.right) * 0.015
    let (left, l) := stepChannel s left mono
    let (right, r) := stepChannel s right mono
    (⟨left, right⟩, x.mix ⟨l * s.own + r * s.other, r * s.own + l * s.other⟩ s.mix)

end Reverb

end Multisample
