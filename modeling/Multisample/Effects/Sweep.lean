import Multisample.Effects.DelayLine
import Multisample.Effects.Oscillator
import Multisample.Effects.Parameter

/-!
# Swept effects

Chorus and flanger read a short delay whose length an oscillator sweeps; the
phaser sweeps a row of all-pass filters instead.  The two channels run a part of
a turn apart.
-/

namespace Multisample

/-- One channel of a chorus or a flanger. -/
structure SweptLine (σ : Type) where
  line : DelayLine σ
  oscillator : Oscillator σ

namespace SweptLine

@[specialize] def reset {σ : Type} [Scalar σ] (s : SweptLine σ) : SweptLine σ :=
  ⟨s.line.clear, s.oscillator.reset⟩

end SweptLine

structure Chorus (σ : Type) where
  sampleRate : σ
  left : SweptLine σ
  right : SweptLine σ

namespace Chorus

variable {σ : Type}

@[specialize] def params [Scalar σ] : List (ParamInfo σ) := [
  ⟨"Rate", "Hz", 0.1, 5, 1.5, false⟩,
  ⟨"Depth", "ms", 0, 10, 2, false⟩,
  ⟨"Delay", "ms", 5, 30, 15, false⟩,
  ⟨"Mix", "", 0, 1, 0.5, false⟩]

variable [Elementary σ]

/-- The longest base delay plus the deepest modulation, with room to spare. -/
@[specialize] def lineFrames (sampleRate : σ) : Nat :=
  Scalar.toNat (45 * 0.001 * sampleRate)

@[specialize] def ofRate (sampleRate : σ) : Chorus σ :=
  let line := DelayLine.ofFrames (lineFrames sampleRate)
  ⟨sampleRate, ⟨line, Oscillator.ofPhase 0⟩, ⟨line, Oscillator.ofPhase 0.25⟩⟩

@[specialize] def reset (c : Chorus σ) : Chorus σ :=
  { c with left := c.left.reset, right := c.right.reset }

/-- The delay in frames for a value of the oscillator. -/
@[specialize] def delay (sampleRate : σ) (p : ParamValues σ) (modulation : σ) : σ :=
  let ms := 0.001 * sampleRate
  p.at 2 * ms + p.at 1 * ms * modulation

/-- One sample of one channel: the delayed signal. -/
@[specialize] def stepLine (sampleRate : σ) (p : ParamValues σ) (s : SweptLine σ) (x : σ) :
    SweptLine σ × σ :=
  match s with
  | ⟨line, oscillator⟩ =>
    let wanted := delay sampleRate p oscillator.value
    let line := line.push x
    let wet := line.read wanted
    (⟨line, oscillator.advance (p.at 0) sampleRate⟩, wet)

@[specialize] def step (p : ParamValues σ) (c : Chorus σ) (x : Frame σ) : Chorus σ × Frame σ :=
  match c with
  | ⟨sampleRate, left, right⟩ =>
    let (left, l) := stepLine sampleRate p left x.left
    let (right, r) := stepLine sampleRate p right x.right
    (⟨sampleRate, left, right⟩, x.mix ⟨l, r⟩ (p.at 3))

end Chorus

structure Flanger (σ : Type) where
  sampleRate : σ
  left : SweptLine σ
  right : SweptLine σ

namespace Flanger

variable {σ : Type}

@[specialize] def params [Scalar σ] : List (ParamInfo σ) := [
  ⟨"Rate", "Hz", 0.05, 5, 0.25, false⟩,
  ⟨"Depth", "", 0, 1, 0.7, false⟩,
  ⟨"Feedback", "", -0.95, 0.95, 0.5, false⟩,
  ⟨"Mix", "", 0, 1, 0.5, false⟩]

variable [Elementary σ]

/-- The shortest delay plus the widest sweep, in milliseconds, as frames. -/
@[specialize] def lineFrames (sampleRate : σ) : Nat :=
  Scalar.toNat ((0.5 + 5) * 0.001 * sampleRate) + 2

@[specialize] def ofRate (sampleRate : σ) : Flanger σ :=
  let line := DelayLine.ofFrames (lineFrames sampleRate)
  ⟨sampleRate, ⟨line, Oscillator.ofPhase 0⟩, ⟨line, Oscillator.ofPhase 0.1⟩⟩

@[specialize] def reset (f : Flanger σ) : Flanger σ :=
  { f with left := f.left.reset, right := f.right.reset }

/-- The delay in frames for a value of the oscillator from 0 to 1. -/
@[specialize] def delay (sampleRate : σ) (p : ParamValues σ) (sweep : σ) : σ :=
  (0.5 + 5 * p.at 1 * sweep) * (0.001 * sampleRate)

/-- One sample of one channel: the delayed signal, part of which is fed back. -/
@[specialize] def stepLine (sampleRate : σ) (p : ParamValues σ) (s : SweptLine σ) (x : σ) :
    SweptLine σ × σ :=
  match s with
  | ⟨line, oscillator⟩ =>
    let wet := line.read (delay sampleRate p oscillator.unipolar)
    (⟨line.push (x + wet * p.at 2), oscillator.advance (p.at 0) sampleRate⟩, wet)

@[specialize] def step (p : ParamValues σ) (f : Flanger σ) (x : Frame σ) : Flanger σ × Frame σ :=
  match f with
  | ⟨sampleRate, left, right⟩ =>
    let (left, l) := stepLine sampleRate p left x.left
    let (right, r) := stepLine sampleRate p right x.right
    (⟨sampleRate, left, right⟩, x.mix ⟨l, r⟩ (p.at 3))

end Flanger

/-- A first-order all-pass filter. -/
structure AllPass (σ : Type) where
  x1 : σ
  y1 : σ
deriving Repr

namespace AllPass

variable {σ : Type} [Scalar σ]

@[specialize] def silent : AllPass σ :=
  ⟨0, 0⟩

@[specialize] def step (coefficient : σ) (a : AllPass σ) (x : σ) : AllPass σ × σ :=
  let y := coefficient * x + a.x1 - coefficient * a.y1
  (⟨x, y⟩, y)

/-- A sample through a row of filters with one coefficient. -/
@[specialize] def stepAll (coefficient : σ) : List (AllPass σ) → σ → List (AllPass σ) × σ
  | [], x => ([], x)
  | a :: rest, x =>
    let (a, y) := step coefficient a x
    let (rest, z) := stepAll coefficient rest y
    (a :: rest, z)

end AllPass

/-- One channel of a phaser. -/
structure PhaserChannel (σ : Type) where
  stages : List (AllPass σ)
  last : σ
  oscillator : Oscillator σ

structure Phaser (σ : Type) where
  sampleRate : σ
  left : PhaserChannel σ
  right : PhaserChannel σ

namespace Phaser

variable {σ : Type}

@[specialize] def params [Scalar σ] : List (ParamInfo σ) := [
  ⟨"Rate", "Hz", 0.05, 5, 0.5, false⟩,
  ⟨"Depth", "", 0, 1, 0.7, false⟩,
  ⟨"Center", "Hz", 200, 5000, 1000, false⟩,
  ⟨"Feedback", "", 0, 0.9, 0.5, false⟩,
  ⟨"Mix", "", 0, 1, 0.5, false⟩]

variable [Elementary σ]

/-- Four silent stages. -/
@[specialize] def channel (phase : σ) : PhaserChannel σ :=
  ⟨List.replicate 4 AllPass.silent, 0, Oscillator.ofPhase phase⟩

@[specialize] def ofRate (sampleRate : σ) : Phaser σ :=
  ⟨sampleRate, channel 0, channel 0.25⟩

@[specialize] def resetChannel (c : PhaserChannel σ) : PhaserChannel σ :=
  ⟨List.replicate 4 AllPass.silent, 0, c.oscillator.reset⟩

@[specialize] def reset (f : Phaser σ) : Phaser σ :=
  { f with left := resetChannel f.left, right := resetChannel f.right }

/-- The all-pass coefficient for a break frequency, kept below the limit of the rate. -/
@[specialize] def coefficient (sampleRate frequency : σ) : σ :=
  let t := Elementary.tan
    (Elementary.pi * Scalar.min frequency (sampleRate * 0.45) / sampleRate)
  (t - 1) / (t + 1)

@[specialize] def stepChannel (sampleRate : σ) (p : ParamValues σ) (c : PhaserChannel σ) (x : σ) :
    PhaserChannel σ × σ :=
  let sweep := c.oscillator.value
  let frequency := p.at 2 * Elementary.exp2 (2 * p.at 1 * sweep)
  let (stages, y) := AllPass.stepAll (coefficient sampleRate frequency) c.stages
    (x + c.last * p.at 3)
  (⟨stages, y, c.oscillator.advance (p.at 0) sampleRate⟩, y)

@[specialize] def step (p : ParamValues σ) (f : Phaser σ) (x : Frame σ) : Phaser σ × Frame σ :=
  let (left, l) := stepChannel f.sampleRate p f.left x.left
  let (right, r) := stepChannel f.sampleRate p f.right x.right
  ({ f with left, right }, x.mix ⟨l, r⟩ (p.at 4))

end Phaser

end Multisample
