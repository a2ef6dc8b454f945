import Multisample.Effects.Biquad
import Multisample.Effects.Parameter

/-!
# Filter and equalizer

One second-order filter of any response, and three in a row for low, middle
and high frequencies.  Coefficients are computed anew when a parameter has
changed.
-/

namespace Multisample

/-- Whether two lists of values agree; a value that differs from itself never does. -/
@[specialize] def sameValues {σ : Type} [Scalar σ] : List σ → List σ → Bool
  | [], [] => true
  | x :: xs, y :: ys => Scalar.eq x y && sameValues xs ys
  | _, _ => false

structure Filter (σ π : Type) where
  sampleRate : σ
  biquad : Biquad π
  /-- The values the coefficients were computed from. -/
  applied : Option (List σ)
deriving Repr

namespace Filter

variable {σ π : Type}

@[specialize] def params [Scalar σ] : List (ParamInfo σ) := [
  ⟨"Type", "", 0, 6, 0, true⟩,
  ⟨"Cutoff", "Hz", 20, 20000, 20000, false⟩,
  ⟨"Resonance", "Q", 0.1, 10, 0.707, false⟩,
  ⟨"Gain", "dB", -24, 24, 0, false⟩]

variable [Elementary σ] [Elementary π]

@[specialize] def ofRate (sampleRate : σ) : Filter σ π :=
  ⟨sampleRate, Biquad.identity, none⟩

@[specialize] def reset (f : Filter σ π) : Filter σ π :=
  { f with biquad := f.biquad.reset }

@[specialize] def setRate (f : Filter σ π) (sampleRate : σ) : Filter σ π :=
  { f.reset with sampleRate, applied := none }

variable [Precision σ π]

/-- The coefficients for a set of values. -/
@[specialize] def design (sampleRate : σ) (p : ParamValues σ) : Coefficients π :=
  Coefficients.design (Response.ofIndex (Scalar.toNat (Scalar.max (Scalar.round (p.at 0)) 0)))
    (Precision.widen sampleRate) (Precision.widen (p.at 1)) (Precision.widen (p.at 2))
    (Precision.widen (p.at 3))

@[specialize] def update (f : Filter σ π) (p : ParamValues σ) : Filter σ π :=
  let wanted := p.take 4
  if f.applied.any (sameValues wanted) then f
  else
    { f with
      applied := some wanted
      biquad := { f.biquad with coefficients := design f.sampleRate p } }

@[specialize] def step (f : Filter σ π) (x : Frame σ) : Filter σ π × Frame σ :=
  let (biquad, y) := f.biquad.step x
  ({ f with biquad }, y)

end Filter

structure Equalizer (σ π : Type) where
  sampleRate : σ
  low : Biquad π
  mid : Biquad π
  high : Biquad π
  applied : Option (List σ)
deriving Repr

namespace Equalizer

variable {σ π : Type}

@[specialize] def params [Scalar σ] : List (ParamInfo σ) := [
  ⟨"Low Frequency", "Hz", 20, 1000, 200, false⟩,
  ⟨"Low Gain", "dB", -18, 18, 0, false⟩,
  ⟨"Mid Frequency", "Hz", 200, 8000, 1000, false⟩,
  ⟨"Mid Gain", "dB", -18, 18, 0, false⟩,
  ⟨"Mid Q", "Q", 0.1, 10, 1, false⟩,
  ⟨"High Frequency", "Hz", 1000, 16000, 6000, false⟩,
  ⟨"High Gain", "dB", -18, 18, 0, false⟩]

variable [Elementary σ] [Elementary π]

@[specialize] def ofRate (sampleRate : σ) : Equalizer σ π :=
  ⟨sampleRate, Biquad.identity, Biquad.identity, Biquad.identity, none⟩

@[specialize] def reset (e : Equalizer σ π) : Equalizer σ π :=
  { e with low := e.low.reset, mid := e.mid.reset, high := e.high.reset }

@[specialize] def setRate (e : Equalizer σ π) (sampleRate : σ) : Equalizer σ π :=
  { e.reset with sampleRate, applied := none }

variable [Precision σ π]

/-- The resonance of the two shelves. -/
@[specialize] def shelfQ : π := 0.707

@[specialize] def update (e : Equalizer σ π) (p : ParamValues σ) : Equalizer σ π :=
  let wanted := p.take 7
  if e.applied.any (sameValues wanted) then e
  else
    let value (index : Nat) : π := Precision.widen (p.at index)
    let rate : π := Precision.widen e.sampleRate
    { e with
      applied := some wanted
      low := { e.low with
        coefficients := Coefficients.design .lowShelf rate (value 0) shelfQ (value 1) }
      mid := { e.mid with
        coefficients := Coefficients.design .peak rate (value 2) (value 4) (value 3) }
      high := { e.high with
        coefficients := Coefficients.design .highShelf rate (value 5) shelfQ (value 6) } }

@[specialize] def step (e : Equalizer σ π) (x : Frame σ) : Equalizer σ π × Frame σ :=
  let (low, x) := e.low.step x
  let (mid, x) := e.mid.step x
  let (high, x) := e.high.step x
  ({ e with low, mid, high }, x)

end Equalizer

end Multisample
