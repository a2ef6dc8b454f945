import Multisample.Audio.Frame

/-!
# Second-order filters

Coefficients for the usual seven responses, and a stereo filter in transposed
form whose two channels share them.
-/

namespace Multisample

inductive Response where
  | lowPass
  | highPass
  | bandPass
  | notch
  | peak
  | lowShelf
  | highShelf
deriving DecidableEq, Repr, Inhabited

namespace Response

/-- The responses in the order a parameter selects them. -/
def all : List Response :=
  [lowPass, highPass, bandPass, notch, peak, lowShelf, highShelf]

/-- The response at a position; past the end, the last. -/
def ofIndex (index : Nat) : Response :=
  all.getD index highShelf

end Response

/-- A filter with its leading denominator coefficient divided out. -/
structure Coefficients (π : Type) where
  b0 : π
  b1 : π
  b2 : π
  a1 : π
  a2 : π
deriving Repr

namespace Coefficients

variable {π : Type} [Elementary π]

/-- Lets everything through. -/
@[specialize] def identity : Coefficients π :=
  ⟨1, 0, 0, 0, 0⟩

/-- Numerator and denominator before the division. -/
structure Raw (π : Type) where
  b0 : π
  b1 : π
  b2 : π
  a0 : π
  a1 : π
  a2 : π

@[specialize] def Raw.normalize (r : Raw π) : Coefficients π :=
  ⟨r.b0 / r.a0, r.b1 / r.a0, r.b2 / r.a0, r.a1 / r.a0, r.a2 / r.a0⟩

/-- The polynomials of a response for a cosine `c`, a bandwidth `alpha` and an amplitude `a`. -/
@[specialize] def raw (kind : Response) (c alpha a : π) : Raw π :=
  match kind with
  | .lowPass =>
    let b1 := 1 - c
    ⟨b1 / 2, b1, b1 / 2, 1 + alpha, -2 * c, 1 - alpha⟩
  | .highPass =>
    let b0 := (1 + c) / 2
    ⟨b0, -(1 + c), b0, 1 + alpha, -2 * c, 1 - alpha⟩
  | .bandPass => ⟨alpha, 0, -alpha, 1 + alpha, -2 * c, 1 - alpha⟩
  | .notch => ⟨1, -2 * c, 1, 1 + alpha, -2 * c, 1 - alpha⟩
  | .peak =>
    ⟨1 + alpha * a, -2 * c, 1 - alpha * a, 1 + alpha / a, -2 * c, 1 - alpha / a⟩
  | .lowShelf =>
    let s := 2 * Elementary.sqrt a * alpha
    ⟨a * ((a + 1) - (a - 1) * c + s), 2 * a * ((a - 1) - (a + 1) * c),
      a * ((a + 1) - (a - 1) * c - s), (a + 1) + (a - 1) * c + s,
      -2 * ((a - 1) + (a + 1) * c), (a + 1) + (a - 1) * c - s⟩
  | .highShelf =>
    let s := 2 * Elementary.sqrt a * alpha
    ⟨a * ((a + 1) + (a - 1) * c + s), -2 * a * ((a - 1) + (a + 1) * c),
      a * ((a + 1) + (a - 1) * c - s), (a + 1) - (a - 1) * c + s,
      2 * ((a - 1) - (a + 1) * c), (a + 1) - (a - 1) * c - s⟩

/-- A filter for a frequency; the gain counts for peaks and shelves only. -/
@[specialize] def design (kind : Response) (sampleRate frequency q gainDb : π) : Coefficients π :=
  let frequency := Scalar.clamp frequency 1 (sampleRate * 0.49)
  let q := Scalar.max q 0.01
  let w := 2 * Elementary.pi * frequency / sampleRate
  let alpha := Elementary.sin w / (2 * q)
  (raw kind (Elementary.cos w) alpha (Elementary.pow 10 (gainDb / 40))).normalize

end Coefficients

/-- The memory of one channel. -/
structure BiquadState (π : Type) where
  z1 : π
  z2 : π
deriving Repr

structure Biquad (π : Type) where
  coefficients : Coefficients π
  left : BiquadState π
  right : BiquadState π
deriving Repr

namespace Biquad

variable {σ π : Type} [Elementary π]

@[specialize] def identity : Biquad π :=
  ⟨Coefficients.identity, ⟨0, 0⟩, ⟨0, 0⟩⟩

@[specialize] def reset (b : Biquad π) : Biquad π :=
  { b with left := ⟨0, 0⟩, right := ⟨0, 0⟩ }

/-- One sample through one channel. -/
@[specialize] def stepChannel (c : Coefficients π) (s : BiquadState π) (x : π) :
    BiquadState π × π :=
  let y := c.b0 * x + s.z1
  (⟨c.b1 * x - c.a1 * y + s.z2, c.b2 * x - c.a2 * y⟩, y)

@[specialize] def step [Precision σ π] (b : Biquad π) (x : Frame σ) : Biquad π × Frame σ :=
  let (left, l) := stepChannel b.coefficients b.left (Precision.widen x.left)
  let (right, r) := stepChannel b.coefficients b.right (Precision.widen x.right)
  ({ b with left, right }, ⟨Precision.narrow l, Precision.narrow r⟩)

end Biquad

end Multisample
