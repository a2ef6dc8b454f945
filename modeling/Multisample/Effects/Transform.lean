import Multisample.Numeric.Machine

/-!
# Spectra

Convolution goes through a transform that turns circular convolution into a
product.  The class says what is needed of it; the instance for single
precision is a fast Fourier transform computed in double precision.
-/

namespace Multisample

/-- A transform of blocks of samples `σ` into spectra `γ`; the inverse leaves out the division by
the number of samples. -/
class Transform (σ : Type) (γ : outParam Type) where
  forward : List σ → γ
  inverse : γ → List σ
  zero : γ
  add : γ → γ → γ
  mul : γ → γ → γ

structure Complex where
  re : Float
  im : Float
deriving Inhabited, Repr

namespace Complex

@[inline] def add (x y : Complex) : Complex := ⟨x.re + y.re, x.im + y.im⟩

@[inline] def sub (x y : Complex) : Complex := ⟨x.re - y.re, x.im - y.im⟩

@[inline] def mul (x y : Complex) : Complex :=
  ⟨x.re * y.re - x.im * y.im, x.re * y.im + x.im * y.re⟩

/-- The point of the unit circle at an angle. -/
def unit (angle : Float) : Complex := ⟨angle.cos, angle.sin⟩

/-- Every second element, from the first or from the second on. -/
def every2 (xs : Array Complex) (start : Nat) : Array Complex :=
  Array.ofFn fun i : Fin (xs.size / 2) => xs.getD (2 * i.val + start) ⟨0, 0⟩

/-- The transform of `2 ^ level` numbers by halving; `turn` is plus or minus a whole turn. -/
def fourier (turn : Float) : Nat → Array Complex → Array Complex
  | 0, xs => xs
  | level + 1, xs =>
    let even := fourier turn level (every2 xs 0)
    let odd := fourier turn level (every2 xs 1)
    let half := 1 <<< level
    let step := turn / (2 * half).toFloat
    let turned := Array.ofFn fun i : Fin half =>
      mul (unit (step * i.val.toFloat)) (odd.getD i.val ⟨0, 0⟩)
    Array.ofFn fun i : Fin (2 * half) =>
      if i.val < half then add (even.getD i.val ⟨0, 0⟩) (turned.getD i.val ⟨0, 0⟩)
      else sub (even.getD (i.val - half) ⟨0, 0⟩) (turned.getD (i.val - half) ⟨0, 0⟩)

def wholeTurn : Float := 2 * 3.14159265358979323846

end Complex

/-- The transform of 256 samples. -/
instance instTransformFloat32 : Transform Float32 (Array Complex) where
  forward xs :=
    Complex.fourier (-Complex.wholeTurn) 8 (xs.map fun x => (⟨x.toFloat, 0⟩ : Complex)).toArray
  inverse s := ((Complex.fourier Complex.wholeTurn 8 s).map fun z => z.re.toFloat32).toList
  zero := Array.replicate 256 ⟨0, 0⟩
  add x y := Array.zipWith Complex.add x y
  mul x y := Array.zipWith Complex.mul x y

end Multisample
