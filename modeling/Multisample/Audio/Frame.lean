import Multisample.Numeric.Scalar

/-!
# Stereo frames

Everything past the sample files is stereo.  A block is a list of frames; a
device that keeps a state runs over a block frame by frame.
-/

namespace Multisample

structure Frame (σ : Type) where
  left : σ
  right : σ
deriving Repr, DecidableEq, Inhabited

namespace Frame

variable {σ : Type}

@[inline] def map {τ : Type} (f : σ → τ) (x : Frame σ) : Frame τ :=
  ⟨f x.left, f x.right⟩

variable [Scalar σ]

@[inline] def silence : Frame σ :=
  ⟨0, 0⟩

@[specialize] def add (x y : Frame σ) : Frame σ :=
  ⟨x.left + y.left, x.right + y.right⟩

@[specialize] def scale (x : Frame σ) (gain : σ) : Frame σ :=
  ⟨x.left * gain, x.right * gain⟩

/-- The point `amount` of the way from one frame to another. -/
@[specialize] def blend (x y : Frame σ) (amount : σ) : Frame σ :=
  ⟨x.left + (y.left - x.left) * amount, x.right + (y.right - x.right) * amount⟩

/-- A dry frame faded out by `amount` with a wet one faded in by as much. -/
@[specialize] def mix (dry wet : Frame σ) (amount : σ) : Frame σ :=
  ⟨dry.left * (1 - amount) + wet.left * amount, dry.right * (1 - amount) + wet.right * amount⟩

end Frame

/-- Runs a device over a list: the state left behind and what came out, in order. -/
@[specialize] def runOver {s α β : Type} (step : s → α → s × β) : s → List α → s × List β
  | state, [] => (state, [])
  | state, x :: rest =>
    let (state, y) := step state x
    let (state, ys) := runOver step state rest
    (state, y :: ys)

theorem runOver_append {s α β : Type} (step : s → α → s × β) (state : s) (xs ys : List α) :
    runOver step state (xs ++ ys) =
      ((runOver step (runOver step state xs).1 ys).1,
        (runOver step state xs).2 ++ (runOver step (runOver step state xs).1 ys).2) := by
  induction xs generalizing state with
  | nil => simp [runOver]
  | cons x xs ih => simp [runOver, ih]

end Multisample
