import Multisample.Effects.Convolution
import Multisample.Playback.Loading
import Multisample.Playback.Retirement

/-!
# The ensemble

The voices of all layers, together with the queue that takes what they let go
of.  Every operation that frees a slot hands the sound of that slot over.
-/

namespace Multisample

/-- What playback has let go of. -/
inductive Retired (σ γ : Type) where
  | sound (sound : Sound σ)
  | instrument (instrument : LoadedInstrument σ)
  | convolver (convolver : Convolver σ γ)

structure Ensemble (σ π γ : Type) where
  pool : VoicePool σ π
  queue : RetireQueue (Retired σ γ)

namespace Ensemble

variable {σ π γ : Type}

def retire (e : Ensemble σ π γ) (item : Retired σ γ) : Ensemble σ π γ :=
  { e with queue := e.queue.retire item }

def retireSounds (e : Ensemble σ π γ) (sounds : List (Sound σ)) : Ensemble σ π γ :=
  { e with queue := e.queue.retireAll (sounds.map .sound) }

/-- Starts a voice; the sound it takes the place of is retired. -/
@[specialize] def start [Scalar σ] [Scalar π] (e : Ensemble σ π γ) (v : VoiceStart σ π) :
    Ensemble σ π γ × Option Nat :=
  let started := e.pool.start v
  ({ e with pool := started.pool }.retireSounds started.released, started.slot)

def release (e : Ensemble σ π γ) (layer key channel : Nat) : Ensemble σ π γ :=
  { e with pool := e.pool.release layer key channel }

def releaseAll (e : Ensemble σ π γ) (layer : Option Nat) : Ensemble σ π γ :=
  { e with pool := e.pool.releaseAll layer }

def killAll (e : Ensemble σ π γ) (layer : Option Nat) : Ensemble σ π γ :=
  let (pool, sounds) := e.pool.killAll layer
  { e with pool }.retireSounds sounds

/-- Frees the voices that have finished. -/
def endBlock (e : Ensemble σ π γ) : Ensemble σ π γ :=
  let (pool, sounds) := e.pool.endBlock
  { e with pool }.retireSounds sounds

def collect (e : Ensemble σ π γ) : Ensemble σ π γ × Nat :=
  let (queue, freed) := e.queue.collect
  ({ e with queue }, freed)

end Ensemble

end Multisample
