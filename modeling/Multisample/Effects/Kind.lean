import Multisample.Effects.Compressor
import Multisample.Effects.Convolution
import Multisample.Effects.Delay
import Multisample.Effects.Distortion
import Multisample.Effects.Filter
import Multisample.Effects.Reverb
import Multisample.Effects.Sweep

/-!
# The ten effects

Each kind of effect has a place, a name, parameters and a state.  An effect
reads its settings at the start of a block and then runs frame by frame, so its
output does not hang on where blocks are cut.
-/

namespace Multisample

inductive EffectKind where
  | distortion
  | compressor
  | filter
  | equalizer
  | chorus
  | flanger
  | phaser
  | delay
  | reverb
  | convolution
deriving DecidableEq, Repr, Inhabited

namespace EffectKind

/-- All effects in their default order. -/
def all : List EffectKind :=
  [distortion, compressor, filter, equalizer, chorus, flanger, phaser, delay, reverb, convolution]

def index : EffectKind → Nat
  | distortion => 0
  | compressor => 1
  | filter => 2
  | equalizer => 3
  | chorus => 4
  | flanger => 5
  | phaser => 6
  | delay => 7
  | reverb => 8
  | convolution => 9

def ofIndex? (index : Nat) : Option EffectKind :=
  all[index]?

def name : EffectKind → String
  | distortion => "Distortion"
  | compressor => "Compressor"
  | filter => "Filter"
  | equalizer => "EQ"
  | chorus => "Chorus"
  | flanger => "Flanger"
  | phaser => "Phaser"
  | delay => "Delay"
  | reverb => "Reverb"
  | convolution => "Convolution Reverb"

@[specialize] def params {σ : Type} [Elementary σ] : EffectKind → List (ParamInfo σ)
  | distortion => Distortion.params
  | compressor => Compressor.params
  | filter => Filter.params
  | equalizer => Equalizer.params
  | chorus => Chorus.params
  | flanger => Flanger.params
  | phaser => Phaser.params
  | delay => Delay.params
  | reverb => Reverb.params
  | convolution => ConvolutionReverb.params

end EffectKind

/-- The state of an effect. -/
inductive Effect (σ π γ : Type) where
  | distortion
  | compressor (state : Compressor σ)
  | filter (state : Filter σ π)
  | equalizer (state : Equalizer σ π)
  | chorus (state : Chorus σ)
  | flanger (state : Flanger σ)
  | phaser (state : Phaser σ)
  | delay (state : Delay σ)
  | reverb (state : Reverb σ)
  | convolution (convolver : Option (Convolver σ γ))

namespace Effect

variable {σ π γ : Type}

def kind : Effect σ π γ → EffectKind
  | distortion => .distortion
  | compressor _ => .compressor
  | filter _ => .filter
  | equalizer _ => .equalizer
  | chorus _ => .chorus
  | flanger _ => .flanger
  | phaser _ => .phaser
  | delay _ => .delay
  | reverb _ => .reverb
  | convolution _ => .convolution

def convolver? : Effect σ π γ → Option (Convolver σ γ)
  | convolution c => c
  | _ => none

variable [Elementary σ] [Elementary π] [Precision σ π] [Transform σ γ]

@[specialize] def ofKind (sampleRate : σ) : EffectKind → Effect σ π γ
  | .distortion => distortion
  | .compressor => compressor (Compressor.ofRate sampleRate)
  | .filter => filter (Filter.ofRate sampleRate)
  | .equalizer => equalizer (Equalizer.ofRate sampleRate)
  | .chorus => chorus (Chorus.ofRate sampleRate)
  | .flanger => flanger (Flanger.ofRate sampleRate)
  | .phaser => phaser (Phaser.ofRate sampleRate)
  | .delay => delay (Delay.ofRate sampleRate)
  | .reverb => reverb (Reverb.ofRate sampleRate)
  | .convolution => convolution none

/-- Clears delay lines, envelopes and filter memories. -/
@[specialize] def reset : Effect σ π γ → Effect σ π γ
  | distortion => distortion
  | compressor s => compressor s.reset
  | filter s => filter s.reset
  | equalizer s => equalizer s.reset
  | chorus s => chorus s.reset
  | flanger s => flanger s.reset
  | phaser s => phaser s.reset
  | delay s => delay s.reset
  | reverb s => reverb s.reset
  | convolution c => convolution (c.map Convolver.reset)

/-- Moves to another sample rate and clears the state; a convolver, built for one rate, is dropped. -/
@[specialize] def setRate (sampleRate : σ) : Effect σ π γ → Effect σ π γ
  | distortion => distortion
  | compressor s => compressor { s.reset with sampleRate }
  | filter s => filter (s.setRate sampleRate)
  | equalizer s => equalizer (s.setRate sampleRate)
  | chorus _ => chorus (Chorus.ofRate sampleRate)
  | flanger _ => flanger (Flanger.ofRate sampleRate)
  | phaser s => phaser { s.reset with sampleRate }
  | delay _ => delay (Delay.ofRate sampleRate)
  | reverb _ => reverb (Reverb.ofRate sampleRate)
  | convolution _ => convolution none

/-- Runs a stepping device over a block and wraps its state. -/
@[specialize] def runWrapped {s : Type} (wrap : s → Effect σ π γ) (step : s → Frame σ → s × Frame σ)
    (state : s) (block : List (Frame σ)) : Effect σ π γ × List (Frame σ) :=
  let (state, out) := runOver step state block
  (wrap state, out)

/-- Processes a block with one set of parameter values. -/
@[specialize] def process (p : ParamValues σ) (ctx : BlockContext π) (e : Effect σ π γ)
    (block : List (Frame σ)) : Effect σ π γ × List (Frame σ) :=
  match e with
  | distortion =>
    let settings := Distortion.settings p
    (distortion, block.map (Distortion.apply settings))
  | compressor s => runWrapped compressor (Compressor.step (s.settings p)) s block
  | filter s => runWrapped filter Filter.step (s.update p) block
  | equalizer s => runWrapped equalizer Equalizer.step (s.update p) block
  | chorus s => runWrapped chorus (Chorus.step p) s block
  | flanger s => runWrapped flanger (Flanger.step p) s block
  | phaser s => runWrapped phaser (Phaser.step p) s block
  | delay s => runWrapped delay (Delay.step (s.settings p ctx)) s block
  | reverb s => runWrapped reverb (Reverb.step (Reverb.settings p)) s block
  | convolution none => (convolution none, block)
  | convolution (some c) =>
    runWrapped (fun c => convolution (some c))
      (fun c x =>
        let (c, wet) := c.step x
        (c, x.mix wet (p.at 0)))
      c block

end Effect

end Multisample
