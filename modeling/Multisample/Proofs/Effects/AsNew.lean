import Mathlib.Data.Real.Basic
import Multisample.Proofs.Effects.Tuned

/-!
# A reset makes an effect as new

An effect is used in any way: it processes blocks, is cleared, moves to another
sample rate, and a convolution reverb is given impulse responses.  Whatever was
done, after a reset it makes of any further blocks what an effect makes of them
that was just built for the same rate.  Not every state is restored to the letter:
the rings of a reverb stay where they are, and filters keep their coefficients.
-/

namespace Multisample

variable {σ π γ : Type} [Elementary σ] [Elementary π] [Precision σ π] [Transform σ γ]

/-! ## Delay lines and oscillators -/

@[simp] theorem DelayLine.clear_push (d : DelayLine σ) (x : σ) : (d.push x).clear = d.clear := by
  simp [push, clear]

@[simp] theorem DelayLine.clear_clear (d : DelayLine σ) : d.clear.clear = d.clear := by
  simp [clear]

@[simp] theorem DelayLine.clear_ofFrames (frames : ℕ) :
    (ofFrames frames : DelayLine σ).clear = ofFrames frames := by
  simp [clear, ofFrames]

@[simp] theorem Oscillator.reset_advance (o : Oscillator σ) (rate sampleRate : σ) :
    (o.advance rate sampleRate).reset = o.reset :=
  rfl

/-! ## Frames leave nothing that a reset does not clear -/

section frames

omit [Elementary π] [Precision σ π] [Transform σ γ]

theorem Chorus.reset_step (p : ParamValues σ) (c : Chorus σ) (x : Frame σ) :
    (step p c x).1.reset = c.reset := by
  simp [step, stepLine, reset, SweptLine.reset]

theorem Flanger.reset_step (p : ParamValues σ) (f : Flanger σ) (x : Frame σ) :
    (step p f x).1.reset = f.reset := by
  simp [step, stepLine, reset, SweptLine.reset]

theorem Phaser.reset_step (p : ParamValues σ) (f : Phaser σ) (x : Frame σ) :
    (step p f x).1.reset = f.reset :=
  rfl

theorem Delay.reset_step (k : Settings σ) (d : Delay σ) (x : Frame σ) :
    (step k d x).1.reset = d.reset := by
  unfold step
  dsimp only
  split <;> simp [reset]

theorem Compressor.reset_step (k : Settings σ) (c : Compressor σ) (x : Frame σ) :
    (step k c x).1.reset = c.reset :=
  rfl

theorem Convolver.reset_step [Transform σ γ] (c : Convolver σ γ) (x : Frame σ) :
    (c.step x).1.reset = c.reset := by
  unfold step
  dsimp only
  split <;> simp [reset, resetChannel, turnOver]

end frames

/-! ## What was just built is clear -/

section built

omit [Elementary π] [Precision σ π] [Transform σ γ]

theorem Chorus.reset_ofRate (rate : σ) : (ofRate rate).reset = ofRate rate := by
  simp [ofRate, reset, SweptLine.reset, Oscillator.ofPhase, Oscillator.reset]

theorem Flanger.reset_ofRate (rate : σ) : (ofRate rate).reset = ofRate rate := by
  simp [ofRate, reset, SweptLine.reset, Oscillator.ofPhase, Oscillator.reset]

theorem Delay.reset_ofRate (rate : σ) : (ofRate rate).reset = ofRate rate := by
  simp [ofRate, reset]

theorem Convolver.reset_build [Scalar π] [Precision σ π] [Transform σ γ] (id : ℕ)
    (a : AudioBuffer σ) (rate : ℕ) :
    (build π id a rate : Convolver σ γ).reset = build π id a rate := by
  simp [build, reset, resetChannel, channel]

end built

/-- The kinds whose state a reset restores, but not to the letter. -/
def EffectKind.looselyReset : List EffectKind :=
  [filter, equalizer, reverb]

namespace Effect

section resets

omit [Precision σ π]

theorem kind_reset (e : Effect σ π γ) : e.reset.kind = e.kind := by
  cases e <;> rfl

theorem reset_reset (e : Effect σ π γ) : e.reset.reset = e.reset := by
  cases e with
  | reverb r => exact congrArg reverb r.reset_reset
  | convolution c =>
      cases c with
      | none => rfl
      | some c => simp [reset, Convolver.reset, Convolver.resetChannel]
  | chorus c => simp [reset, Chorus.reset, SweptLine.reset, Oscillator.reset]
  | flanger f => simp [reset, Flanger.reset, SweptLine.reset, Oscillator.reset]
  | delay d => simp [reset, Delay.reset]
  | _ => rfl

theorem reset_setRate (e : Effect σ π γ) (rate : σ) : (e.setRate rate).reset = e.setRate rate := by
  cases e with
  | reverb r => exact congrArg reverb (Reverb.reset_ofRate rate)
  | chorus c => exact congrArg chorus (Chorus.reset_ofRate rate)
  | flanger f => exact congrArg flanger (Flanger.reset_ofRate rate)
  | delay d => exact congrArg delay (Delay.reset_ofRate rate)
  | _ => rfl

theorem reset_ofKind (rate : σ) (kind : EffectKind) :
    (ofKind rate kind : Effect σ π γ).reset = ofKind rate kind := by
  have hrate : (ofKind rate kind : Effect σ π γ).setRate rate = ofKind rate kind := by
    cases kind <;> rfl
  rw [← hrate, reset_setRate]

/-- A wrapped device that is cleared as well after frames as before them. -/
theorem reset_runWrapped {s : Type} (wrap : s → Effect σ π γ) {step : s → Frame σ → s × Frame σ}
    {reset : s → s} (hwrap : ∀ state, (wrap state).reset = wrap (reset state))
    (hstep : ∀ state x, reset (step state x).1 = reset state) (state : s)
    (block : List (Frame σ)) : (runWrapped wrap step state block).1.reset = (wrap state).reset := by
  have hrun : reset (runOver step state block).1 = reset state :=
    runOver_keeps (P := fun later => reset later = reset state)
      (fun later x h => (hstep later x).trans h) block rfl
  rw [hwrap, ← hrun, ← hwrap]
  rfl

end resets

theorem kind_process (p : ParamValues σ) (ctx : BlockContext π) (e : Effect σ π γ)
    (block : List (Frame σ)) : (e.process p ctx block).1.kind = e.kind := by
  cases e with
  | convolution c => cases c <;> rfl
  | _ => rfl

theorem reset_process (p : ParamValues σ) (ctx : BlockContext π) (e : Effect σ π γ)
    (block : List (Frame σ)) (h : e.kind ∉ EffectKind.looselyReset) :
    (e.process p ctx block).1.reset = e.reset := by
  cases e with
  | filter | equalizer | reverb => simp [kind, EffectKind.looselyReset] at h
  | distortion => rfl
  | compressor c =>
      exact reset_runWrapped compressor (fun _ => rfl) (Compressor.reset_step _) c block
  | chorus c => exact reset_runWrapped chorus (fun _ => rfl) (Chorus.reset_step p) c block
  | flanger f => exact reset_runWrapped flanger (fun _ => rfl) (Flanger.reset_step p) f block
  | phaser f => exact reset_runWrapped phaser (fun _ => rfl) (Phaser.reset_step p) f block
  | delay d => exact reset_runWrapped delay (fun _ => rfl) (Delay.reset_step _) d block
  | convolution c =>
      cases c with
      | none => rfl
      | some c =>
          refine reset_runWrapped (fun c : Convolver σ γ => (convolution (some c) : Effect σ π γ))
            (fun _ => rfl) ?_ c block
          exact Convolver.reset_step

/-! ## Effects that cannot be told apart -/

/-- A block with what it is processed under. -/
structure Call (σ π : Type) where
  values : ParamValues σ
  context : BlockContext π
  block : List (Frame σ)

/-- What is heard during calls, one after the other. -/
def outputs (e : Effect σ π γ) (calls : List (Call σ π)) : List (List (Frame σ)) :=
  (runOver (fun e (call : Call σ π) => process call.values call.context e call.block) e calls).2

/-- The same effect in states that blocks do not tell apart. -/
inductive Alike : Effect σ π γ → Effect σ π γ → Prop
  | filter (hequal : EqualsAlike σ π) {f g : Filter σ π} (h : (Filter.tuned hequal).Alike f g) :
      Alike (.filter f) (.filter g)
  | equalizer (hequal : EqualsAlike σ π) {e f : Equalizer σ π}
      (h : (Equalizer.tuned hequal).Alike e f) : Alike (.equalizer e) (.equalizer f)
  | reverb {r s : Reverb σ} (h : r.Alike s) : Alike (.reverb r) (.reverb s)
  | same (e : Effect σ π γ) (h : e.kind ∉ EffectKind.looselyReset) : Alike e e

omit [Transform σ γ] in
theorem Alike.same_kind {e f : Effect σ π γ} (h : Alike e f) : e.kind = f.kind := by
  cases h <;> rfl

omit [Transform σ γ] in
theorem Alike.eq_of_same {e f : Effect σ π γ} (h : Alike e f)
    (hkind : e.kind ∉ EffectKind.looselyReset) : e = f := by
  cases h with
  | same => rfl
  | _ => simp [kind, EffectKind.looselyReset] at hkind

theorem Alike.processed {e f : Effect σ π γ} (h : Alike e f) (p : ParamValues σ)
    (ctx : BlockContext π) (block : List (Frame σ)) :
    Alike (e.process p ctx block).1 (f.process p ctx block).1 ∧
      (e.process p ctx block).2 = (f.process p ctx block).2 := by
  cases h with
  | filter hequal h =>
      obtain ⟨hnext, hout⟩ := h.run p block
      exact ⟨.filter hequal hnext, hout⟩
  | equalizer hequal h =>
      obtain ⟨hnext, hout⟩ := h.run p block
      exact ⟨.equalizer hequal hnext, hout⟩
  | reverb h =>
      obtain ⟨hnext, hout⟩ := runOver_alike (fun _ _ x h => h.step (Reverb.settings p) x) block h
      exact ⟨.reverb hnext, hout⟩
  | same _ h => exact ⟨.same _ (by rwa [kind_process]), rfl⟩

omit [Transform σ γ] in
theorem Alike.equalsAlike {e f : Effect σ π γ} (h : Alike e f)
    (hkind : e.kind = .filter ∨ e.kind = .equalizer) : EqualsAlike σ π := by
  cases h with
  | filter hequal | equalizer hequal => exact hequal
  | reverb => simp [kind] at hkind
  | same e h => rcases hkind with hkind | hkind <;> simp [hkind, EffectKind.looselyReset] at h

/-- What a block does to an effect, a reset undoes. -/
theorem Alike.reset_processed {e fresh : Effect σ π γ} (h : Alike e.reset fresh)
    (p : ParamValues σ) (ctx : BlockContext π) (block : List (Frame σ)) :
    Alike (e.process p ctx block).1.reset fresh := by
  cases e with
  | filter f =>
      cases h with
      | filter hequal h => exact .filter hequal (h.reset_run p block)
      | same _ h => simp [reset, kind, EffectKind.looselyReset] at h
  | equalizer e =>
      cases h with
      | equalizer hequal h => exact .equalizer hequal (h.reset_run p block)
      | same _ h => simp [reset, kind, EffectKind.looselyReset] at h
  | reverb r =>
      cases h with
      | @reverb _ fresh h =>
          exact .reverb (runOver_keeps (P := fun later : Reverb σ => later.reset.Alike fresh)
            (fun _ x h => Reverb.reset_step h (Reverb.settings p) x) block h)
      | same _ h => simp [reset, kind, EffectKind.looselyReset] at h
  | _ => rwa [reset_process p ctx _ block (by simp [kind, EffectKind.looselyReset])]

theorem Alike.outputs {e f : Effect σ π γ} (h : Alike e f) (calls : List (Call σ π)) :
    e.outputs calls = f.outputs calls :=
  (runOver_alike (fun _ _ call h => h.processed call.values call.context call.block) calls h).2

end Effect

/-! ## Effects in use -/

/-- An impulse response, and the rate it is prepared for. -/
structure Impulse (σ : Type) where
  id : ℕ
  buffer : AudioBuffer σ
  rate : ℕ

/-- What an effect is set up with: all there is to say about one that was just built. -/
structure Setup (σ : Type) where
  rate : σ
  impulse : Option (Impulse σ)

/-- What is done with an effect. -/
inductive Use (σ π : Type) where
  | process (call : Effect.Call σ π)
  | reset
  | setRate (rate : σ)
  | install (impulse : Option (Impulse σ))

def Impulse.prepare (π : Type) [Scalar π] [Precision σ π] (i : Impulse σ) : Convolver σ γ :=
  Convolver.build π i.id i.buffer i.rate

/-- A new effect. -/
def Setup.effect (s : Setup σ) : EffectKind → Effect σ π γ
  | .convolution => .convolution (s.impulse.map (Impulse.prepare π))
  | kind => .ofKind s.rate kind

/-- A new rate takes away the impulse response. -/
def Setup.after (s : Setup σ) : Use σ π → Setup σ
  | .setRate rate => ⟨rate, none⟩
  | .install impulse => { s with impulse }
  | _ => s

namespace Effect

/-- Only a convolution reverb takes an impulse response. -/
def use (e : Effect σ π γ) : Use σ π → Effect σ π γ
  | .process call => (e.process call.values call.context call.block).1
  | .reset => e.reset
  | .setRate rate => e.setRate rate
  | .install impulse =>
    match e with
    | convolution _ => convolution (impulse.map (Impulse.prepare π))
    | e => e

end Effect

namespace Setup

theorem effect_none (rate : σ) (kind : EffectKind) :
    (⟨rate, none⟩ : Setup σ).effect kind = (Effect.ofKind rate kind : Effect σ π γ) := by
  cases kind <;> rfl

theorem effect_of_ne (s : Setup σ) {kind : EffectKind} (h : kind ≠ .convolution) :
    s.effect kind = (Effect.ofKind s.rate kind : Effect σ π γ) := by
  cases kind with
  | convolution => exact absurd rfl h
  | _ => rfl

theorem kind_effect (s : Setup σ) (kind : EffectKind) :
    (s.effect kind : Effect σ π γ).kind = kind := by
  cases kind <;> rfl

theorem reset_effect (s : Setup σ) (kind : EffectKind) :
    (s.effect kind : Effect σ π γ).reset = s.effect kind := by
  by_cases h : kind = .convolution
  · subst h
    obtain ⟨rate, impulse⟩ := s
    cases impulse with
    | none => rfl
    | some i =>
        have hbuild := Convolver.reset_build (π := π) (γ := γ) i.id i.buffer i.rate
        exact congrArg (fun c => Effect.convolution (some c)) hbuild
  · rw [effect_of_ne s h, Effect.reset_ofKind]

theorem effect_alike (s : Setup σ) {kind : EffectKind}
    (hequal : kind = .filter ∨ kind = .equalizer → EqualsAlike σ π) :
    Effect.Alike (s.effect kind : Effect σ π γ) (s.effect kind) := by
  cases kind with
  | filter => exact .filter (hequal (.inl rfl)) ⟨rfl, rfl, nofun, nofun⟩
  | equalizer => exact .equalizer (hequal (.inr rfl)) ⟨rfl, rfl, nofun, nofun⟩
  | reverb => exact .reverb (Reverb.ofRate_alike s.rate)
  | _ => exact .same _ (by simp [kind_effect, EffectKind.looselyReset])

end Setup

namespace Effect

variable {e : Effect σ π γ} {s : Setup σ} {kind : EffectKind}

theorem Alike.kind_eq (h : Alike e.reset (s.effect kind)) : e.kind = kind := by
  rw [← kind_reset, h.same_kind, s.kind_effect]

/-- An effect that a reset makes as new is as new at another rate, too. -/
theorem Alike.setRate (h : Alike e.reset (s.effect kind)) (rate : σ) :
    Alike (e.setRate rate) (ofKind rate kind) := by
  obtain rfl := h.kind_eq
  cases e with
  | filter => exact .filter (h.equalsAlike (.inl rfl)) ⟨rfl, rfl, nofun, nofun⟩
  | equalizer => exact .equalizer (h.equalsAlike (.inr rfl)) ⟨rfl, rfl, nofun, nofun⟩
  | reverb => exact .reverb (Reverb.ofRate_alike rate)
  | phaser f =>
      have hreset : f.reset = Phaser.ofRate s.rate := by
        have heq := h.eq_of_same (by simp [reset, Effect.kind, EffectKind.looselyReset])
        exact Effect.phaser.inj heq
      have hnew : (⟨rate, f.reset.left, f.reset.right⟩ : Phaser σ) = Phaser.ofRate rate := by
        rw [hreset]
        rfl
      simp only [Effect.setRate, hnew]
      exact .same _ (by simp [Effect.kind, EffectKind.looselyReset])
  | _ => exact .same _ (by simp [Effect.kind, Effect.setRate, EffectKind.looselyReset])

theorem Alike.used (h : Alike e.reset (s.effect kind)) (u : Use σ π) :
    Alike (e.use u).reset ((s.after u).effect kind) := by
  cases u with
  | process call => exact h.reset_processed call.values call.context call.block
  | reset => rwa [use, reset_reset]
  | setRate rate =>
      rw [use, reset_setRate, Setup.after, Setup.effect_none]
      exact h.setRate rate
  | install impulse =>
      obtain rfl := h.kind_eq
      cases e with
      | convolution c =>
          have hnew : ((convolution c : Effect σ π γ).use (.install impulse)).reset =
              ({ s with impulse } : Setup σ).effect .convolution :=
            ({ s with impulse } : Setup σ).reset_effect .convolution
          rw [hnew]
          exact Setup.effect_alike _ (by simp)
      | _ => exact h

/-- Whatever was done with an effect, after a reset it makes of all further blocks
what one makes of them that was just set up in the same way; and after a change of
the sample rate, what one does that was just built for that rate.  The two that
keep coefficients rely on it that equal numbers make equal filters. -/
theorem reset_as_new (s : Setup σ) (kind : EffectKind)
    (hequal : kind = .filter ∨ kind = .equalizer → EqualsAlike σ π) (uses : List (Use σ π))
    (later : List (Call σ π)) :
    let e : Effect σ π γ := uses.foldl use (s.effect kind)
    e.reset.outputs later = ((uses.foldl Setup.after s).effect kind : Effect σ π γ).outputs later ∧
      ∀ rate, (e.setRate rate).outputs later = (ofKind rate kind : Effect σ π γ).outputs later := by
  have hworn : Alike (uses.foldl use (s.effect kind : Effect σ π γ)).reset
      ((uses.foldl Setup.after s).effect kind) := by
    induction uses using List.reverseRecOn with
    | nil =>
        rw [List.foldl_nil, Setup.reset_effect]
        exact s.effect_alike hequal
    | append_singleton uses u ih =>
        rw [List.foldl_concat, List.foldl_concat]
        exact ih.used u
  exact ⟨hworn.outputs later, fun rate => (hworn.setRate rate).outputs later⟩

/-- A filter that let a loud frame through. -/
theorem reset_as_new_of_loud :
    (EffectKind.filter = .filter ∨ EffectKind.filter = .equalizer → EqualsAlike ℝ ℝ) ∧
    let quiet : Call ℝ ℝ := ⟨[0, 1000, 1, 0], ⟨120⟩, [⟨0.5, 0.5⟩, ⟨0, 0⟩]⟩
    let loud : Call ℝ ℝ := ⟨[1, 200, 8, 0], ⟨120⟩, [⟨1, -1⟩]⟩
    let fresh : Effect ℝ ℝ (Fin 256 → ℝ) := ofKind 48000 .filter
    (fresh.use (.process loud)).reset.outputs [quiet] = fresh.outputs [quiet] ∧
      ((fresh.use (.process loud)).setRate 44100).outputs [quiet] =
        (ofKind 44100 .filter : Effect ℝ ℝ (Fin 256 → ℝ)).outputs [quiet] := by
  obtain ⟨hreset, hrate⟩ := reset_as_new (γ := Fin 256 → ℝ) ⟨48000, none⟩ .filter
    (fun _ => equalsAlike_real) [.process ⟨[1, 200, 8, 0], ⟨120⟩, [⟨1, -1⟩]⟩]
    [⟨[0, 1000, 1, 0], ⟨120⟩, [⟨0.5, 0.5⟩, ⟨0, 0⟩]⟩]
  exact ⟨fun _ => equalsAlike_real, hreset, hrate 44100⟩

end Effect

end Multisample
