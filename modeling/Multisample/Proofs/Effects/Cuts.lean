import Mathlib.Data.Nat.Notation
import Multisample.Effects.Kind

/-!
# Where blocks are cut does not matter to an effect

An effect reads its settings once for each block and then runs frame by frame.
The settings come from the parameter values and from what frames leave alone, so
at a cut the next block reads the settings that the frames before it had; and
coefficients that have just been computed are not computed anew.
-/

namespace Multisample

variable {s t α β κ : Type}

/-! ## Devices that run over blocks -/

/-- What every step keeps, a run keeps. -/
theorem runOver_keeps {P : s → Prop} {step : s → α → s × β}
    (hstep : ∀ state x, P state → P (step state x).1) (xs : List α) {state : s} (h : P state) :
    P (runOver step state xs).1 := by
  induction xs generalizing state with
  | nil => exact h
  | cons x xs ih => exact ih (hstep state x h)

/-- What every step keeps and puts out for inputs of a kind, a run keeps and puts out. -/
theorem runOver_ensures {P : s → Prop} {I : α → Prop} {Q : β → Prop} {step : s → α → s × β}
    (hstep : ∀ state x, P state → I x → P (step state x).1 ∧ Q (step state x).2) {xs : List α}
    (hxs : ∀ x ∈ xs, I x) {state : s} (h : P state) :
    P (runOver step state xs).1 ∧ ∀ y ∈ (runOver step state xs).2, Q y := by
  induction xs generalizing state with
  | nil => exact ⟨h, by simp [runOver]⟩
  | cons x xs ih =>
      obtain ⟨hx, hrest⟩ := List.forall_mem_cons.mp hxs
      obtain ⟨hnext, hout⟩ := hstep state x h hx
      obtain ⟨hlast, houts⟩ := ih hrest hnext
      exact ⟨hlast, List.forall_mem_cons.mpr ⟨hout, houts⟩⟩

/-- Two parts of a block, one after the other, come to the same as the whole. -/
def CutsAnywhere (process : s → List α → s × List β) : Prop :=
  ∀ state xs ys, process state (xs ++ ys) =
    ((process (process state xs).1 ys).1,
      (process state xs).2 ++ (process (process state xs).1 ys).2)

theorem CutsAnywhere.flatten {process : s → List α → s × List β} (h : CutsAnywhere process)
    (state : s) (first : List α) (rest : List (List α)) :
    process state (first :: rest).flatten =
      ((runOver process state (first :: rest)).1,
        (runOver process state (first :: rest)).2.flatten) := by
  induction rest generalizing state first with
  | nil => simp [runOver]
  | cons second rest ih =>
      rw [List.flatten_cons, h, ih]
      rfl

/-- What holds of a device holds of a state that is wrapped around it. -/
theorem CutsAnywhere.wrapped {run : t → List α → t × List β} (h : CutsAnywhere run)
    (process : s → List α → s × List β) (wrap : t → s)
    (hprocess : ∀ state block, process (wrap state) block =
      (wrap (run state block).1, (run state block).2)) (state : t) (xs ys : List α) :
    process (wrap state) (xs ++ ys) =
      ((process (process (wrap state) xs).1 ys).1,
        (process (wrap state) xs).2 ++ (process (process (wrap state) xs).1 ys).2) := by
  simp only [hprocess, h state xs ys]

theorem cutsAnywhere_runOver (step : s → α → s × β) : CutsAnywhere (runOver step) :=
  runOver_append step

/-- A device that reads settings from a part of its state that no step changes. -/
theorem cutsAnywhere_of_settings {settings : s → κ} {step : κ → s → α → s × β}
    (hkeeps : ∀ k state x, settings (step k state x).1 = settings state) :
    CutsAnywhere fun state xs => runOver (step (settings state)) state xs := by
  intro state xs ys
  have hsettings : settings (runOver (step (settings state)) state xs).1 = settings state :=
    runOver_keeps (P := fun later => settings later = settings state)
      (fun later x h => (hkeeps _ later x).trans h) xs rfl
  dsimp only
  rw [hsettings, runOver_append]

/-- A device that brings its state up to date, which it stays from then on. -/
theorem cutsAnywhere_of_update {update : s → s} {step : s → α → s × β}
    (hupdate : ∀ state, update (update state) = update state)
    (hstep : ∀ state x, update state = state → update (step state x).1 = (step state x).1) :
    CutsAnywhere fun state xs => runOver step (update state) xs := by
  intro state xs ys
  have hcurrent : update (runOver step (update state) xs).1 = (runOver step (update state) xs).1 :=
    runOver_keeps (P := fun later => update later = later) hstep xs (hupdate state)
  dsimp only
  rw [hcurrent, runOver_append]

/-- A device that computes part of its state from values, unless it was computed
from the same ones.  Values that compare with nothing are computed from again,
to the same end. -/
theorem cutsAnywhere_of_cache (fresh : s → Bool) (refreshed : s → s) (step : s → α → s × β)
    (hrefreshed : ∀ state, refreshed (refreshed state) = refreshed state)
    (hfresh : ∀ state x, fresh (step state x).1 = fresh state)
    (hstep : ∀ state x, refreshed state = state → refreshed (step state x).1 = (step state x).1) :
    CutsAnywhere fun state xs =>
      runOver step (if fresh state then state else refreshed state) xs := by
  refine cutsAnywhere_of_update (fun state => ?_) fun state x h => ?_
  · by_cases hf : fresh state = true
    · rw [if_pos hf, if_pos hf]
    · rw [if_neg hf, hrefreshed, ite_self]
  · rw [hfresh]
    by_cases hf : fresh state = true
    · rw [if_pos hf]
    · rw [if_neg hf] at h ⊢
      exact hstep state x h

variable {σ π γ : Type} [Elementary σ] [Elementary π] [Precision σ π] [Transform σ γ]

/-! ## What frames leave alone -/

theorem Compressor.settings_step (p : ParamValues σ) (k : Settings σ) (c : Compressor σ)
    (x : Frame σ) : (step k c x).1.settings p = c.settings p :=
  rfl

theorem Delay.settings_step (p : ParamValues σ) (ctx : BlockContext π) (k : Settings σ)
    (d : Delay σ) (x : Frame σ) : (step k d x).1.settings p ctx = d.settings p ctx := by
  unfold step
  dsimp only
  split <;> rfl

namespace Filter

/-- The filter with coefficients computed from the values. -/
def refreshed (p : ParamValues σ) (f : Filter σ π) : Filter σ π :=
  { f with
    applied := some (p.take 4)
    biquad := { f.biquad with coefficients := design f.sampleRate p } }

theorem cutsAnywhere (p : ParamValues σ) :
    CutsAnywhere fun (f : Filter σ π) block => runOver step (f.update p) block := by
  refine cutsAnywhere_of_cache (fun f : Filter σ π => f.applied.any (sameValues (p.take 4)))
    (refreshed p) step (fun _ => rfl) (fun _ _ => rfl) fun f x h => ?_
  rw [← h]
  rfl

end Filter

namespace Equalizer

/-- The equalizer with the coefficients of all bands computed from the values. -/
def refreshed (p : ParamValues σ) (e : Equalizer σ π) : Equalizer σ π :=
  let value (index : ℕ) : π := Precision.widen (p.at index)
  let rate : π := Precision.widen e.sampleRate
  { e with
    applied := some (p.take 7)
    low := { e.low with
      coefficients := Coefficients.design .lowShelf rate (value 0) shelfQ (value 1) }
    mid := { e.mid with
      coefficients := Coefficients.design .peak rate (value 2) (value 4) (value 3) }
    high := { e.high with
      coefficients := Coefficients.design .highShelf rate (value 5) shelfQ (value 6) } }

theorem cutsAnywhere (p : ParamValues σ) :
    CutsAnywhere fun (e : Equalizer σ π) block => runOver step (e.update p) block := by
  refine cutsAnywhere_of_cache (fun e : Equalizer σ π => e.applied.any (sameValues (p.take 7)))
    (refreshed p) step (fun _ => rfl) (fun _ _ => rfl) fun e x h => ?_
  rw [← h]
  rfl

end Equalizer

/-! ## All effects -/

namespace Effect

theorem cutsAnywhere_process (p : ParamValues σ) (ctx : BlockContext π) :
    CutsAnywhere fun (e : Effect σ π γ) block => e.process p ctx block := by
  intro e xs ys
  cases e with
  | distortion => simp [process]
  | compressor c =>
      exact (cutsAnywhere_of_settings fun k c x => c.settings_step p k x).wrapped (process p ctx)
        compressor (fun _ _ => rfl) c xs ys
  | filter f =>
      exact (Filter.cutsAnywhere p).wrapped (process p ctx) filter (fun _ _ => rfl) f xs ys
  | equalizer e =>
      exact (Equalizer.cutsAnywhere p).wrapped (process p ctx) equalizer (fun _ _ => rfl) e xs ys
  | delay d =>
      exact (cutsAnywhere_of_settings fun k d x => d.settings_step p ctx k x).wrapped
        (process p ctx) delay (fun _ _ => rfl) d xs ys
  | convolution c =>
      cases c with
      | none => rfl
      | some c =>
          exact (cutsAnywhere_runOver _).wrapped (process p ctx) (fun c => convolution (some c))
            (fun _ _ => rfl) c xs ys
  | chorus c =>
      exact (cutsAnywhere_runOver _).wrapped (process p ctx) chorus (fun _ _ => rfl) c xs ys
  | flanger f =>
      exact (cutsAnywhere_runOver _).wrapped (process p ctx) flanger (fun _ _ => rfl) f xs ys
  | phaser f =>
      exact (cutsAnywhere_runOver _).wrapped (process p ctx) phaser (fun _ _ => rfl) f xs ys
  | reverb r =>
      exact (cutsAnywhere_runOver _).wrapped (process p ctx) reverb (fun _ _ => rfl) r xs ys

/-- Under one set of parameter values an effect makes the same of consecutive
blocks as of all their frames at once, and is in the same state after them. -/
theorem process_flatten (p : ParamValues σ) (ctx : BlockContext π) (e : Effect σ π γ)
    (first : List (Frame σ)) (rest : List (List (Frame σ))) :
    let cut := runOver (fun e block => process p ctx e block) e (first :: rest)
    e.process p ctx (first :: rest).flatten = (cut.1, cut.2.flatten) :=
  (cutsAnywhere_process p ctx).flatten e first rest

end Effect

end Multisample
