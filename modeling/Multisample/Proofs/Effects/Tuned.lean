import Multisample.Proofs.Effects.Alike
import Multisample.Proofs.Numeric.Exact

/-!
# Devices that keep their coefficients

A filter computes its coefficients when the values it is given are not equal to
those it computed them from.  So what it runs on may come from other values than
the ones at hand.  It makes no difference as long as equal numbers make equal
filters, and as long as coefficients are never older than the values beside them.
-/

namespace Multisample

/-! ## Values that compare equal -/

section tuned

variable {σ : Type} [Scalar σ]

theorem sameValues_getD {β : Type} {f : σ → β}
    (hf : ∀ x y, Scalar.eq x y = true → f x = f y) :
    ∀ {xs ys : List σ}, sameValues xs ys = true → ∀ i, f (xs.getD i 0) = f (ys.getD i 0)
  | [], [], _, _ => rfl
  | x :: xs, y :: ys, h, i => by
      simp only [sameValues, Bool.and_eq_true] at h
      cases i with
      | zero => exact hf x y h.1
      | succ i => exact sameValues_getD hf h.2 i

theorem ParamValues.at_take (p : ParamValues σ) {n i : ℕ} (hi : i < n) :
    ParamValues.at (p.take n) i = p.at i := by
  simp only [ParamValues.at, List.getD_eq_getElem?_getD, List.getElem?_take_of_lt hi]

/-- What does not tell equal numbers apart makes the same of the values that are
wanted and of those that they were compared with. -/
theorem ParamValues.at_congr {β : Type} {f : σ → β}
    (hf : ∀ x y, Scalar.eq x y = true → f x = f y) {p v : ParamValues σ} {n i : ℕ}
    (h : sameValues (p.take n) v = true) (hi : i < n) : f (p.at i) = f (v.at i) := by
  rw [← p.at_take hi]
  exact sameValues_getD hf h i

/-! ## Up to date before each block -/

/-- What a device computes with, and the values it computed that from. -/
structure Tuning (σ κ : Type) where
  rate : σ
  applied : Option (List σ)
  coefficients : κ

/-- Coefficients for a sample rate and for as many parameter values as count. -/
structure Design (σ κ : Type) [Scalar σ] where
  count : ℕ
  of : σ → ParamValues σ → κ
  take : ∀ rate p, of rate (p.take count) = of rate p
  congr : ∀ rate {p v}, sameValues (p.take count) v = true → of rate p = of rate v

namespace Tuning

variable {κ : Type} {d : Design σ κ} {t : Tuning σ κ}

/-- The coefficients are those of the values they are said to be computed from. -/
def Sound (d : Design σ κ) (t : Tuning σ κ) : Prop :=
  ∀ v ∈ t.applied, t.coefficients = d.of t.rate v

def update (d : Design σ κ) (p : ParamValues σ) (t : Tuning σ κ) : Tuning σ κ :=
  if t.applied.any (sameValues (p.take d.count)) then t
  else { t with applied := some (p.take d.count), coefficients := d.of t.rate p }

theorem update_cases (d : Design σ κ) (p : ParamValues σ) (t : Tuning σ κ) :
    (∃ v ∈ t.applied, sameValues (p.take d.count) v = true ∧ t.update d p = t) ∨
      t.update d p = ⟨t.rate, some (p.take d.count), d.of t.rate p⟩ := by
  by_cases h : t.applied.any (sameValues (p.take d.count)) = true
  · obtain ⟨v, hv, hsame⟩ := (Option.any_eq_true _ _).mp h
    exact .inl ⟨v, hv, hsame, if_pos h⟩
  · exact .inr (if_neg h)

theorem rate_update (p : ParamValues σ) : (t.update d p).rate = t.rate := by
  obtain ⟨v, -, -, heq⟩ | heq := update_cases d p t <;> rw [heq]

theorem Sound.coefficients_update (h : t.Sound d) (p : ParamValues σ) :
    (t.update d p).coefficients = d.of t.rate p := by
  obtain ⟨v, hv, hsame, heq⟩ | heq := update_cases d p t
  · rw [heq, h v hv, d.congr t.rate hsame]
  · rw [heq]

theorem Sound.update (h : t.Sound d) (p : ParamValues σ) : (t.update d p).Sound d := by
  obtain ⟨v, -, -, heq⟩ | heq := update_cases d p t
  · rwa [heq]
  · rw [heq]
    rintro v ⟨⟩
    exact (d.take t.rate p).symm

end Tuning

/-- A device that is brought up to date before each block and then runs on its
coefficients and its memory. -/
structure Tuned (σ s κ μ : Type) [Scalar σ] where
  design : Design σ κ
  tuning : s → Tuning σ κ
  memory : s → μ
  silent : μ
  update : ParamValues σ → s → s
  step : s → Frame σ → s × Frame σ
  reset : s → s
  tuning_update : ∀ p a, tuning (update p a) = (tuning a).update design p
  memory_update : ∀ p a, memory (update p a) = memory a
  tuning_step : ∀ a x, tuning (step a x).1 = tuning a
  step_congr : ∀ {a b} x, (tuning a).coefficients = (tuning b).coefficients → memory a = memory b →
    memory (step a x).1 = memory (step b x).1 ∧ (step a x).2 = (step b x).2
  tuning_reset : ∀ a, tuning (reset a) = tuning a
  memory_reset : ∀ a, memory (reset a) = silent

namespace Tuned

variable {s κ μ : Type}

/-- Coefficients may differ while they are going to be computed. -/
structure Alike (t : Tuned σ s κ μ) (a b : s) : Prop where
  rate : (t.tuning a).rate = (t.tuning b).rate
  memory : t.memory a = t.memory b
  sound : (t.tuning a).Sound t.design
  sound' : (t.tuning b).Sound t.design

variable {t : Tuned σ s κ μ} {a b : s}

theorem Alike.step (h : t.Alike a b ∧ (t.tuning a).coefficients = (t.tuning b).coefficients)
    (x : Frame σ) :
    (t.Alike (t.step a x).1 (t.step b x).1 ∧
        (t.tuning (t.step a x).1).coefficients = (t.tuning (t.step b x).1).coefficients) ∧
      (t.step a x).2 = (t.step b x).2 := by
  obtain ⟨halike, hcoefficients⟩ := h
  obtain ⟨hmemory, hout⟩ := t.step_congr x hcoefficients halike.memory
  refine ⟨⟨⟨?_, hmemory, ?_, ?_⟩, ?_⟩, hout⟩ <;> simp only [t.tuning_step]
  exacts [halike.rate, halike.sound, halike.sound', hcoefficients]

theorem Alike.update (h : t.Alike a b) (p : ParamValues σ) :
    t.Alike (t.update p a) (t.update p b) ∧
      (t.tuning (t.update p a)).coefficients = (t.tuning (t.update p b)).coefficients := by
  simp only [t.tuning_update, h.sound.coefficients_update, h.sound'.coefficients_update, h.rate]
  refine ⟨⟨?_, ?_, ?_, ?_⟩, trivial⟩
  · rw [t.tuning_update, t.tuning_update, Tuning.rate_update, Tuning.rate_update, h.rate]
  · rw [t.memory_update, t.memory_update, h.memory]
  · rw [t.tuning_update]
    exact h.sound.update p
  · rw [t.tuning_update]
    exact h.sound'.update p

theorem Alike.run (h : t.Alike a b) (p : ParamValues σ) (block : List (Frame σ)) :
    t.Alike (runOver t.step (t.update p a) block).1 (runOver t.step (t.update p b) block).1 ∧
      (runOver t.step (t.update p a) block).2 = (runOver t.step (t.update p b) block).2 := by
  obtain ⟨hlast, hout⟩ := runOver_alike (R := fun a b =>
    t.Alike a b ∧ (t.tuning a).coefficients = (t.tuning b).coefficients)
    (fun a b x h => Alike.step h x) block (h.update p)
  exact ⟨hlast.1, hout⟩

/-- What is worn down by frames is made good by a reset. -/
theorem Alike.reset_run (h : t.Alike (t.reset a) b) (p : ParamValues σ) (block : List (Frame σ)) :
    t.Alike (t.reset (runOver t.step (t.update p a) block).1) b := by
  have htuning : t.tuning (runOver t.step (t.update p a) block).1 = t.tuning (t.update p a) :=
    runOver_keeps (P := fun later => t.tuning later = t.tuning (t.update p a))
      (fun later x hlater => (t.tuning_step later x).trans hlater) block rfl
  obtain ⟨hrate, hmemory, hsound, hsound'⟩ := h
  rw [t.tuning_reset] at hrate hsound
  rw [t.memory_reset] at hmemory
  refine ⟨?_, ?_, ?_, hsound'⟩
  · rw [t.tuning_reset, htuning, t.tuning_update, Tuning.rate_update, hrate]
  · rw [t.memory_reset, hmemory]
  · rw [t.tuning_reset, htuning, t.tuning_update]
    exact hsound.update p

end Tuned

end tuned

/-! ## Filters and equalizers -/

variable {σ π : Type} [Elementary σ] [Elementary π] [Precision σ π]

/-- Numbers that compare equal make the same filter.  They may be different
numbers all the same, as the zeros of either sign are. -/
structure EqualsAlike (σ π : Type) [Elementary σ] [Elementary π] [Precision σ π] : Prop where
  whole : ∀ x y : σ, Scalar.eq x y = true →
    Scalar.toNat (Scalar.max (Scalar.round x) 0) = Scalar.toNat (Scalar.max (Scalar.round y) 0)
  frequency : ∀ x y : σ, Scalar.eq x y = true → ∀ high : π,
    Scalar.clamp (Precision.widen x) 1 high = Scalar.clamp (Precision.widen y) 1 high
  resonance : ∀ x y : σ, Scalar.eq x y = true →
    Scalar.max (Precision.widen x : π) 0.01 = Scalar.max (Precision.widen y) 0.01
  gain : ∀ x y : σ, Scalar.eq x y = true →
    Elementary.pow (10 : π) (Precision.widen x / 40) = Elementary.pow 10 (Precision.widen y / 40)

theorem equalsAlike_of_eq (h : ∀ x y : σ, Scalar.eq x y = true → x = y) : EqualsAlike σ π where
  whole x y hxy := by rw [h x y hxy]
  frequency x y hxy high := by rw [h x y hxy]
  resonance x y hxy := by rw [h x y hxy]
  gain x y hxy := by rw [h x y hxy]

theorem equalsAlike_real : EqualsAlike ℝ ℝ :=
  equalsAlike_of_eq fun x y h => by simpa using h

theorem Coefficients.design_congr (kind : Response) (rate : π)
    {frequency frequency' q q' gain gain' : π}
    (hfrequency : ∀ high, Scalar.clamp frequency 1 high = Scalar.clamp frequency' 1 high)
    (hq : Scalar.max q 0.01 = Scalar.max q' 0.01)
    (hgain : Elementary.pow 10 (gain / 40) = Elementary.pow 10 (gain' / 40)) :
    design kind rate frequency q gain = design kind rate frequency' q' gain' := by
  simp only [design, hfrequency, hq, hgain]

namespace Biquad

/-- What is left of the frames that went through. -/
def memory (b : Biquad π) : BiquadState π × BiquadState π :=
  (b.left, b.right)

omit [Elementary σ] in
theorem step_congr {a b : Biquad π} (x : Frame σ) (hcoefficients : a.coefficients = b.coefficients)
    (hmemory : a.memory = b.memory) : a.step x = b.step x := by
  obtain ⟨coefficients, left, right⟩ := a
  obtain ⟨coefficients', left', right'⟩ := b
  obtain ⟨rfl, rfl⟩ := Prod.mk.inj hmemory
  cases hcoefficients
  rfl

end Biquad

namespace Filter

theorem design_take (rate : σ) (p : ParamValues σ) :
    (design rate (p.take 4) : Coefficients π) = design rate p := by
  simp [design, ParamValues.at_take]

theorem design_congr (hequal : EqualsAlike σ π) (rate : σ) {p v : ParamValues σ}
    (h : sameValues (p.take 4) v = true) :
    (design rate p : Coefficients π) = design rate v := by
  have hkind := ParamValues.at_congr hequal.whole h (show 0 < 4 by decide)
  simp only [design, hkind]
  exact Coefficients.design_congr _ _
    (fun high => ParamValues.at_congr (fun x y hxy => hequal.frequency x y hxy high) h (by decide))
    (ParamValues.at_congr hequal.resonance h (by decide))
    (ParamValues.at_congr hequal.gain h (by decide))

def tuned (hequal : EqualsAlike σ π) :
    Tuned σ (Filter σ π) (Coefficients π) (BiquadState π × BiquadState π) where
  design := ⟨4, design, design_take, design_congr hequal⟩
  tuning f := ⟨f.sampleRate, f.applied, f.biquad.coefficients⟩
  memory f := f.biquad.memory
  silent := (⟨0, 0⟩, ⟨0, 0⟩)
  update p f := f.update p
  step := step
  reset := reset
  tuning_update p f := by
    simp only [update, Tuning.update]
    split <;> rfl
  memory_update p f := by
    unfold update
    dsimp only
    split <;> rfl
  tuning_step _ _ := rfl
  step_congr x hcoefficients hmemory := by
    have hstep := Biquad.step_congr x hcoefficients hmemory
    simp only [step, hstep, and_self]
  tuning_reset _ := rfl
  memory_reset _ := rfl

end Filter

namespace Equalizer

/-- The coefficients of the three bands for a set of values. -/
def designs (rate : σ) (p : ParamValues σ) : Coefficients π × Coefficients π × Coefficients π :=
  let value (index : ℕ) : π := Precision.widen (p.at index)
  (Coefficients.design .lowShelf (Precision.widen rate) (value 0) shelfQ (value 1),
    Coefficients.design .peak (Precision.widen rate) (value 2) (value 4) (value 3),
    Coefficients.design .highShelf (Precision.widen rate) (value 5) shelfQ (value 6))

theorem designs_take (rate : σ) (p : ParamValues σ) :
    (designs rate (p.take 7) : Coefficients π × Coefficients π × Coefficients π) =
      designs rate p := by
  simp [designs, ParamValues.at_take]

theorem designs_congr (hequal : EqualsAlike σ π) (rate : σ) {p v : ParamValues σ}
    (h : sameValues (p.take 7) v = true) :
    (designs rate p : Coefficients π × Coefficients π × Coefficients π) = designs rate v := by
  have hfrequency {i : ℕ} (hi : i < 7) (high : π) :=
    ParamValues.at_congr (fun x y hxy => hequal.frequency x y hxy high) h hi
  have hgain {i : ℕ} (hi : i < 7) := ParamValues.at_congr hequal.gain h hi
  refine Prod.ext ?_ (Prod.ext ?_ ?_)
  · exact Coefficients.design_congr _ _ (hfrequency (by decide)) rfl (hgain (by decide))
  · exact Coefficients.design_congr _ _ (hfrequency (by decide))
      (ParamValues.at_congr hequal.resonance h (by decide)) (hgain (by decide))
  · exact Coefficients.design_congr _ _ (hfrequency (by decide)) rfl (hgain (by decide))

def tuned (hequal : EqualsAlike σ π) :
    Tuned σ (Equalizer σ π) (Coefficients π × Coefficients π × Coefficients π)
      (List (BiquadState π × BiquadState π)) where
  design := ⟨7, designs, designs_take, designs_congr hequal⟩
  tuning e := ⟨e.sampleRate, e.applied,
    (e.low.coefficients, e.mid.coefficients, e.high.coefficients)⟩
  memory e := [e.low.memory, e.mid.memory, e.high.memory]
  silent := List.replicate 3 (⟨0, 0⟩, ⟨0, 0⟩)
  update p e := e.update p
  step := step
  reset := reset
  tuning_update p e := by
    simp only [update, Tuning.update]
    split <;> rfl
  memory_update p e := by
    unfold update
    dsimp only
    split <;> rfl
  tuning_step _ _ := rfl
  step_congr x hcoefficients hmemory := by
    simp only [Prod.mk.injEq] at hcoefficients
    simp only [List.cons.injEq, and_true] at hmemory
    have hlow := Biquad.step_congr x hcoefficients.1 hmemory.1
    have hmid (x : Frame σ) := Biquad.step_congr x hcoefficients.2.1 hmemory.2.1
    have hhigh (x : Frame σ) := Biquad.step_congr x hcoefficients.2.2 hmemory.2.2
    simp only [step, hlow, hmid, hhigh, and_self]
  tuning_reset _ := rfl
  memory_reset _ := rfl

end Equalizer

end Multisample
