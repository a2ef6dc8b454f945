import Mathlib.Analysis.SpecialFunctions.Exp
import Multisample.Effects.Smoother
import Multisample.Proofs.Numeric.Exact

/-!
# Glides block by block

A glide takes a block in one step, by a power of its pole, where it could take it
sample by sample.  The exponent is a signed word, so both lead to the same value,
but for the arrival at a target that is close, exactly for blocks that such a word
can count.  Where the exponent is not negative a glide stays among the value that
it started from and its targets, and does not move away from where it is heading.
-/

namespace Multisample

namespace Smoother

section

variable {σ : Type} [Scalar σ]

@[simp] theorem target_advance (s : Smoother σ) (frames : ℕ) :
    (s.advance frames).target = s.target := by
  unfold advance settle
  dsimp only
  split <;> rfl

@[simp] theorem pole_advance (s : Smoother σ) (frames : ℕ) :
    (s.advance frames).pole = s.pole := by
  unfold advance settle
  dsimp only
  split <;> rfl

end

/-! ## Exponents -/

theorem exponent_eq (frames : ℕ) : exponent frames =
    if frames % 2 ^ 32 < 2 ^ 31 then ((frames % 2 ^ 32 : ℕ) : ℤ)
    else ((frames % 2 ^ 32 : ℕ) : ℤ) - 2 ^ 32 := by
  unfold exponent Int.bmod
  norm_num
  split <;> split <;> omega

theorem exponent_of_lt {frames : ℕ} (h : frames < 2 ^ 31) : exponent frames = frames := by
  rw [exponent_eq]
  split <;> omega

theorem exponent_lt (frames : ℕ) : exponent frames < 2 ^ 31 := by
  rw [exponent_eq]
  split <;> omega

theorem exponent_nonneg_iff {frames : ℕ} : 0 ≤ exponent frames ↔ frames % 2 ^ 32 < 2 ^ 31 := by
  rw [exponent_eq]
  split <;> omega

/-! ## One block on exact numbers -/

section exact

variable {s : Smoother ℝ} {frames : ℕ}

theorem settle_real (s : Smoother ℝ) :
    s.settle = if |s.current - s.target| < 0.000001 then { s with current := s.target } else s := by
  simp only [settle, Scalar.abs_real, Scalar.lt_real, Scalar.decimal_real, decide_eq_true_eq]

theorem settle_of_far (h : 1 ≤ |s.current - s.target|) : s.settle = s := by
  rw [settle_real, if_neg]
  norm_num
  linarith

theorem current_settle (s : Smoother ℝ) :
    s.settle.current = s.target ∨ s.settle.current = s.current := by
  rw [settle_real]
  split
  · exact Or.inl rfl
  · exact Or.inr rfl

theorem advance_real (s : Smoother ℝ) (frames : ℕ) :
    s.advance frames = { s with
      current := s.target + (s.current - s.target) * s.pole ^ exponent frames }.settle := by
  rw [advance, Scalar.zpow_real]

/-- Each tick leaves one more power of the pole of the distance. -/
theorem ticks_eq (s : Smoother ℝ) (frames : ℕ) :
    tick^[frames] s =
      { s with current := s.target + (s.current - s.target) * s.pole ^ frames } := by
  induction frames with
  | zero => simp
  | succ frames ih =>
      rw [Function.iterate_succ_apply', ih, tick]
      dsimp only
      rw [add_sub_cancel_left, mul_assoc, ← pow_succ]

theorem advance_eq_ticks (h : frames < 2 ^ 31) (s : Smoother ℝ) :
    s.advance frames = (tick^[frames] s).settle := by
  rw [advance_real, exponent_of_lt h, zpow_natCast, ticks_eq]

/-- Without a negative exponent a block leaves a share of the distance. -/
theorem advance_share (hpole : 0 ≤ s.pole ∧ s.pole < 1) (h : 0 ≤ exponent frames) :
    ∃ d, 0 ≤ d ∧ d ≤ 1 ∧ (s.advance frames).current = s.target + (s.current - s.target) * d := by
  obtain ⟨n, hn⟩ := Int.eq_ofNat_of_zero_le h
  rw [advance_real, hn, zpow_natCast]
  rcases current_settle { s with current := s.target + (s.current - s.target) * s.pole ^ n }
    with harrived | hmoved
  · exact ⟨0, le_rfl, zero_le_one, by rw [harrived, mul_zero, add_zero]⟩
  · exact ⟨s.pole ^ n, pow_nonneg hpole.1 n, pow_le_one₀ hpole.1 hpole.2.le, hmoved⟩

theorem abs_advance_le (hpole : 0 ≤ s.pole ∧ s.pole < 1) (h : 0 ≤ exponent frames) :
    |(s.advance frames).current - s.target| ≤ |s.current - s.target| := by
  obtain ⟨d, hd0, hd1, hcurrent⟩ := advance_share hpole h
  rw [hcurrent, add_sub_cancel_left, abs_mul, abs_of_nonneg hd0]
  exact mul_le_of_le_one_right (abs_nonneg _) hd1

/-! ## Glides by halves -/

/-- Half the distance to zero is left after each sample. -/
noncomputable def halving (x : ℝ) : Smoother ℝ :=
  ⟨x, 0, 1 / 2⟩

theorem pole_halving (x : ℝ) : 0 ≤ (halving x).pole ∧ (halving x).pole < 1 := by
  norm_num [halving]

theorem advance_halving {x : ℝ} (h : 1 ≤ x * 2 ^ (-exponent frames)) :
    ((halving x).advance frames).current = x * 2 ^ (-exponent frames) := by
  have hmoved : (0 : ℝ) + (x - 0) * (1 / 2) ^ exponent frames = x * 2 ^ (-exponent frames) := by
    rw [zero_add, sub_zero, one_div, inv_zpow']
  rw [advance_real, halving]
  dsimp only
  rw [hmoved, settle_of_far]
  rw [sub_zero]
  exact h.trans (le_abs_self _)

/-- A negative exponent leads away from zero. -/
theorem two_le_advance_halving (h : exponent frames < 0) :
    2 ≤ ((halving 1).advance frames).current := by
  have hpower : (2 : ℝ) ≤ 1 * 2 ^ (-exponent frames) := by
    rw [one_mul]
    calc (2 : ℝ) = 2 ^ (1 : ℤ) := (zpow_one 2).symm
      _ ≤ 2 ^ (-exponent frames) := zpow_le_zpow_right₀ one_le_two (by omega)
  rw [advance_halving (by linarith)]
  exact hpower

/-- Where the exponent falls short of the number of samples, a block ends at 1 that the samples
take to one half at most. -/
theorem advance_ne_ticks (h : exponent frames < frames) :
    (halving (2 ^ exponent frames)).advance frames ≠
      (tick^[frames] (halving (2 ^ exponent frames))).settle := by
  have hblock : ((halving (2 ^ exponent frames)).advance frames).current = 1 := by
    have hone : (2 : ℝ) ^ exponent frames * 2 ^ (-exponent frames) = 1 := by
      rw [← zpow_add₀ two_ne_zero, add_neg_cancel, zpow_zero]
    rw [advance_halving hone.ge, hone]
  have hticks : (tick^[frames] (halving (2 ^ exponent frames))).current ≤ 1 / 2 := by
    rw [ticks_eq]
    calc (0 : ℝ) + (2 ^ exponent frames - 0) * (1 / 2) ^ frames
        = 2 ^ (exponent frames - frames) := by
          rw [zero_add, sub_zero, one_div, inv_pow, ← zpow_natCast, ← zpow_neg,
            ← zpow_add₀ two_ne_zero, sub_eq_add_neg]
      _ ≤ 2 ^ (-1 : ℤ) := zpow_le_zpow_right₀ one_le_two (by omega)
      _ = 1 / 2 := by norm_num
  intro heq
  rw [heq] at hblock
  rcases current_settle (tick^[frames] (halving (2 ^ exponent frames))) with h0 | hsame
  · have hzero : (tick^[frames] (halving (2 ^ exponent frames))).target = 0 := by
      rw [ticks_eq]
      rfl
    rw [h0, hzero] at hblock
    exact zero_ne_one hblock
  · rw [hsame] at hblock
    linarith

theorem advance_eq_ticks_iff (frames : ℕ) :
    (∀ s : Smoother ℝ, 0 ≤ s.pole → s.pole < 1 → s.advance frames = (tick^[frames] s).settle) ↔
      frames < 2 ^ 31 := by
  refine ⟨fun h => ?_, fun h s _ _ => advance_eq_ticks h s⟩
  by_contra hlong
  have hshort : exponent frames < frames := by
    have := exponent_lt frames
    omega
  obtain ⟨hpole0, hpole1⟩ := pole_halving (2 ^ exponent frames)
  exact advance_ne_ticks hshort (h _ hpole0 hpole1)

theorem abs_advance_le_iff (frames : ℕ) :
    (∀ s : Smoother ℝ, 0 ≤ s.pole → s.pole < 1 →
        |(s.advance frames).current - s.target| ≤ |s.current - s.target|) ↔
      frames % 2 ^ 32 < 2 ^ 31 := by
  rw [← exponent_nonneg_iff]
  refine ⟨fun h => ?_, fun h s hpole0 hpole1 => abs_advance_le ⟨hpole0, hpole1⟩ h⟩
  by_contra hneg
  have hfar := two_le_advance_halving (not_le.mp hneg)
  obtain ⟨hpole0, hpole1⟩ := pole_halving 1
  have hnear := h _ hpole0 hpole1
  simp only [halving, sub_zero, abs_one] at hnear hfar
  exact absurd (hfar.trans ((le_abs_self _).trans hnear)) (by norm_num)

end exact

/-! ## Runs -/

/-- What moves a glide on. -/
inductive Call (σ : Type) where
  | advance (frames : ℕ)
  | aim (target : σ)

section runs

variable {σ : Type} [Scalar σ]

def perform (s : Smoother σ) : Call σ → Smoother σ
  | .advance frames => s.advance frames
  | .aim target => s.setTarget target

def run (s : Smoother σ) (calls : List (Call σ)) : Smoother σ :=
  calls.foldl perform s

end runs

/-- The targets that are set by some calls. -/
def aims {σ : Type} (calls : List (Call σ)) : List σ :=
  calls.filterMap fun
    | .aim target => some target
    | .advance _ => none

theorem mem_aims {σ : Type} {calls : List (Call σ)} {target : σ} :
    target ∈ aims calls ↔ .aim target ∈ calls := by
  rw [aims, List.mem_filterMap]
  constructor
  · rintro ⟨call, hcall, h⟩
    cases call with
    | advance frames => cases h
    | aim other =>
        obtain rfl := Option.some.inj h
        exact hcall
  · intro h
    exact ⟨.aim target, h, rfl⟩

/-- A value that is neither below all values of a row nor above all of them. -/
def Among (row : List ℝ) (value : ℝ) : Prop :=
  ∃ low ∈ row, ∃ high ∈ row, low ≤ value ∧ value ≤ high

theorem among_of_mem {row : List ℝ} {value : ℝ} (h : value ∈ row) : Among row value :=
  ⟨value, h, value, h, le_rfl, le_rfl⟩

/-- On the way to a value of the row nothing is passed that is not among it. -/
theorem Among.toward {row : List ℝ} {current target d : ℝ} (h : Among row current)
    (htarget : target ∈ row) (hd : 0 ≤ d ∧ d ≤ 1) :
    Among row (target + (current - target) * d) := by
  obtain ⟨low, hlow, high, hhigh, hle, hge⟩ := h
  rcases le_total current target with hbelow | habove
  · refine ⟨low, hlow, target, htarget, ?_, ?_⟩
    · nlinarith [mul_nonneg (sub_nonneg.mpr hbelow) (sub_nonneg.mpr hd.2)]
    · nlinarith [mul_nonneg (sub_nonneg.mpr hbelow) hd.1]
  · refine ⟨target, htarget, high, hhigh, ?_, ?_⟩
    · nlinarith [mul_nonneg (sub_nonneg.mpr habove) hd.1]
    · nlinarith [mul_nonneg (sub_nonneg.mpr habove) (sub_nonneg.mpr hd.2)]

theorem run_among {row : List ℝ} {calls : List (Call ℝ)}
    (hblocks : ∀ frames, .advance frames ∈ calls → 0 ≤ exponent frames)
    (haims : ∀ target, .aim target ∈ calls → target ∈ row) {s : Smoother ℝ}
    (hpole : 0 ≤ s.pole ∧ s.pole < 1) (htarget : s.target ∈ row) (hcurrent : Among row s.current) :
    Among row (s.run calls).current := by
  induction calls generalizing s with
  | nil => exact hcurrent
  | cons call rest ih =>
      have hrest : ∀ later : Smoother ℝ, 0 ≤ later.pole ∧ later.pole < 1 → later.target ∈ row →
          Among row later.current → Among row (later.run rest).current := fun later =>
        ih (fun n hn => hblocks n (List.mem_cons_of_mem _ hn))
          fun t ht => haims t (List.mem_cons_of_mem _ ht)
      cases call with
      | advance frames =>
          obtain ⟨d, hd0, hd1, hd⟩ := advance_share hpole (hblocks frames List.mem_cons_self)
          refine hrest (s.advance frames) ?_ ?_ ?_
          · rwa [pole_advance]
          · rwa [target_advance]
          · exact hd ▸ hcurrent.toward htarget ⟨hd0, hd1⟩
      | aim target =>
          exact hrest (s.setTarget target) hpole (haims target List.mem_cons_self) hcurrent

theorem run_among_iff (blocks : Set ℕ) :
    (∀ s : Smoother ℝ, 0 ≤ s.pole → s.pole < 1 → ∀ calls : List (Call ℝ),
        (∀ n, .advance n ∈ calls → n ∈ blocks) →
          Among (s.current :: s.target :: aims calls) (s.run calls).current) ↔
      ∀ n ∈ blocks, n % 2 ^ 32 < 2 ^ 31 := by
  simp only [← exponent_nonneg_iff]
  constructor
  · intro h n hn
    by_contra hneg
    have hfar := two_le_advance_halving (not_le.mp hneg)
    obtain ⟨hpole0, hpole1⟩ := pole_halving 1
    obtain ⟨-, -, high, hhigh, -, hle⟩ := h _ hpole0 hpole1 [.advance n] (by simpa using hn)
    have hone : high ≤ 1 := by
      rcases List.mem_cons.mp hhigh with rfl | hhigh
      · exact le_rfl
      · rw [List.mem_singleton.mp hhigh]
        exact zero_le_one
    exact absurd (hfar.trans (hle.trans hone)) (by norm_num)
  · intro h s hpole0 hpole1 calls hcalls
    refine run_among (fun n hmem => h n (hcalls n hmem)) (fun target hmem => ?_) ⟨hpole0, hpole1⟩
      (List.mem_cons_of_mem _ List.mem_cons_self) (among_of_mem List.mem_cons_self)
    exact List.mem_cons_of_mem _ (List.mem_cons_of_mem _ (mem_aims.mpr hmem))

/-- A block leads where its samples lead, and a value that comes close to its target
arrives, exactly if its length is below `2 ^ 31`.  Exactly if the lengths of all
blocks are below that modulo `2 ^ 32`, the value stays among the one that a glide
starts from and its targets so far, and no block leads away from the target. -/
theorem block_as_samples_iff (frames : ℕ) (blocks : Set ℕ) :
    ((∀ s : Smoother ℝ, 0 ≤ s.pole → s.pole < 1 → s.advance frames = (tick^[frames] s).settle) ↔
        frames < 2 ^ 31) ∧
      ((∀ s : Smoother ℝ, 0 ≤ s.pole → s.pole < 1 → ∀ calls : List (Call ℝ),
          (∀ n, .advance n ∈ calls → n ∈ blocks) →
            Among (s.current :: s.target :: aims calls) (s.run calls).current) ↔
        ∀ n ∈ blocks, n % 2 ^ 32 < 2 ^ 31) ∧
      ((∀ s : Smoother ℝ, 0 ≤ s.pole → s.pole < 1 →
          |(s.advance frames).current - s.target| ≤ |s.current - s.target|) ↔
        frames % 2 ^ 32 < 2 ^ 31) :=
  ⟨advance_eq_ticks_iff frames, run_among_iff blocks, abs_advance_le_iff frames⟩

/-! ## Glides at a sample rate -/

theorem poleFor_mem (rate : ℝ) : 0 < poleFor rate ∧ poleFor rate < 1 := by
  have hpole : poleFor rate = Real.exp (-2 * Real.pi * 5 / max rate 1) := by
    rw [poleFor, Scalar.max_real, Scalar.one_real]
    rfl
  have hrate : 0 < max rate 1 := lt_max_of_lt_right one_pos
  have hfall : -2 * Real.pi * 5 / max rate 1 < 0 :=
    div_neg_of_neg_of_pos (by linarith [Real.pi_pos]) hrate
  rw [hpole]
  exact ⟨Real.exp_pos _, Real.exp_lt_one_iff.mpr hfall⟩

/-- A block of `2 ^ 31` frames on the way from 0 to 1 leads below 0, away from its target. -/
theorem block_leads_away :
    let s : Smoother ℝ := (ofValue 0 44100).setTarget 1
    (0 ≤ s.pole ∧ s.pole < 1) ∧ (s.advance (2 ^ 31)).current < 0 ∧
      s.advance (2 ^ 31) ≠ (tick^[2 ^ 31] s).settle := by
  intro s
  obtain ⟨hpole0, hpole1⟩ : 0 < s.pole ∧ s.pole < 1 := poleFor_mem 44100
  have hmoved (d : ℝ) : s.target + (s.current - s.target) * d = 1 - d := by
    show (1 : ℝ) + (0 - 1) * d = 1 - d
    ring
  have hgrows : 1 < s.pole ^ exponent (2 ^ 31) := by
    refine one_lt_zpow_of_neg₀ hpole0 hpole1 ?_
    rw [exponent_eq]
    norm_num
  have hblock : (s.advance (2 ^ 31)).current = 1 - s.pole ^ exponent (2 ^ 31) := by
    have hfar : 1 ≤ |1 - s.pole ^ exponent (2 ^ 31) - 1| := by
      rw [sub_sub_cancel_left, abs_neg]
      exact hgrows.le.trans (le_abs_self _)
    rw [advance_real, hmoved, settle_of_far hfar]
  have hticks : 0 ≤ (tick^[2 ^ 31] s).settle.current := by
    have hfalls : s.pole ^ (2 ^ 31) ≤ 1 := pow_le_one₀ hpole0.le hpole1.le
    rcases current_settle (tick^[2 ^ 31] s) with harrived | hsame
    · rw [harrived, ticks_eq]
      exact zero_le_one
    · rw [hsame, ticks_eq, hmoved]
      exact sub_nonneg.mpr hfalls
  have hbelow : (s.advance (2 ^ 31)).current < 0 := by
    rw [hblock]
    exact sub_neg.mpr hgrows
  refine ⟨⟨hpole0.le, hpole1⟩, hbelow, fun heq => ?_⟩
  rw [heq] at hbelow
  exact absurd hticks (not_le.mpr hbelow)

end Smoother

end Multisample
