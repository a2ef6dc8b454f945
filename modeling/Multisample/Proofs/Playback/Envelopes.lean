import Mathlib.Algebra.Order.Floor.Semiring
import Multisample.Playback.Envelope
import Multisample.Proofs.Numeric.Exact

/-!
# How long envelopes take

An envelope is asked for one frame after the other and can be let go of at any
moment, once or often.  Whatever the order of the calls, its stages follow each other
in one direction and its level moves by a single step at a time.  So its two lines
take as long as they are meant to: the attack is over with its last frame, and a
release with the frame in which a line of its slope comes down to zero.
-/

namespace Multisample

/-- How far an envelope is. -/
def Stage.rank : Stage → ℕ
  | attack => 0
  | sustain => 1
  | release => 2
  | done => 3

namespace Envelope

/-! ## Calls -/

/-- What can be asked of an envelope. -/
inductive Call where
  | next
  | release
deriving DecidableEq

/-- What a call makes of a stage: only the frames of a line can end it, and letting go
leads to the release from wherever there is something to let go of. -/
inductive Moves : Call → Stage → Stage → Prop where
  | rises : Moves .next .attack .attack
  | full : Moves .next .attack .sustain
  | held : Moves .next .sustain .sustain
  | falls : Moves .next .release .release
  | silent : Moves .next .release .done
  | letGo {stage : Stage} (h : stage ≠ .done) : Moves .release stage .release
  | over (call : Call) : Moves call .done .done

theorem Moves.rank_le {call : Call} {before after : Stage} (h : Moves call before after) :
    before.rank ≤ after.rank := by
  cases h with
  | letGo h =>
      cases before with
      | done => exact absurd rfl h
      | _ => decide
  | _ => decide

section calls

variable {σ : Type} [Scalar σ]

def perform (e : Envelope σ) : Call → Envelope σ
  | .next => e.next
  | .release => e.release

def run (e : Envelope σ) (calls : List Call) : Envelope σ :=
  calls.foldl perform e

/-- The levels that some calls return, one for each frame. -/
def levels : Envelope σ → List Call → List σ
  | _, [] => []
  | e, .next :: rest => e.next.level :: levels e.next rest
  | e, .release :: rest => levels e.release rest

theorem run_cons (e : Envelope σ) (call : Call) (rest : List Call) :
    e.run (call :: rest) = (e.perform call).run rest :=
  rfl

theorem run_append (e : Envelope σ) (calls more : List Call) :
    e.run (calls ++ more) = (e.run calls).run more :=
  List.foldl_append

theorem run_nexts_succ (e : Envelope σ) (n : ℕ) :
    e.run (List.replicate (n + 1) .next) = (e.run (List.replicate n .next)).next := by
  rw [List.replicate_succ', run_append]
  rfl

omit [Scalar σ] in
/-- Letting go changes the stage only. -/
theorem release_eq (e : Envelope σ) :
    e.release = { e with stage := if e.stage = .done then .done else .release } := by
  obtain ⟨stage, level, attackStep, releaseStep⟩ := e
  cases stage <;> rfl

omit [Scalar σ] in
theorem release_of_releasing {e : Envelope σ} (h : e.stage = .release) : e.release = e := by
  rw [release, h]

theorem next_of_held {e : Envelope σ} (h : e.stage = .sustain) : e.next = e := by
  rw [next, h]

theorem next_of_done {e : Envelope σ} (h : e.stage = .done) : e.next = e := by
  rw [next, h]

theorem moves_perform (e : Envelope σ) (call : Call) :
    Moves call e.stage (e.perform call).stage := by
  cases call with
  | next =>
      cases h : e.stage with
      | attack =>
          simp only [perform, next, h]
          split
          · exact .full
          · exact h ▸ .rises
      | sustain => rw [perform, next_of_held h, h]; exact .held
      | release =>
          simp only [perform, next, h]
          split
          · exact .silent
          · exact h ▸ .falls
      | done => rw [perform, next_of_done h, h]; exact .over _
  | release =>
      rw [perform, release_eq]
      by_cases h : e.stage = .done
      · rw [if_pos h, h]
        exact .over _
      · rw [if_neg h]
        exact .letGo h

theorem rank_le_run (e : Envelope σ) (calls : List Call) :
    e.stage.rank ≤ (e.run calls).stage.rank := by
  induction calls generalizing e with
  | nil => exact le_rfl
  | cons call rest ih => exact (e.moves_perform call).rank_le.trans (ih (e.perform call))

theorem run_of_done {e : Envelope σ} (h : e.stage = .done) (calls : List Call) :
    e.run calls = e := by
  induction calls with
  | nil => rfl
  | cons call rest ih =>
      have hsame : e.perform call = e := by
        cases call with
        | next => exact next_of_done h
        | release => rw [perform, release, h]
      rw [run_cons, hsame, ih]

end calls

/-! ## Frames on exact numbers -/

theorem next_attack {e : Envelope ℝ} (h : e.stage = .attack) :
    e.next = if 1 ≤ e.level + e.attackStep then { e with level := 1, stage := .sustain }
      else { e with level := e.level + e.attackStep } := by
  simp only [next, h, Scalar.le_real, Scalar.one_real, decide_eq_true_eq]

theorem next_release {e : Envelope ℝ} (h : e.stage = .release) :
    e.next = if e.level - e.releaseStep ≤ 0 then { e with level := 0, stage := .done }
      else { e with level := e.level - e.releaseStep } := by
  simp only [next, h, Scalar.le_real, Scalar.zero_real, decide_eq_true_eq]

/-- How far a line of so many frames gets in one of them. -/
noncomputable def slope (frames : ℕ) : ℝ :=
  1 / (max frames 1 : ℕ)

theorem slope_pos (frames : ℕ) : 0 < slope frames := by
  have hframes : 0 < max frames 1 := lt_max_of_lt_right one_pos
  exact one_div_pos.mpr (Nat.cast_pos.mpr hframes)

theorem slope_le_one (frames : ℕ) : slope frames ≤ 1 := by
  have hframes : (1 : ℝ) ≤ (max frames 1 : ℕ) := Nat.one_le_cast.mpr (le_max_right _ _)
  exact div_le_one_of_le₀ hframes (Nat.cast_nonneg _)

theorem start_eq (attackFrames releaseFrames : ℕ) :
    (start attackFrames releaseFrames : Envelope ℝ) =
      ⟨if attackFrames = 0 then .sustain else .attack, if attackFrames = 0 then 1 else 0,
        slope attackFrames, slope releaseFrames⟩ := by
  simp only [start, slope, Scalar.one_real, Scalar.zero_real, Scalar.ofNat_real]

/-- An envelope with two lines of some lengths, at a level that fits its stage. -/
structure Fits (attackFrames releaseFrames : ℕ) (e : Envelope ℝ) : Prop where
  attackStep : e.attackStep = slope attackFrames
  releaseStep : e.releaseStep = slope releaseFrames
  nonneg : 0 ≤ e.level
  le_one : e.level ≤ 1
  held : e.stage = .sustain → e.level = 1
  silent : e.stage = .done → e.level = 0

section lines

variable {attackFrames releaseFrames : ℕ}

theorem fits_start : Fits attackFrames releaseFrames (start attackFrames releaseFrames) := by
  rw [start_eq]
  by_cases h : attackFrames = 0
  · simp only [h, if_true]
    exact ⟨rfl, rfl, zero_le_one, le_rfl, fun _ => rfl, nofun⟩
  · simp only [h, if_false]
    exact ⟨rfl, rfl, le_rfl, zero_le_one, nofun, nofun⟩

theorem Fits.next {e : Envelope ℝ} (h : e.Fits attackFrames releaseFrames) :
    e.next.Fits attackFrames releaseFrames ∧
      e.next.level ≤ e.level + slope attackFrames ∧
      e.level ≤ e.next.level + slope releaseFrames := by
  have hup := slope_pos attackFrames
  have hdown := slope_pos releaseFrames
  have hnonneg := h.nonneg
  have hle := h.le_one
  cases hstage : e.stage with
  | attack =>
      rw [next_attack hstage, h.attackStep]
      split
      · rename_i hfull
        exact ⟨⟨rfl, h.releaseStep, zero_le_one, le_rfl, fun _ => rfl, nofun⟩, hfull,
          by dsimp only; linarith⟩
      · rename_i hmore
        refine ⟨⟨rfl, h.releaseStep, ?_, ?_, ?_, ?_⟩, le_rfl, ?_⟩ <;>
          simp only [hstage, reduceCtorEq, false_implies] <;> linarith
  | sustain =>
      rw [next_of_held hstage]
      exact ⟨h, by linarith, by linarith⟩
  | release =>
      rw [next_release hstage, h.releaseStep]
      split
      · exact ⟨⟨h.attackStep, rfl, le_rfl, zero_le_one, nofun, fun _ => rfl⟩,
          by dsimp only; linarith, by dsimp only; linarith⟩
      · refine ⟨⟨h.attackStep, rfl, ?_, ?_, ?_, ?_⟩, ?_, ?_⟩ <;>
          simp only [hstage, reduceCtorEq, false_implies] <;> linarith
  | done =>
      rw [next_of_done hstage]
      exact ⟨h, by linarith, by linarith⟩

theorem Fits.release {e : Envelope ℝ} (h : e.Fits attackFrames releaseFrames) :
    e.release.Fits attackFrames releaseFrames := by
  rw [release_eq]
  refine ⟨h.attackStep, h.releaseStep, h.nonneg, h.le_one, ?_, ?_⟩
  · dsimp only
    split <;> nofun
  · dsimp only
    split
    · rename_i hdone
      exact fun _ => h.silent hdone
    · nofun

theorem Fits.run {e : Envelope ℝ} (h : e.Fits attackFrames releaseFrames) (calls : List Call) :
    (e.run calls).Fits attackFrames releaseFrames := by
  induction calls generalizing e with
  | nil => exact h
  | cons call rest ih =>
      cases call with
      | next => exact ih h.next.1
      | release => exact ih h.release

/-- From one frame to the next the level rises and falls by one step at most. -/
theorem Fits.isChain_levels {e : Envelope ℝ} (h : e.Fits attackFrames releaseFrames)
    (calls : List Call) : List.IsChain
      (fun v w => w ≤ v + slope attackFrames ∧ v ≤ w + slope releaseFrames)
      (e.level :: e.levels calls) := by
  induction calls generalizing e with
  | nil => exact List.isChain_singleton _
  | cons call rest ih =>
      cases call with
      | next => exact List.isChain_cons_cons.mpr ⟨h.next.2, ih h.next.1⟩
      | release =>
          have hlevel : e.release.level = e.level := by rw [release_eq]
          exact hlevel ▸ ih h.release

/-! ## The attack -/

theorem run_attack {n : ℕ} (h : n < attackFrames) :
    (start attackFrames releaseFrames : Envelope ℝ).run (List.replicate n .next) =
      ⟨.attack, n / attackFrames, slope attackFrames, slope releaseFrames⟩ := by
  have hslope : slope attackFrames = 1 / attackFrames := by
    rw [slope, Nat.max_eq_left (Nat.one_le_of_lt h)]
  have hframes : (0 : ℝ) < attackFrames := Nat.cast_pos.mpr (Nat.zero_lt_of_lt h)
  induction n with
  | zero =>
      have hne : attackFrames ≠ 0 := Nat.ne_of_gt h
      rw [Nat.cast_zero, zero_div]
      simp only [List.replicate_zero, run, List.foldl_nil, start_eq, hne, if_false]
  | succ n ih =>
      have hlevel : (n : ℝ) / attackFrames + slope attackFrames = (n + 1 : ℕ) / attackFrames := by
        rw [hslope, Nat.cast_succ, add_div]
      have hbelow : ((n + 1 : ℕ) : ℝ) / attackFrames < 1 :=
        (div_lt_one hframes).mpr (Nat.cast_lt.mpr h)
      rw [run_nexts_succ, ih (Nat.lt_of_succ_lt h), next_attack rfl]
      dsimp only
      rw [hlevel, if_neg (not_le.mpr hbelow)]

theorem run_held {n : ℕ} (h : attackFrames ≤ n) :
    (start attackFrames releaseFrames : Envelope ℝ).run (List.replicate n .next) =
      ⟨.sustain, 1, slope attackFrames, slope releaseFrames⟩ := by
  induction n, h using Nat.le_induction with
  | base =>
      cases attackFrames with
      | zero => simp only [List.replicate_zero, run, List.foldl_nil, start_eq, if_true]
      | succ n =>
          have hfull : 1 ≤ (n : ℝ) / (n + 1 : ℕ) + slope (n + 1) := by
            have hpos : ((n + 1 : ℕ) : ℝ) ≠ 0 := Nat.cast_ne_zero.mpr (Nat.succ_ne_zero n)
            rw [slope, Nat.max_eq_left (Nat.le_add_left 1 n), ← add_div, ← Nat.cast_succ,
              div_self hpos]
          rw [run_nexts_succ, run_attack (Nat.lt_succ_self n), next_attack rfl]
          exact if_pos hfull
  | succ n _ ih => rw [run_nexts_succ, ih, next_of_held rfl]

/-! ## The release -/

/-- The frames that a line takes from a level down to zero, and at least one. -/
noncomputable def framesDown (releaseFrames : ℕ) (level : ℝ) : ℕ :=
  max 1 ⌈level * (max releaseFrames 1 : ℕ)⌉₊

theorem slope_mul (frames : ℕ) : slope frames * (max frames 1 : ℕ) = 1 := by
  have hframes : ((max frames 1 : ℕ) : ℝ) ≠ 0 :=
    Nat.cast_ne_zero.mpr (Nat.ne_of_gt (lt_max_of_lt_right one_pos))
  rw [slope, one_div_mul_cancel hframes]

theorem framesDown_of_le {level : ℝ} (h : level - slope releaseFrames ≤ 0) :
    framesDown releaseFrames level = 1 := by
  have hle : level * (max releaseFrames 1 : ℕ) ≤ 1 := by
    rw [← slope_mul releaseFrames]
    exact mul_le_mul_of_nonneg_right (sub_nonpos.mp h) (Nat.cast_nonneg _)
  rw [framesDown, max_eq_left]
  exact Nat.ceil_le.mpr (by rwa [Nat.cast_one])

/-- A level that is not reached in one frame is one frame further from zero. -/
theorem framesDown_of_lt {level : ℝ} (h : 0 < level - slope releaseFrames) :
    framesDown releaseFrames level =
      framesDown releaseFrames (level - slope releaseFrames) + 1 := by
  have hmore : (level - slope releaseFrames) * (max releaseFrames 1 : ℕ) + 1 =
      level * (max releaseFrames 1 : ℕ) := by
    rw [sub_mul, slope_mul, sub_add_cancel]
  have hpos : 0 < (level - slope releaseFrames) * (max releaseFrames 1 : ℕ) :=
    mul_pos h (Nat.cast_pos.mpr (lt_max_of_lt_right one_pos))
  have hone : 1 ≤ ⌈(level - slope releaseFrames) * (max releaseFrames 1 : ℕ)⌉₊ :=
    Nat.ceil_pos.mpr hpos
  rw [framesDown, framesDown, ← hmore, Nat.ceil_add_one hpos.le, max_eq_right hone,
    max_eq_right (Nat.le_add_left 1 _)]

/-- A release is over once it was asked for as many frames as its line takes, however often it was
let go of meanwhile. -/
theorem run_release_iff {e : Envelope ℝ} (h : e.stage = .release)
    (hstep : e.releaseStep = slope releaseFrames) (calls : List Call) :
    (e.run calls).stage = .done ↔ framesDown releaseFrames e.level ≤ calls.count .next := by
  induction calls generalizing e with
  | nil =>
      have hpos : 1 ≤ framesDown releaseFrames e.level := le_max_left _ _
      rw [run, List.foldl_nil, h, List.count_nil]
      exact iff_of_false (by decide) (by omega)
  | cons call rest ih =>
      cases call with
      | next =>
          rw [run_cons, perform, next_release h, hstep, List.count_cons_self]
          split
          · rename_i hover
            rw [run_of_done rfl, framesDown_of_le hover]
            exact iff_of_true rfl (Nat.le_add_left 1 _)
          · rename_i hmore
            have hlater := ih (e := ⟨e.stage, e.level - slope releaseFrames, e.attackStep,
              slope releaseFrames⟩) h rfl
            rw [hlater, framesDown_of_lt (not_le.mp hmore)]
            exact Nat.succ_le_succ_iff.symm
      | release =>
          have hcount : (Call.release :: rest).count .next = rest.count .next :=
            List.count_cons_of_ne (by decide)
          rw [run_cons, perform, release_of_releasing h, ih h hstep, hcount]

/-- Whatever was done before, letting go of an envelope leads to silence after as many frames. -/
theorem Fits.release_iff {e : Envelope ℝ} (h : e.Fits attackFrames releaseFrames)
    (hstage : e.stage ≠ .done) (calls : List Call) :
    (e.release.run calls).stage = .done ↔
      framesDown releaseFrames e.level ≤ calls.count .next := by
  have hreleasing : e.release.stage = .release := by rw [release_eq, if_neg hstage]
  have hlevel : e.release.level = e.level := by rw [release_eq]
  rw [run_release_iff hreleasing h.release.releaseStep, hlevel]

/-- What the lengths of its two lines say of an envelope, whatever it is asked. -/
structure KeepsTime (attackFrames releaseFrames : ℕ) (e : Envelope ℝ) : Prop where
  bounded : ∀ calls, 0 ≤ (e.run calls).level ∧ (e.run calls).level ≤ 1
  moves : ∀ calls call, Moves call (e.run calls).stage ((e.run calls).perform call).stage
  forward : ∀ calls more, (e.run calls).stage.rank ≤ (e.run (calls ++ more)).stage.rank
  /-- No level is further from the one before it than its line gets in a frame; the first one is
  compared with the level that the envelope starts from. -/
  gradual : ∀ calls, List.IsChain (fun v w : ℝ => w ≤ v + 1 / (max attackFrames 1 : ℕ) ∧
    v - 1 / (max releaseFrames 1 : ℕ) ≤ w) (e.level :: e.levels calls)
  attack : ∀ n < attackFrames, (e.run (List.replicate n .next)).stage = .attack ∧
    (e.run (List.replicate n .next)).level = n / attackFrames
  sustain : ∀ n, attackFrames ≤ n → (e.run (List.replicate n .next)).stage = .sustain ∧
    (e.run (List.replicate n .next)).level = 1
  /-- A release from some level is over with the frame in which its line is down at zero, however
  often the envelope was let go of before and is let go of after. -/
  release : ∀ before after, (e.run before).stage ≠ .done →
    (((e.run before).release.run after).stage = .done ↔
      max 1 ⌈(e.run before).level * (max releaseFrames 1 : ℕ)⌉₊ ≤ after.count .next)
  done : ∀ calls, (e.run calls).stage = .done →
    (e.run calls).level = 0 ∧ ∀ more, e.run (calls ++ more) = e.run calls

/-- Every envelope takes the time that the lengths of its lines say. -/
theorem keeps_time (attackFrames releaseFrames : ℕ) :
    KeepsTime attackFrames releaseFrames (start attackFrames releaseFrames) := by
  have hfits : Fits attackFrames releaseFrames (start attackFrames releaseFrames) := fits_start
  exact {
    bounded := fun calls => ⟨(hfits.run calls).nonneg, (hfits.run calls).le_one⟩
    moves := fun calls call => moves_perform _ call
    forward := fun calls more => by
      rw [run_append]
      exact rank_le_run _ more
    gradual := fun calls => (hfits.isChain_levels calls).imp fun _ _ h =>
      ⟨h.1, sub_le_iff_le_add.mpr h.2⟩
    attack := fun n hn => by
      rw [run_attack hn]
      exact ⟨rfl, rfl⟩
    sustain := fun n hn => by
      rw [run_held hn]
      exact ⟨rfl, rfl⟩
    release := fun before after h => (hfits.run before).release_iff h after
    done := fun calls h => by
      refine ⟨(hfits.run calls).silent h, fun more => ?_⟩
      rw [run_append, run_of_done h] }

end lines

end Envelope

end Multisample
