import Mathlib.Data.List.Induction
import Mathlib.Data.Nat.PSub
import Multisample.Effects.DelayLine
import Multisample.Proofs.Numeric.Exact

/-!
# A delay line is its history

The ring of a delay line holds the samples that were pushed since it was last
cleared, the latest first when it is read backwards from where the next one goes.
So a read comes to the straight line between two samples of that history, where
silence lies behind its end, and no place that is read or written is outside the
ring.
-/

namespace Multisample

namespace DelayLine

section ring

variable {σ : Type} {d : DelayLine σ} {whole : ℕ}

/-! ## Places in the ring -/

/-- Where the sample so many pushes back is kept. -/
def place (d : DelayLine σ) (whole : ℕ) : ℕ :=
  (d.write + d.buffer.size - whole) % d.buffer.size

/-- A ring with room for the shortest delay and the sample behind it. -/
structure Sound (d : DelayLine σ) : Prop where
  room : 3 ≤ d.buffer.size
  inside : d.write < d.buffer.size

/-- Backwards from where the next sample goes, once around the ring. -/
theorem Sound.place_eq (h : d.Sound) (hle : whole ≤ d.buffer.size) :
    d.place whole = if whole ≤ d.write then d.write - whole
      else d.write + d.buffer.size - whole := by
  have hinside := h.inside
  unfold place
  split
  · have hsum : d.write + d.buffer.size - whole = d.write - whole + d.buffer.size := by omega
    rw [hsum, Nat.add_mod_right, Nat.mod_eq_of_lt (by omega)]
  · rw [Nat.mod_eq_of_lt (by omega)]

theorem Sound.place_lt (h : d.Sound) (whole : ℕ) : d.place whole < d.buffer.size :=
  Nat.mod_lt _ (Nat.zero_lt_of_lt h.inside)

/-- One sample further back is one place further down. -/
theorem Sound.place_succ (h : d.Sound) (hlt : whole < d.buffer.size) :
    (d.place whole + d.buffer.size - 1) % d.buffer.size = d.place (whole + 1) := by
  have hinside := h.inside
  rw [h.place_eq hlt.le, h.place_eq hlt]
  split <;> split
  · have hsum : d.write - whole + d.buffer.size - 1 = d.write - (whole + 1) + d.buffer.size := by
      omega
    rw [hsum, Nat.add_mod_right, Nat.mod_eq_of_lt (by omega)]
  · rw [Nat.mod_eq_of_lt (by omega)]
    omega
  · omega
  · have hsum : d.write + d.buffer.size - whole + d.buffer.size - 1 =
        d.write + d.buffer.size - (whole + 1) + d.buffer.size := by
      omega
    rw [hsum, Nat.add_mod_right, Nat.mod_eq_of_lt (by omega)]

/-! ## Pushing -/

/-- A push that fails where the next sample would go outside the ring. -/
def push? (d : DelayLine σ) (x : σ) : Option (DelayLine σ) :=
  if h : d.write < d.buffer.size then
    some ⟨d.buffer.set d.write x h, (d.write + 1) % d.buffer.size⟩
  else none

theorem Sound.push?_eq (h : d.Sound) (x : σ) : d.push? x = some (d.push x) := by
  rw [push?, dif_pos h.inside, DelayLine.push, Array.setIfInBounds, dif_pos h.inside]

@[simp] theorem size_push (d : DelayLine σ) (x : σ) : (d.push x).buffer.size = d.buffer.size :=
  Array.size_setIfInBounds

theorem Sound.write_push (h : d.Sound) (x : σ) :
    (d.push x).write = if d.write + 1 = d.buffer.size then 0 else d.write + 1 := by
  have hinside := h.inside
  show (d.write + 1) % d.buffer.size = _
  split
  · rename_i hlast
    rw [hlast, Nat.mod_self]
  · rw [Nat.mod_eq_of_lt (by omega)]

theorem Sound.push (h : d.Sound) (x : σ) : (d.push x).Sound where
  room := by rw [size_push]; exact h.room
  inside := by
    rw [size_push]
    exact Nat.mod_lt _ (Nat.zero_lt_of_lt h.inside)

/-- A push moves every sample one further back, and none to another place. -/
theorem Sound.place_push (h : d.Sound) (x : σ) (hlt : whole < d.buffer.size) :
    (d.push x).place (whole + 1) = d.place whole := by
  have hinside := h.inside
  have hle : whole + 1 ≤ (d.push x).buffer.size := by rwa [size_push]
  rw [(h.push x).place_eq hle, h.place_eq hlt.le, h.write_push, size_push]
  split <;> split <;> split <;> omega

/-! ## Calls -/

/-- What changes a delay line. -/
inductive Call (σ : Type) where
  | push (x : σ)
  | clear

/-- What was pushed since the line was last cleared, the latest first. -/
def history (calls : List (Call σ)) : List σ :=
  calls.foldl (fun past call => match call with
    | .push x => x :: past
    | .clear => []) []

variable [Scalar σ]

def perform (d : DelayLine σ) : Call σ → DelayLine σ
  | .push x => d.push x
  | .clear => d.clear

def run (d : DelayLine σ) (calls : List (Call σ)) : DelayLine σ :=
  calls.foldl perform d

@[simp] theorem size_clear (d : DelayLine σ) : d.clear.buffer.size = d.buffer.size :=
  Array.size_replicate

theorem Sound.clear (h : d.Sound) : d.clear.Sound where
  room := by rw [size_clear]; exact h.room
  inside := by
    rw [size_clear]
    exact Nat.zero_lt_of_lt h.inside

/-! ## Reading -/

/-- A delay as the line takes it: one sample at least, and no more than there is room for. -/
def taken (d : DelayLine σ) (delay : σ) : σ :=
  Scalar.clamp delay 1 (Scalar.ofNat d.maxDelay)

/-- A read that fails where a difference would be negative or a place outside the ring. -/
def read? (d : DelayLine σ) (delay : σ) : Option σ := do
  let longest ← Nat.psub d.buffer.size 2
  let delay := Scalar.clamp delay 1 (Scalar.ofNat longest)
  let whole := Scalar.toNat delay
  let newer := (← Nat.psub (d.write + d.buffer.size) whole) % d.buffer.size
  let older := (← Nat.psub (newer + d.buffer.size) 1) % d.buffer.size
  let near ← d.buffer[newer]?
  let far ← d.buffer[older]?
  return near + (far - near) * (delay - Scalar.ofNat whole)

theorem back_eq (d : DelayLine σ) (whole : ℕ) :
    d.back whole = (d.buffer[d.place whole]?).getD 0 :=
  Array.getD_eq_getD_getElem? ..

theorem Sound.getElem?_place (h : d.Sound) (whole : ℕ) :
    d.buffer[d.place whole]? = some (d.back whole) := by
  rw [back_eq, Array.getElem?_eq_getElem (h.place_lt whole), Option.getD_some]

theorem Sound.read?_eq (h : d.Sound) {delay : σ}
    (hlt : Scalar.toNat (d.taken delay) < d.buffer.size) :
    d.read? delay = some (d.read delay) := by
  have htaken : Scalar.clamp delay 1 (Scalar.ofNat d.maxDelay) = d.taken delay := rfl
  set whole := Scalar.toNat (d.taken delay) with hwhole
  have hroom := h.room
  have hlongest : Nat.psub d.buffer.size 2 = some d.maxDelay :=
    Nat.psub_eq_sub (by omega)
  have hnewer : Nat.psub (d.write + d.buffer.size) whole =
      some (d.write + d.buffer.size - whole) :=
    Nat.psub_eq_sub (by omega)
  have holder : Nat.psub (d.place whole + d.buffer.size) 1 =
      some (d.place whole + d.buffer.size - 1) :=
    Nat.psub_eq_sub (by omega)
  have hnear : d.buffer[(d.write + d.buffer.size - whole) % d.buffer.size]? =
      some (d.back whole) := h.getElem?_place whole
  have hfar : d.buffer[(d.place whole + d.buffer.size - 1) % d.buffer.size]? =
      some (d.back (whole + 1)) := by
    rw [h.place_succ hlt, h.getElem?_place]
  simp only [place] at holder hfar
  simp only [read?, hlongest, htaken, ← hwhole, hnewer, holder, hnear, hfar, Option.bind_eq_bind,
    Option.bind_some]
  rfl

theorem Sound.back_push_one (h : d.Sound) (x : σ) : (d.push x).back 1 = x := by
  have hplace : (d.push x).place (0 + 1) = d.write := by
    rw [h.place_push x (Nat.zero_lt_of_lt h.inside), h.place_eq (Nat.zero_le _)]
    rfl
  rw [back_eq, hplace]
  show ((d.buffer.setIfInBounds d.write x)[d.write]?).getD 0 = x
  rw [Array.getElem?_setIfInBounds_self_of_lt h.inside]
  rfl

theorem Sound.back_push (h : d.Sound) (x : σ) (hlt : whole + 1 < d.buffer.size) :
    (d.push x).back (whole + 2) = d.back (whole + 1) := by
  have hother : d.write ≠ d.place (whole + 1) := by
    rw [h.place_eq hlt.le]
    split <;> omega
  rw [back_eq, back_eq, h.place_push x hlt]
  show ((d.buffer.setIfInBounds d.write x)[d.place (whole + 1)]?).getD 0 = _
  rw [Array.getElem?_setIfInBounds_ne hother]

/-- A ring of silence reads as silence, wherever the next sample goes. -/
theorem back_silent (size write whole : ℕ) :
    (⟨Array.replicate size 0, write⟩ : DelayLine σ).back whole = 0 := by
  rw [back_eq, Array.getElem?_replicate]
  split <;> rfl

/-! ## The ring holds the history -/

/-- A sound ring that holds a row of samples, the first of them pushed last, with silence behind. -/
structure Holds (d : DelayLine σ) (past : List σ) : Prop where
  sound : d.Sound
  back : ∀ i < d.buffer.size, d.back (i + 1) = past.getD i 0

theorem Holds.push {past : List σ} (h : d.Holds past) (x : σ) : (d.push x).Holds (x :: past) where
  sound := h.sound.push x
  back := by
    intro i hi
    rw [size_push] at hi
    cases i with
    | zero => exact h.sound.back_push_one x
    | succ i =>
        rw [h.sound.back_push x hi, List.getD_cons_succ]
        exact h.back i (Nat.lt_of_succ_lt hi)

theorem Holds.clear {past : List σ} (h : d.Holds past) : d.clear.Holds [] where
  sound := h.sound.clear
  back := fun _ _ => back_silent ..

theorem sound_ofFrames (frames : ℕ) : (ofFrames frames : DelayLine σ).Sound where
  room := by
    rw [ofFrames, Array.size_replicate]
    omega
  inside := by
    rw [ofFrames, Array.size_replicate]
    exact Nat.zero_lt_succ _

theorem holds_run (frames : ℕ) (calls : List (Call σ)) :
    ((ofFrames frames : DelayLine σ).run calls).Holds (history calls) := by
  induction calls using List.reverseRecOn with
  | nil => exact ⟨sound_ofFrames frames, fun _ _ => back_silent ..⟩
  | append_singleton calls call ih =>
      rw [run, history, List.foldl_concat, List.foldl_concat]
      cases call with
      | push x => exact ih.push x
      | clear => exact ih.clear

theorem size_run (frames : ℕ) (calls : List (Call σ)) :
    ((ofFrames frames : DelayLine σ).run calls).buffer.size = max frames 1 + 2 := by
  induction calls using List.reverseRecOn with
  | nil => exact Array.size_replicate
  | append_singleton calls call ih =>
      rw [run, List.foldl_concat, ← ih]
      cases call with
      | push x => exact size_push _ x
      | clear => exact size_clear _

end ring

/-! ## Reading on exact numbers -/

section exact

variable {d : DelayLine ℝ}

theorem taken_real (d : DelayLine ℝ) (delay : ℝ) :
    d.taken delay = min (max delay 1) d.maxDelay := by
  rw [taken, Scalar.clamp_real, Scalar.one_real, Scalar.ofNat_real]

/-- The whole samples of a delay that is taken and one more are in the ring. -/
theorem Sound.floor_taken (h : d.Sound) (delay : ℝ) :
    1 ≤ ⌊d.taken delay⌋₊ ∧ ⌊d.taken delay⌋₊ + 2 ≤ d.buffer.size := by
  have hroom := h.room
  have hsize : d.maxDelay + 2 = d.buffer.size := Nat.sub_add_cancel (by omega)
  have hlongest : (1 : ℝ) ≤ d.maxDelay := Nat.one_le_cast.mpr (by omega)
  rw [taken_real]
  have hlow : 1 ≤ min (max delay 1) (d.maxDelay : ℝ) := le_min (le_max_right _ _) hlongest
  have hhigh : ⌊min (max delay 1) (d.maxDelay : ℝ)⌋₊ ≤ d.maxDelay :=
    Nat.floor_le_of_le (min_le_right _ _)
  exact ⟨Nat.one_le_floor_iff _ |>.mpr hlow, by omega⟩

theorem taken_nonneg (d : DelayLine ℝ) (delay : ℝ) : 0 ≤ d.taken delay := by
  rw [taken_real]
  exact le_min (zero_le_one.trans (le_max_right _ _)) (Nat.cast_nonneg _)

/-- The straight line through a sequence of samples, at a time between two of them. -/
noncomputable def lineAt (samples : ℕ → ℝ) (t : ℝ) : ℝ :=
  samples ⌊t⌋₊ * (1 - Int.fract t) + samples (⌊t⌋₊ + 1) * Int.fract t

theorem read_eq (d : DelayLine ℝ) (delay : ℝ) : d.read delay = lineAt d.back (d.taken delay) := by
  have hfract : d.taken delay - ⌊d.taken delay⌋₊ = Int.fract (d.taken delay) := by
    rw [Int.fract, natCast_floor_eq_intCast_floor (d.taken_nonneg delay)]
  rw [lineAt, ← hfract]
  show d.back ⌊d.taken delay⌋₊ + (d.back (⌊d.taken delay⌋₊ + 1) - d.back ⌊d.taken delay⌋₊) *
    (d.taken delay - ⌊d.taken delay⌋₊) = _
  ring

/-- After any calls the line reads, at a delay that is brought into its range, the straight line
through the samples that were pushed since it was last cleared, the latest at 1 and silence behind
the first of them; and no place outside the ring is read or written. -/
theorem reads_history (frames : ℕ) (calls : List (Call ℝ)) :
    let d := (ofFrames frames : DelayLine ℝ).run calls
    d.maxDelay = max frames 1 ∧
      (∀ delay, d.read delay =
        lineAt (fun i => (history calls).getD (i - 1) 0) (min (max delay 1) d.maxDelay)) ∧
      (∀ delay, d.read? delay = some (d.read delay)) ∧
      ∀ x, d.push? x = some (d.push x) := by
  intro d
  have hholds : d.Holds (history calls) := holds_run frames calls
  refine ⟨?_, fun delay => ?_, fun delay => ?_, hholds.sound.push?_eq⟩
  · rw [maxDelay, size_run, Nat.add_sub_cancel]
  · obtain ⟨hone, hroom⟩ := hholds.sound.floor_taken delay
    have hback : ∀ i, 1 ≤ i → i ≤ d.buffer.size → d.back i = (history calls).getD (i - 1) 0 := by
      intro i hi hsize
      have hheld := hholds.back (i - 1) (by omega)
      rwa [Nat.sub_add_cancel hi, Scalar.zero_real] at hheld
    rw [read_eq, ← taken_real, lineAt, lineAt, hback _ hone (by omega),
      hback _ (Nat.le_add_left 1 _) (by omega)]
  · obtain ⟨-, hroom⟩ := hholds.sound.floor_taken delay
    refine hholds.sound.read?_eq ?_
    rw [Scalar.toNat_real]
    omega

end exact

end DelayLine

end Multisample
