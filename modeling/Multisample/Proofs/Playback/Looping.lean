import Mathlib.Algebra.Order.Floor.Ring
import Mathlib.Analysis.Convex.Combination
import Multisample.Playback.Streamer
import Multisample.Proofs.Numeric.Exact

/-!
# Loops stay in their buffer

A streamer with a loop never ends, so everything it reads for the rest of its
life has to be there.  What a reading takes of each frame is a share of it; for
a position inside the loop the shares are not negative, none of them falls
outside the buffer, and together they are one.  What is heard is a mean of
frames and no louder than the loudest of them.
-/

namespace Multisample

namespace Scalar

@[simp] theorem narrow_real (x : ℝ) : (Precision.narrow x : ℝ) = x := rfl

theorem fract_real {x : ℝ} (h : 0 ≤ x) : fract x = Int.fract x := by
  have hfloor : trunc x = ⌊x⌋ := by simp [trunc, not_lt.mpr h, floor]
  rw [fract, hfloor]
  rfl

theorem toNat_natCast_add {i : ℕ} {t : ℝ} (h0 : 0 ≤ t) (h1 : t < 1) : toNat ((i : ℝ) + t) = i :=
  (Nat.floor_eq_iff (add_nonneg (Nat.cast_nonneg i) h0)).mpr
    ⟨le_add_of_nonneg_right h0, add_lt_add_right h1 _⟩

theorem fract_natCast_add {i : ℕ} {t : ℝ} (h0 : 0 ≤ t) (h1 : t < 1) : fract ((i : ℝ) + t) = t := by
  rw [fract_real (add_nonneg (Nat.cast_nonneg i) h0), Int.fract_natCast_add,
    Int.fract_eq_self.mpr ⟨h0, h1⟩]

theorem rem_real {x y : ℝ} (hx : 0 ≤ x) (hy : 0 < y) : rem x y = x - ⌊x / y⌋ * y := by
  have htoward : towardZero (x / y) = ⌊x / y⌋ := if_neg (not_lt.mpr (div_nonneg hx hy.le))
  show x - y * towardZero (x / y) = _
  rw [htoward, mul_comm]

/-- A remainder lies below what it is the remainder to. -/
theorem rem_mem_real {x y : ℝ} (hx : 0 ≤ x) (hy : 0 < y) : 0 ≤ rem x y ∧ rem x y < y := by
  rw [rem_real hx hy]
  have hbelow : ⌊x / y⌋ * y ≤ x := (le_div_iff₀ hy).mp (Int.floor_le (x / y))
  have habove : x < (⌊x / y⌋ + 1) * y := (div_lt_iff₀ hy).mp (Int.lt_floor_add_one (x / y))
  constructor <;> linarith

end Scalar

/-! ## Shares -/

/-- What is taken of each frame of a buffer: nothing negative, nothing outside,
one in all. -/
structure IsMean (frames : ℕ) (share : ℕ → ℝ) : Prop where
  nonneg : ∀ i, 0 ≤ share i
  inside : ∀ i, share i ≠ 0 → i < frames
  total : ∑ i ∈ Finset.range frames, share i = 1

/-- Shares blended like the frames they are shares of. -/
def blendShares (v w : ℕ → ℝ) (amount : ℝ) (i : ℕ) : ℝ :=
  v i + (w i - v i) * amount

theorem blendShares_zero (v w : ℕ → ℝ) : blendShares v w 0 = v := by
  funext i
  simp [blendShares]

theorem blendShares_one (v w : ℕ → ℝ) : blendShares v w 1 = w := by
  funext i
  simp [blendShares]

namespace IsMean

variable {frames : ℕ} {v w : ℕ → ℝ}

theorem single {i : ℕ} (h : i < frames) : IsMean frames (Pi.single i 1) where
  nonneg j := by
    rw [Pi.single_apply]
    split <;> norm_num
  inside j hj := by
    rw [Pi.single_apply] at hj
    split at hj
    · rename_i heq
      exact heq ▸ h
    · exact absurd rfl hj
  total := by simp [h]

theorem blend (hv : IsMean frames v) (hw : IsMean frames w) {amount : ℝ} (h0 : 0 ≤ amount)
    (h1 : amount ≤ 1) : IsMean frames (blendShares v w amount) where
  nonneg i := by
    have hleft : 0 ≤ v i * (1 - amount) := mul_nonneg (hv.nonneg i) (by linarith)
    have hright : 0 ≤ w i * amount := mul_nonneg (hw.nonneg i) h0
    rw [blendShares]
    linarith
  inside i hi := by
    by_contra hout
    have hvi : v i = 0 := by_contra fun h => hout (hv.inside i h)
    have hwi : w i = 0 := by_contra fun h => hout (hw.inside i h)
    exact hi (by simp [blendShares, hvi, hwi])
  total := by
    simp only [blendShares, Finset.sum_add_distrib, ← Finset.sum_mul, Finset.sum_sub_distrib,
      hv.total, hw.total]
    ring

/-- A mean of samples is no larger than all of them. -/
theorem abs_sum_le (hv : IsMean frames v) {x : ℕ → ℝ} {peak : ℝ} (h : ∀ i < frames, |x i| ≤ peak) :
    |∑ i ∈ Finset.range frames, v i * x i| ≤ peak := by
  have hmem : ∑ i ∈ Finset.range frames, v i • x i ∈ Set.Icc (-peak) peak :=
    (convex_Icc (-peak) peak).sum_mem (fun i _ => hv.nonneg i) hv.total
      fun i hi => Set.mem_Icc.mpr (abs_le.mp (h i (Finset.mem_range.mp hi)))
  exact abs_le.mpr (Set.mem_Icc.mp hmem)

end IsMean

/-! ## Readings -/

namespace Lookup

/-- Two frames with a share each: where the share is not zero, the frame is there. -/
structure Within (frames : ℕ) (w : Lookup ℝ) : Prop where
  nonneg : 0 ≤ w.amount
  le_one : w.amount ≤ 1
  index_lt : w.amount < 1 → w.index < frames
  next_lt : 0 < w.amount → w.next < frames

def shares (w : Lookup ℝ) : ℕ → ℝ :=
  blendShares (Pi.single w.index 1) (Pi.single w.next 1) w.amount

theorem Within.isMean {frames : ℕ} {w : Lookup ℝ} (h : w.Within frames) :
    IsMean frames w.shares := by
  rcases h.nonneg.eq_or_lt with hzero | hpos
  · rw [shares, ← hzero, blendShares_zero]
    exact IsMean.single (h.index_lt (by linarith))
  rcases h.le_one.eq_or_lt with hone | hlt
  · rw [shares, hone, blendShares_one]
    exact IsMean.single (h.next_lt hpos)
  · exact (IsMean.single (h.index_lt hlt)).blend (IsMean.single (h.next_lt hpos)) h.nonneg h.le_one

theorem ofPosition_real {q : ℝ} (h : 0 ≤ q) :
    (ofPosition q : Lookup ℝ) = ⟨⌊q⌋₊, ⌊q⌋₊ + 1, Int.fract q⟩ := by
  simp only [ofPosition, Scalar.toNat_real, Scalar.fract_real h]
  rfl

/-- Between a frame and the next, these two are read. -/
theorem ofPosition_natCast_add {i : ℕ} {t : ℝ} (h0 : 0 ≤ t) (h1 : t < 1) :
    (ofPosition (i + t) : Lookup ℝ) = ⟨i, i + 1, t⟩ := by
  simp only [ofPosition, Scalar.toNat_natCast_add h0 h1, Scalar.fract_natCast_add h0 h1,
    Scalar.narrow_real]

/-- Up to the last frame a position has what it reads; at the last frame the
next one has no share. -/
theorem ofPosition_within {frames : ℕ} {q : ℝ} (h0 : 0 ≤ q) (h1 : q + 1 ≤ frames) :
    (ofPosition q : Lookup ℝ).Within frames := by
  rw [ofPosition_real h0]
  refine ⟨Int.fract_nonneg q, (Int.fract_lt_one q).le, fun _ => ?_, fun hpos => ?_⟩
  · exact (Nat.floor_lt h0).mpr (by linarith)
  · have hfloor : (⌊q⌋₊ : ℝ) < q := by
      rw [natCast_floor_eq_intCast_floor h0, ← Int.self_sub_fract q]
      linarith
    have hnext : ((⌊q⌋₊ + 1 : ℕ) : ℝ) < frames := by
      push_cast
      linarith
    exact Nat.cast_lt.mp hnext

end Lookup

namespace AudioBuffer

variable (a : AudioBuffer ℝ)

/-- Frames of a buffer added up by their shares. -/
noncomputable def mean (share : ℕ → ℝ) : Frame ℝ :=
  ⟨∑ i ∈ Finset.range a.frames, share i * (a.stereo i).left,
    ∑ i ∈ Finset.range a.frames, share i * (a.stereo i).right⟩

theorem stereo_of_le {i : ℕ} (h : a.frames ≤ i) : a.stereo i = Frame.silence :=
  if_neg (not_lt.mpr h)

theorem mean_single (i : ℕ) : a.mean (Pi.single i 1) = a.stereo i := by
  have hsum (x : ℕ → ℝ) (hx : a.frames ≤ i → x i = 0) :
      ∑ j ∈ Finset.range a.frames, (Pi.single i 1 : ℕ → ℝ) j * x j = x i := by
    by_cases h : i < a.frames
    · simp [Pi.single_apply, h]
    · simp [Pi.single_apply, h, hx (not_lt.mp h)]
  unfold mean
  rw [hsum (fun j => (a.stereo j).left) fun h => by simp [a.stereo_of_le h, Frame.silence],
    hsum (fun j => (a.stereo j).right) fun h => by simp [a.stereo_of_le h, Frame.silence]]

theorem mean_blend (v w : ℕ → ℝ) (amount : ℝ) :
    a.mean (blendShares v w amount) = (a.mean v).blend (a.mean w) amount := by
  have hsum (x : ℕ → ℝ) : ∑ i ∈ Finset.range a.frames, blendShares v w amount i * x i =
      ∑ i ∈ Finset.range a.frames, v i * x i + (∑ i ∈ Finset.range a.frames, w i * x i -
        ∑ i ∈ Finset.range a.frames, v i * x i) * amount := by
    rw [← Finset.sum_sub_distrib, Finset.sum_mul, ← Finset.sum_add_distrib]
    refine Finset.sum_congr rfl fun i _ => ?_
    rw [blendShares]
    ring
  simp only [mean, Frame.blend, hsum]

theorem frame_eq_mean (w : Lookup ℝ) : w.frame a = a.mean w.shares := by
  rw [Lookup.shares, mean_blend, mean_single, mean_single, Lookup.frame]

/-- Both sides of a frame of the buffer are samples of it. -/
theorem stereo_mem {i : ℕ} (h : i < a.frames) :
    (a.stereo i).left ∈ a.samples ∧ (a.stereo i).right ∈ a.samples := by
  have hsample {c : ℕ} (hc : c < a.channels) : a.sample i c ∈ a.samples := by
    have hlt : i * a.channels + c < a.samples.size := by
      have hrow : (i + 1) * a.channels ≤ a.frames * a.channels := Nat.mul_le_mul_right _ h
      rw [a.size_eq]
      linarith
    rw [sample, Array.getD_eq_getD_getElem?, Array.getElem?_eq_getElem hlt, Option.getD_some]
    exact Array.getElem_mem hlt
  have hfirst := a.channels_pos
  simp only [stereo, if_pos h]
  split
  · exact ⟨hsample hfirst, hsample hfirst⟩
  · exact ⟨hsample hfirst, hsample (by omega)⟩

theorem abs_stereo_le {peak : ℝ} (hpeak : ∀ x ∈ a.samples, |x| ≤ peak) (hframes : 0 < a.frames)
    (i : ℕ) : |(a.stereo i).left| ≤ peak ∧ |(a.stereo i).right| ≤ peak := by
  by_cases h : i < a.frames
  · exact ⟨hpeak _ (a.stereo_mem h).1, hpeak _ (a.stereo_mem h).2⟩
  · have hnonneg : 0 ≤ peak := (abs_nonneg _).trans (hpeak _ (a.stereo_mem hframes).1)
    rw [a.stereo_of_le (not_lt.mp h)]
    simpa [Frame.silence] using hnonneg

/-- No mean of a buffer is louder than its loudest sample. -/
theorem mean_le_peak {share : ℕ → ℝ} (h : IsMean a.frames share) {peak : ℝ}
    (hpeak : ∀ x ∈ a.samples, |x| ≤ peak) :
    |(a.mean share).left| ≤ peak ∧ |(a.mean share).right| ≤ peak :=
  ⟨h.abs_sum_le fun _ hi => hpeak _ (a.stereo_mem hi).1,
    h.abs_sum_le fun _ hi => hpeak _ (a.stereo_mem hi).2⟩

end AudioBuffer

namespace LoopReading

/-- A reading that a buffer of so many frames can answer: both its positions
have their frames, and the second one is not before the first frame. -/
structure Within (frames : ℕ) (r : LoopReading ℝ ℝ) : Prop where
  plain : r.plain.Within frames
  blended : ∀ position amount, r.blended = some (position, amount) →
    0 ≤ position ∧ (Lookup.ofPosition position : Lookup ℝ).Within frames ∧
      0 ≤ amount ∧ amount ≤ 1

noncomputable def shares (r : LoopReading ℝ ℝ) : ℕ → ℝ :=
  match r.blended with
  | none => r.plain.shares
  | some (position, amount) =>
      blendShares r.plain.shares (Lookup.ofPosition (max position 0) : Lookup ℝ).shares amount

theorem Within.isMean {frames : ℕ} {r : LoopReading ℝ ℝ} (h : r.Within frames) :
    IsMean frames r.shares := by
  unfold shares
  split
  · exact h.plain.isMean
  · rename_i position amount hblended
    obtain ⟨hposition, hwithin, h0, h1⟩ := h.blended position amount hblended
    rw [max_eq_left hposition]
    exact h.plain.isMean.blend hwithin.isMean h0 h1

theorem readAt_natCast_add (a : AudioBuffer ℝ) {i : ℕ} {t : ℝ} (h0 : 0 ≤ t) (h1 : t < 1) :
    readAt a ((i : ℝ) + t) = (a.stereo i).blend (a.stereo (i + 1)) t := by
  have hnonneg : 0 ≤ (i : ℝ) + t := add_nonneg (Nat.cast_nonneg i) h0
  rw [readAt, Scalar.max_real, Scalar.zero_real, max_eq_left hnonneg,
    Lookup.ofPosition_natCast_add h0 h1]
  rfl

theorem readAt_natCast (a : AudioBuffer ℝ) (i : ℕ) : readAt a (i : ℝ) = a.stereo i := by
  have hread := readAt_natCast_add a (i := i) le_rfl one_pos
  rw [add_zero] at hread
  rw [hread]
  simp [Frame.blend]

theorem frame_eq_mean (a : AudioBuffer ℝ) (r : LoopReading ℝ ℝ) : r.frame a = a.mean r.shares := by
  unfold frame shares
  rcases r.blended with _ | ⟨position, amount⟩
  · exact a.frame_eq_mean r.plain
  · simp only [a.mean_blend, ← a.frame_eq_mean, readAt, Scalar.max_real, Scalar.zero_real]

end LoopReading

/-! ## Positions of a loop -/

namespace ResolvedLoop

/-- A loop that a buffer of so many frames has room for. -/
structure Fits (frames : ℕ) (l : ResolvedLoop) : Prop where
  start_lt_stop : l.start < l.stop
  stop_le : l.stop ≤ frames
  crossfade_le : l.pingPong = false → l.crossfade ≤ l.start

/-- Where a streamer with this loop may stand. -/
structure Holds (l : ResolvedLoop) (position : ℝ) : Prop where
  nonneg : 0 ≤ position
  forward : l.pingPong = false → position < l.stop
  pingPong : l.pingPong = true → position ≤ (l.stop - 1 : ℕ)

/-- A loop that lies in so many frames, with room for its crossfade. -/
structure Roomy (frames : ℕ) (l : ResolvedLoop) : Prop extends l.Fits frames where
  crossfade_le_length : l.crossfade ≤ l.stop - l.start
  crossfade_le_half : l.pingPong = true → l.crossfade ≤ (l.stop - l.start) / 2

variable {frames : ℕ} {l : ResolvedLoop}

theorem Fits.last (h : l.Fits frames) : ((l.stop - 1 : ℕ) : ℝ) = l.stop - 1 :=
  Nat.cast_pred (Nat.zero_lt_of_lt h.start_lt_stop)

theorem Fits.length (h : l.Fits frames) : ((l.stop - l.start : ℕ) : ℝ) = l.stop - l.start :=
  Nat.cast_sub h.start_lt_stop.le

theorem Fits.start_add_one_le (h : l.Fits frames) : (l.start : ℝ) + 1 ≤ l.stop := by
  exact_mod_cast h.start_lt_stop

theorem Fits.stop_le_real (h : l.Fits frames) : (l.stop : ℝ) ≤ frames :=
  Nat.cast_le.mpr h.stop_le

theorem Fits.start_le_last (h : l.Fits frames) : (l.start : ℝ) ≤ (l.stop - 1 : ℕ) :=
  Nat.cast_le.mpr (Nat.le_sub_one_of_lt h.start_lt_stop)

end ResolvedLoop

namespace SampleLoop

variable {l : SampleLoop} {r : ResolvedLoop} {frames : ℕ}

/-- What resolution answers says all that it has checked. -/
theorem resolve_eq_ok_iff : l.resolve frames = .ok r ↔
    frameIndex l.start frames = r.start ∧ frameIndex l.stop frames = r.stop ∧
      r.start < r.stop ∧ r.stop ≤ frames ∧ r.pingPong = l.pingPong ∧
      r.crossfade = min l.crossfade (crossfadeLimit r.start r.stop r.pingPong) := by
  simp only [resolve]
  constructor
  · intro h
    split at h
    · cases h
    · rename_i hbounds
      split at h
      · cases h
      · rename_i hempty
        cases h
        refine ⟨?_, ?_, ?_, ?_, rfl, rfl⟩ <;> dsimp only <;> omega
  · rintro ⟨hstart, hstop, hlt, hle, hdirection, hcrossfade⟩
    rw [hstart, hstop, if_neg (by omega), if_neg (by omega), Int.toNat_natCast, Int.toNat_natCast,
      ← hdirection, ← hcrossfade]

theorem resolve_roomy (h : l.resolve frames = .ok r) : r.Roomy frames := by
  obtain ⟨-, -, hlt, hle, -, hcrossfade⟩ := resolve_eq_ok_iff.mp h
  have hlimit : r.crossfade ≤ crossfadeLimit r.start r.stop r.pingPong :=
    hcrossfade.trans_le (min_le_right _ _)
  unfold crossfadeLimit at hlimit
  cases hdirection : r.pingPong with
  | true =>
      rw [hdirection, if_pos rfl] at hlimit
      exact ⟨⟨hlt, hle, by simp [hdirection]⟩, hlimit.trans (Nat.div_le_self _ _), fun _ => hlimit⟩
  | false =>
      rw [hdirection, if_neg Bool.false_ne_true, le_min_iff] at hlimit
      exact ⟨⟨hlt, hle, fun _ => hlimit.2⟩, hlimit.1, by simp [hdirection]⟩

theorem resolve_fits (h : l.resolve frames = .ok r) : r.Fits frames :=
  (resolve_roomy h).toFits

end SampleLoop

namespace LoopReading

variable {frames : ℕ} {l : ResolvedLoop} {position : ℝ}

/-- The frame after the last of a forward loop is its first; at a crossfade the
lead-in is read, as far before the loop as the position is before its end. -/
theorem forward_within (h : l.Fits frames) (hdirection : l.pingPong = false)
    (hposition : l.Holds position) : (forward l position : LoopReading ℝ ℝ).Within frames := by
  have hlt : ⌊position⌋₊ < l.stop :=
    (Nat.floor_lt hposition.nonneg).mpr (hposition.forward hdirection)
  have hstop := h.stop_le
  refine ⟨?_, fun q amount hblended => ?_⟩
  · simp only [forward, Scalar.toNat_real, Scalar.fract_real hposition.nonneg]
    refine ⟨Int.fract_nonneg position, (Int.fract_lt_one position).le,
      fun _ => hlt.trans_le hstop, fun _ => ?_⟩
    show (if ⌊position⌋₊ + 1 = l.stop then l.start else ⌊position⌋₊ + 1) < frames
    have hstart := h.start_lt_stop
    split <;> omega
  · have hfade := h.crossfade_le hdirection
    have hfadeStart : ((l.stop - l.crossfade : ℕ) : ℝ) = l.stop - l.crossfade :=
      Nat.cast_sub (hfade.trans h.start_lt_stop.le)
    -- The lead-in is as long as the crossfade and ends at the loop, so it needs that room.
    have hlead : (l.crossfade : ℝ) ≤ l.start := Nat.cast_le.mpr hfade
    have hfirst := h.start_add_one_le
    have hframes := h.stop_le_real
    simp only [forward, Scalar.ofNat_real, Scalar.le_real, Scalar.lt_real, hfadeStart, h.length,
      decide_eq_true_eq, Option.ite_none_right_eq_some, Option.some.injEq,
      Prod.mk.injEq] at hblended
    obtain ⟨⟨hpos, hfrom, hto⟩, rfl, rfl⟩ := hblended
    have hcrossfade : (0 : ℝ) < l.crossfade := Nat.cast_pos.mpr hpos
    have hnonneg : 0 ≤ position - (l.stop - l.start) := by linarith
    refine ⟨hnonneg, Lookup.ofPosition_within hnonneg (by linarith), ?_, ?_⟩
    · exact div_nonneg (by linarith) hcrossfade.le
    · exact (div_le_one hcrossfade).mpr (by linarith)

/-- Half of the way left in a crossfade. -/
theorem reflected_share {distance fade : ℝ} (h0 : 0 ≤ distance) (h1 : distance < fade) :
    0 ≤ (0.5 : ℝ) * (1 - distance / fade) ∧ (0.5 : ℝ) * (1 - distance / fade) ≤ 1 := by
  have hfade : 0 < fade := h0.trans_lt h1
  have hlow : 0 ≤ distance / fade := div_nonneg h0 hfade.le
  have hhigh : distance / fade ≤ 1 := (div_le_one hfade).mpr h1.le
  constructor <;> linarith

/-- What a ping-pong loop blends in lies as far beyond a turning point as the
position is before it, and inside the buffer. -/
theorem pingPong_blended (h : l.Fits frames) {reversed : Bool} {q amount : ℝ}
    (hblended : (pingPong frames l position reversed : LoopReading ℝ ℝ).blended =
      some (q, amount)) :
    0 ≤ q ∧ q + 1 ≤ frames ∧ 0 ≤ amount ∧ amount ≤ 1 := by
  have hlast := h.start_le_last
  have hlast' := h.last
  have hfirst := h.start_add_one_le
  have hframes := h.stop_le_real
  have hstart : (0 : ℝ) ≤ l.start := Nat.cast_nonneg _
  simp only [pingPong, Scalar.ofNat_real, Scalar.le_real, Scalar.lt_real, Scalar.narrow_real,
    Scalar.zero_real, Scalar.one_real, Scalar.decimal_real, Bool.and_eq_true,
    decide_eq_true_eq] at hblended
  split at hblended
  · cases hblended
  -- A reflection may pass the end of the loop or fall before its start, but not leave the
  -- buffer: that is asked where it is blended in.
  split at hblended
  · rename_i hnear
    split at hblended
    · rename_i hmirrored
      cases hblended
      refine ⟨by linarith, by linarith, reflected_share ?_ ?_⟩ <;> linarith
    · cases hblended
  split at hblended
  · rename_i hnear
    split at hblended
    · rename_i hmirrored
      cases hblended
      refine ⟨by linarith, by linarith, reflected_share ?_ ?_⟩ <;> linarith
    · cases hblended
  · cases hblended

theorem pingPong_within (h : l.Fits frames) (hdirection : l.pingPong = true)
    (hposition : l.Holds position) (reversed : Bool) :
    (pingPong frames l position reversed : LoopReading ℝ ℝ).Within frames := by
  have hle : ⌊position⌋₊ ≤ l.stop - 1 :=
    Nat.floor_le_of_le (hposition.pingPong hdirection)
  have hstop := h.stop_le
  have hstart := h.start_lt_stop
  refine ⟨?_, fun q amount hblended => ?_⟩
  · simp only [pingPong, Scalar.toNat_real, Scalar.fract_real hposition.nonneg]
    refine ⟨Int.fract_nonneg position, (Int.fract_lt_one position).le, fun _ => ?_, fun _ => ?_⟩
    · show ⌊position⌋₊ < frames
      omega
    · show max (min (⌊position⌋₊ + 1) (l.stop - 1)) ⌊position⌋₊ < frames
      omega
  · obtain ⟨hnonneg, hbelow, hshare⟩ := pingPong_blended h hblended
    exact ⟨hnonneg, Lookup.ofPosition_within hnonneg hbelow, hshare⟩

end LoopReading

/-! ## Runs -/

namespace Streamer

section

variable {σ : Type} [Scalar σ] [Precision σ ℝ]

theorem next_sampleLoop (a : AudioBuffer σ) (step : ℝ) (s : Streamer ℝ) :
    (s.next a step).1.sampleLoop = s.sampleLoop := by
  unfold next
  split
  · rfl
  · split
    · unfold stepOnce
      dsimp only
      split <;> rfl
    · split <;> rfl

/-- A loop is never finished with. -/
theorem next_finished_of_loop (a : AudioBuffer σ) (step : ℝ) {s : Streamer ℝ}
    (h : s.sampleLoop.isSome) : (s.next a step).1.finished = s.finished := by
  unfold next
  obtain ⟨l, hl⟩ := Option.isSome_iff_exists.mp h
  split
  · rfl
  · rw [hl]
    dsimp only
    split <;> rfl

end

variable {frames : ℕ} {l : ResolvedLoop}

/-- A forward loop goes on where the step led, or from its start on. -/
theorem forwardAdvance_cases (h : l.Fits frames) (position : ℝ) :
    forwardAdvance l position = position ∧ position < l.stop ∨
      (l.start : ℝ) ≤ forwardAdvance l position ∧ forwardAdvance l position < l.stop := by
  simp only [forwardAdvance, Scalar.ofNat_real, Scalar.le_real, decide_eq_true_eq, h.length]
  have hfirst := h.start_add_one_le
  split
  · rename_i hwrap
    obtain ⟨hlow, hhigh⟩ := Scalar.rem_mem_real (x := position - l.start) (y := l.stop - l.start)
      (by linarith) (by linarith)
    right
    constructor <;> linarith
  · rename_i hbefore
    exact Or.inl ⟨rfl, not_le.mp hbefore⟩

/-- A ping-pong loop goes on inside the loop, or is still on its way to it. -/
theorem pingPongAdvance_cases (h : l.Fits frames) (position step : ℝ) (reversed : Bool) :
    ((l.start : ℝ) ≤ (pingPongAdvance l position step reversed).1 ∧
        (pingPongAdvance l position step reversed).1 ≤ (l.stop - 1 : ℕ)) ∨
      (pingPongAdvance l position step reversed).1 = position + step ∧
        position + step < l.start := by
  have hclamp := Scalar.clamp_mem_real h.start_le_last
  simp only [pingPongAdvance, Scalar.ofNat_real, Scalar.le_real, Scalar.lt_real, decide_eq_true_eq]
  cases reversed with
  | true =>
      -- Going back is only done in the loop, so every position is clamped.
      left
      by_cases hturn : position - step < l.start
      · have hback : (l.start : ℝ) ≤ l.start + (l.start - (position - step)) := by linarith
        simpa [hturn, hback] using hclamp _
      · simpa [hturn] using hclamp _
  | false =>
      by_cases hturn : ((l.stop - 1 : ℕ) : ℝ) < position + step
      · left
        simpa [hturn] using hclamp _
      · by_cases hin : (l.start : ℝ) ≤ position + step
        · left
          simpa [hturn, hin] using hclamp _
        · right
          simpa [hturn, hin] using not_le.mp hin

/-- A streamer that plays a loop and stands where the loop has all it reads. -/
structure Inside (l : ResolvedLoop) (s : Streamer ℝ) : Prop where
  loops : s.sampleLoop = some l
  unfinished : s.finished = false
  holds : l.Holds s.position

theorem start_real (sampleLoop : Option ResolvedLoop) :
    (Streamer.start sampleLoop : Streamer ℝ) = ⟨0, false, false, sampleLoop⟩ := by
  rw [Streamer.start, Scalar.zero_real]

theorem start_inside (h : l.Fits frames) : (Streamer.start (some l) : Streamer ℝ).Inside l := by
  rw [start_real]
  refine ⟨rfl, rfl, ?_⟩
  have hstop : (0 : ℝ) < l.stop := by
    have hfirst := h.start_add_one_le
    have hstart : (0 : ℝ) ≤ l.start := Nat.cast_nonneg _
    linarith
  exact ⟨le_rfl, fun _ => hstop, fun _ => Nat.cast_nonneg _⟩

variable {s : Streamer ℝ}

theorem Inside.next_frame (h : s.Inside l) (a : AudioBuffer ℝ) (step : ℝ) :
    (s.next a step).2 = (s.reading a.frames l : LoopReading ℝ ℝ).frame a := by
  simp only [next, h.unfinished, h.loops, Bool.false_eq_true, if_false]
  split <;> rfl

theorem Inside.next_position (h : s.Inside l) (a : AudioBuffer ℝ) (step : ℝ) :
    (s.next a step).1.position =
      if l.pingPong then (pingPongAdvance l s.position step s.reversed).1
      else forwardAdvance l (s.position + step) := by
  simp only [next, h.unfinished, h.loops, Bool.false_eq_true, if_false]
  split <;> rfl

/-- One frame leaves the streamer inside, and in the loop if it was there. -/
theorem Inside.next (h : s.Inside l) (hfits : l.Fits frames) (a : AudioBuffer ℝ) {step : ℝ}
    (hstep : 0 ≤ step) : (s.next a step).1.Inside l ∧
      ((l.start : ℝ) ≤ s.position → (l.start : ℝ) ≤ (s.next a step).1.position) := by
  have hnonneg := h.holds.nonneg
  have hstart : (0 : ℝ) ≤ l.start := Nat.cast_nonneg _
  have hlast := hfits.start_le_last
  have hloops := (next_sampleLoop a step s).trans h.loops
  have hunfinished := (next_finished_of_loop a step (Option.isSome_of_eq_some h.loops)).trans
    h.unfinished
  have hposition := h.next_position a step
  -- A step either ends in the loop or leads forward from where the streamer stood.
  cases hdirection : l.pingPong with
  | true =>
      rw [hdirection, if_pos rfl] at hposition
      have hforward : l.pingPong = false → (s.next a step).1.position < l.stop := by
        simp [hdirection]
      rcases pingPongAdvance_cases hfits s.position step s.reversed with
        ⟨hlow, hhigh⟩ | ⟨hon, hbefore⟩
      · rw [← hposition] at hlow hhigh
        exact ⟨⟨hloops, hunfinished, by linarith, hforward, fun _ => hhigh⟩, fun _ => hlow⟩
      · rw [hon] at hposition
        refine ⟨⟨hloops, hunfinished, ?_, hforward, fun _ => ?_⟩, fun _ => ?_⟩ <;> linarith
  | false =>
      rw [hdirection, if_neg Bool.false_ne_true] at hposition
      have hpingPong : l.pingPong = true → (s.next a step).1.position ≤ (l.stop - 1 : ℕ) := by
        simp [hdirection]
      rcases forwardAdvance_cases hfits (s.position + step) with ⟨hon, hbefore⟩ | ⟨hlow, hhigh⟩
      · rw [hon] at hposition
        refine ⟨⟨hloops, hunfinished, ?_, fun _ => ?_, hpingPong⟩, fun _ => ?_⟩ <;> linarith
      · rw [← hposition] at hlow hhigh
        exact ⟨⟨hloops, hunfinished, by linarith, fun _ => hhigh, hpingPong⟩, fun _ => hlow⟩

/-- The streamer after a frame for each of these steps. -/
noncomputable def run (a : AudioBuffer ℝ) (steps : List ℝ) (s : Streamer ℝ) : Streamer ℝ :=
  steps.foldl (fun s step => (s.next a step).1) s

theorem Inside.run (h : s.Inside l) (hfits : l.Fits frames) (a : AudioBuffer ℝ) {steps : List ℝ}
    (hsteps : ∀ step ∈ steps, 0 ≤ step) : (s.run a steps).Inside l ∧
      ((l.start : ℝ) ≤ s.position → (l.start : ℝ) ≤ (s.run a steps).position) := by
  induction steps generalizing s with
  | nil => exact ⟨h, id⟩
  | cons step steps ih =>
      obtain ⟨hnext, hentered⟩ := h.next hfits a (hsteps step List.mem_cons_self)
      obtain ⟨hinside, hstays⟩ := ih hnext fun x hx => hsteps x (List.mem_cons_of_mem _ hx)
      exact ⟨hinside, hstays ∘ hentered⟩

theorem Inside.reading_within (h : s.Inside l) (hfits : l.Fits frames) :
    (s.reading frames l : LoopReading ℝ ℝ).Within frames := by
  unfold reading
  split
  · rename_i hdirection
    exact LoopReading.pingPong_within hfits hdirection h.holds s.reversed
  · rename_i hdirection
    exact LoopReading.forward_within hfits (Bool.eq_false_of_not_eq_true hdirection) h.holds

/-- A streamer with a loop that its buffer has room for, after any steps forward:
it has not finished and stands inside, in the loop for good once it is there.
What it reads next is in the buffer, so that it hears a mean of frames, no
louder than the loudest sample. -/
theorem loop_stays_inside (a : AudioBuffer ℝ) {l : SampleLoop} {r : ResolvedLoop}
    (hresolve : l.resolve a.frames = .ok r) {steps : List ℝ} (hsteps : ∀ step ∈ steps, 0 ≤ step) :
    let s := (start (some r)).run a steps
    let reading : LoopReading ℝ ℝ := s.reading a.frames r
    s.finished = false ∧ 0 ≤ s.position ∧
      (r.pingPong = false → s.position < r.stop) ∧
      (r.pingPong = true → s.position ≤ (r.stop - 1 : ℕ)) ∧
      (r.start ≤ s.position → ∀ more : List ℝ, (∀ step ∈ more, 0 ≤ step) →
        r.start ≤ (s.run a more).position) ∧
      (r.start : ℝ) ≤ (r.stop - 1 : ℕ) ∧
      reading.Within a.frames ∧ IsMean a.frames reading.shares ∧
      ∀ step, (s.next a step).2 = reading.frame a ∧ reading.frame a = a.mean reading.shares ∧
        ∀ peak, (∀ x ∈ a.samples, |x| ≤ peak) →
          |(s.next a step).2.left| ≤ peak ∧ |(s.next a step).2.right| ≤ peak := by
  intro s reading
  have hfits := SampleLoop.resolve_fits hresolve
  have hinside : s.Inside r := ((start_inside hfits).run hfits a hsteps).1
  have hwithin : reading.Within a.frames := hinside.reading_within hfits
  refine ⟨hinside.unfinished, hinside.holds.nonneg, hinside.holds.forward, hinside.holds.pingPong,
    fun hentered more hmore => (hinside.run hfits a hmore).2 hentered, hfits.start_le_last,
    hwithin, hwithin.isMean, fun step => ?_⟩
  have hframe : (s.next a step).2 = reading.frame a := hinside.next_frame a step
  refine ⟨hframe, reading.frame_eq_mean a, fun peak hpeak => ?_⟩
  rw [hframe, reading.frame_eq_mean a]
  exact a.mean_le_peak hwithin.isMean hpeak

/-- Four frames, of which the last three are played to and fro with a crossfade,
by a step that leads over both turning points. -/
theorem loop_stays_inside_overshoot :
    let a : AudioBuffer ℝ := AudioBuffer.ofSamples #[0, 1, -1, 1 / 2] 1 48000
    let l : SampleLoop := { start := 1, stop := -1, crossfade := 2, pingPong := true }
    let r : ResolvedLoop := ⟨1, 4, 1, true⟩
    let s := (start (some r)).run a [5 / 2, 7, 0]
    l.resolve a.frames = .ok r ∧ (∀ step ∈ [(5 / 2 : ℝ), 7, 0], 0 ≤ step) ∧
      s.finished = false ∧ s.position ≤ 3 ∧ |(s.next a 1).2.left| ≤ 1 := by
  intro a l r s
  have hresolve : l.resolve a.frames = .ok r := by
    have hframes : a.frames = 4 := rfl
    rw [hframes]
    simp [l, r, SampleLoop.resolve, SampleLoop.frameIndex, SampleLoop.crossfadeLimit]
  have hsteps : ∀ step ∈ [(5 / 2 : ℝ), 7, 0], 0 ≤ step := by norm_num
  obtain ⟨hunfinished, -, -, hposition, -, -, -, -, hnext⟩ := loop_stays_inside a hresolve hsteps
  have hpeak : ∀ x ∈ a.samples, |x| ≤ 1 := by
    intro x hx
    have hx : x ∈ #[(0 : ℝ), 1, -1, 1 / 2] := hx
    simp only [List.mem_toArray, List.mem_cons, List.not_mem_nil, or_false] at hx
    rcases hx with rfl | rfl | rfl | rfl <;> norm_num
  refine ⟨hresolve, hsteps, hunfinished, ?_, ((hnext 1).2.2 1 hpeak).1⟩
  exact (hposition rfl).trans (by norm_num [r])

end Streamer

end Multisample
