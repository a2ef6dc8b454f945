import Mathlib.Algebra.Order.Floor.Semifield
import Multisample.Proofs.Playback.Looping

/-!
# Resampling

At another rate a buffer has as many frames as fit into its playing time, rounded
up.  Each of them lies in front of the end of the buffer, so what it is made of is
there: two frames next to each other, or the last one twice, channel by channel.
-/

namespace Multisample

/-! ## Rows of samples -/

/-- A place in a row of a table lies in front of the end of the table. -/
theorem place_lt {rows width k c : ℕ} (hk : k < rows) (hc : c < width) :
    k * width + c < rows * width := by
  calc k * width + c < (k + 1) * width := by rw [Nat.succ_mul]; omega
    _ ≤ rows * width := Nat.mul_le_mul_right width hk

section Rows

variable {α : Type} (f : ℕ → ℕ → α) (width : ℕ)

/-- A table written out row by row. -/
def writeRows (rows : ℕ) : Array α :=
  (List.range rows).foldl
    (fun out k => (List.range width).foldl (fun out c => out.push (f k c)) out) #[]

theorem writeRows_succ (rows : ℕ) : writeRows f width (rows + 1) =
    writeRows f width rows ++ ((List.range width).map (f rows)).toArray := by
  rw [writeRows, List.range_succ, List.foldl_concat]
  exact List.foldl_push_eq_append

theorem size_writeRows (rows : ℕ) : (writeRows f width rows).size = rows * width := by
  induction rows with
  | zero => rw [Nat.zero_mul]; rfl
  | succ rows ih => rw [writeRows_succ, Array.size_append, ih, Nat.succ_mul]; simp

/-- Row by row, each place is found by its row and its column. -/
theorem getElem?_writeRows {rows k c : ℕ} (hk : k < rows) (hc : c < width) :
    (writeRows f width rows)[k * width + c]? = some (f k c) := by
  induction rows with
  | zero => exact absurd hk (Nat.not_lt_zero k)
  | succ rows ih =>
      rw [writeRows_succ]
      rcases Nat.lt_succ_iff_lt_or_eq.mp hk with hlt | rfl
      · have hplace : k * width + c < (writeRows f width rows).size := by
          rw [size_writeRows]
          exact place_lt hlt hc
        rw [Array.getElem?_append_left hplace, ih hlt]
      · rw [Array.getElem?_append_right (by rw [size_writeRows]; omega), size_writeRows,
          Nat.add_sub_cancel_left]
        simp [hc]

end Rows

namespace AudioBuffer

/-- Whole frames are all kept. -/
theorem ofSamples_eq {σ : Type} {samples : Array σ} {channels frames : ℕ} (hchannels : 0 < channels)
    (hsize : samples.size = frames * channels) (rate : ℕ) :
    ofSamples samples channels rate = ⟨samples, channels, rate, frames, hchannels, hsize⟩ := by
  have hmax : max channels 1 = channels := Nat.max_eq_left hchannels
  have hframes : samples.size / channels = frames := by
    rw [hsize, Nat.mul_div_cancel _ hchannels]
  have hsamples : samples.extract 0 (frames * channels) = samples := by
    rw [← hsize, Array.extract_size]
  simp only [ofSamples, hmax, hframes, hsamples]

/-! ## Single samples -/

section

variable (a : AudioBuffer ℝ)

/-- The sample of a channel at a frame is there. -/
theorem getElem?_sample {i c : ℕ} (hi : i < a.frames) (hc : c < a.channels) :
    a.samples[i * a.channels + c]? = some (a.sample i c) := by
  have hplace : i * a.channels + c < a.samples.size := a.size_eq ▸ place_lt hi hc
  rw [sample, Array.getD_eq_getD_getElem?, Array.getElem?_eq_getElem hplace, Option.getD_some]

theorem toNat_whole (z : ℤ) : Scalar.toNat (z : ℝ) = z.toNat := by
  rw [Scalar.toNat_real, ← Int.floor_toNat, Int.floor_intCast]

/-- A position in the buffer lies between two of its frames, or behind the last one. -/
theorem interpolate_eq {p : ℝ} (hp : 0 ≤ p) (hlt : p < a.frames) {c : ℕ} (hc : c < a.channels) :
    a.interpolate p c = (1 - Int.fract p) * a.sample ⌊p⌋₊ c +
      Int.fract p * a.sample (min (⌊p⌋₊ + 1) (a.frames - 1)) c := by
  have hframe : ⌊p⌋₊ < a.frames := (Nat.floor_lt hp).mpr hlt
  have hwhole : Scalar.toNat (Scalar.floor p) = ⌊p⌋₊ := (toNat_whole ⌊p⌋).trans (Int.floor_toNat p)
  have hnext : a.samples.getD ((⌊p⌋₊ + 1) * a.channels + c) (a.sample ⌊p⌋₊ c) =
      a.sample (min (⌊p⌋₊ + 1) (a.frames - 1)) c := by
    rw [Array.getD_eq_getD_getElem?]
    by_cases hlast : ⌊p⌋₊ + 1 < a.frames
    · rw [a.getElem?_sample hlast hc, Nat.min_eq_left (by omega), Option.getD_some]
    · have hsize : a.samples.size ≤ (⌊p⌋₊ + 1) * a.channels + c := by
        rw [a.size_eq]
        exact Nat.le_add_right_of_le (Nat.mul_le_mul_right _ (Nat.not_lt.mp hlast))
      have hmin : min (⌊p⌋₊ + 1) (a.frames - 1) = ⌊p⌋₊ := by omega
      rw [Array.getElem?_eq_none hsize, hmin, Option.getD_none]
  rw [interpolate, hwhole, Scalar.fract_real hp, Scalar.narrow_real]
  show a.sample ⌊p⌋₊ c + (a.samples.getD ((⌊p⌋₊ + 1) * a.channels + c) (a.sample ⌊p⌋₊ c) -
    a.sample ⌊p⌋₊ c) * Int.fract p = _
  rw [hnext]
  ring

/-! ## The whole buffer -/

theorem resampledFrames_eq (target : ℕ) :
    a.resampledFrames ℝ target = ⌈(a.frames * target / a.rate : ℝ)⌉₊ := by
  have hceil (x : ℝ) : Scalar.toNat (Scalar.ceil x) = ⌈x⌉₊ := (toNat_whole ⌈x⌉).trans (Int.ceil_toNat x)
  rw [resampledFrames, hceil, mul_div_assoc]
  rfl

variable {a} {target : ℕ}

/-- Where a frame of the other rate stands in the buffer. -/
noncomputable def sourcePosition (a : AudioBuffer ℝ) (target k : ℕ) : ℝ :=
  k * a.rate / target

theorem sourcePosition_mem (hrate : 1 ≤ a.rate) (htarget : 1 ≤ target) {k : ℕ}
    (hk : k < ⌈(a.frames * target / a.rate : ℝ)⌉₊) :
    0 ≤ a.sourcePosition target k ∧ a.sourcePosition target k < a.frames := by
  have hrate : (0 : ℝ) < a.rate := by exact_mod_cast hrate
  have htarget : (0 : ℝ) < target := by exact_mod_cast htarget
  have hbefore : (k : ℝ) * a.rate < a.frames * target := (lt_div_iff₀ hrate).mp (Nat.lt_ceil.mp hk)
  exact ⟨by unfold sourcePosition; positivity, (div_lt_iff₀ htarget).mpr hbefore⟩

theorem resample_of_same (h : target = a.rate ∨ a.frames = 0) : a.resample ℝ target =
    ⟨a.samples, a.channels, target, a.frames, a.channels_pos, a.size_eq⟩ := by
  rw [resample, if_pos h]
  exact ofSamples_eq a.channels_pos a.size_eq target

/-- The samples of another rate, row by row. -/
noncomputable def resampledRows (a : AudioBuffer ℝ) (target : ℕ) : Array ℝ :=
  writeRows (fun k c => a.interpolate (a.sourcePosition target k) c) a.channels
    ⌈(a.frames * target / a.rate : ℝ)⌉₊

theorem size_resampledRows (a : AudioBuffer ℝ) (target : ℕ) : (a.resampledRows target).size =
    ⌈(a.frames * target / a.rate : ℝ)⌉₊ * a.channels :=
  size_writeRows _ _ _

theorem resample_of_other (h : ¬ (target = a.rate ∨ a.frames = 0)) : a.resample ℝ target =
    ⟨a.resampledRows target, a.channels, target, ⌈(a.frames * target / a.rate : ℝ)⌉₊,
      a.channels_pos, a.size_resampledRows target⟩ := by
  have hposition : a.sourcePosition target = fun k : ℕ => (k : ℝ) / (target / a.rate) :=
    funext fun k => (div_div_eq_mul_div _ _ _).symm
  have hrows : a.resample ℝ target = ofSamples (a.resampledRows target) a.channels target := by
    rw [resample, if_neg h, resampledRows, ← resampledFrames_eq, hposition]
    rfl
  exact hrows.trans (ofSamples_eq a.channels_pos (a.size_resampledRows target) target)

/-- Without rounding the number of frames stays what it was at the same rate. -/
theorem ceil_frames_of_same (hrate : 1 ≤ a.rate) (h : target = a.rate ∨ a.frames = 0) :
    ⌈(a.frames * target / a.rate : ℝ)⌉₊ = a.frames := by
  rcases h with rfl | h
  · have hne : (a.rate : ℝ) ≠ 0 := by exact_mod_cast (Nat.one_le_iff_ne_zero.mp hrate)
    rw [mul_div_assoc, div_self hne, mul_one, Nat.ceil_natCast]
  · simp [h]

theorem interpolate_natCast {k c : ℕ} (hk : k < a.frames) (hc : c < a.channels) :
    a.interpolate (k : ℝ) c = a.sample k c := by
  rw [a.interpolate_eq k.cast_nonneg (Nat.cast_lt.mpr hk) hc]
  simp

/-- What comes out at another rate: as many frames as fit into the playing time, and each sample is
the interpolation of its channel at its position. -/
theorem resample_spec (hrate : 1 ≤ a.rate) (target : ℕ) :
    (a.resample ℝ target).channels = a.channels ∧ (a.resample ℝ target).rate = target ∧
      (a.resample ℝ target).frames = ⌈(a.frames * target / a.rate : ℝ)⌉₊ ∧
      ∀ k < (a.resample ℝ target).frames, ∀ c < a.channels,
        (a.resample ℝ target).sample k c = a.interpolate (a.sourcePosition target k) c := by
  by_cases h : target = a.rate ∨ a.frames = 0
  · rw [resample_of_same h]
    refine ⟨rfl, rfl, (ceil_frames_of_same hrate h).symm, fun k hk c hc => ?_⟩
    have hsame : target = a.rate := h.resolve_right (Nat.ne_of_gt (Nat.zero_lt_of_lt hk))
    have hne : (a.rate : ℝ) ≠ 0 := by exact_mod_cast (Nat.one_le_iff_ne_zero.mp hrate)
    have hposition : a.sourcePosition target k = k := by
      rw [sourcePosition, hsame, mul_div_assoc, div_self hne, mul_one]
    rw [hposition]
    exact (interpolate_natCast hk hc).symm
  · rw [resample_of_other h]
    refine ⟨rfl, rfl, rfl, fun k hk c hc => ?_⟩
    have hplace : (a.resampledRows target)[k * a.channels + c]? =
        some (a.interpolate (a.sourcePosition target k) c) := getElem?_writeRows _ _ hk hc
    rw [sample, Array.getD_eq_getD_getElem?]
    dsimp only
    rw [hplace, Option.getD_some]

/-- A sample of the other rate is a mean of two samples of its channel. -/
theorem resample_mean (hrate : 1 ≤ a.rate) (htarget : 1 ≤ target) {k c : ℕ}
    (hk : k < (a.resample ℝ target).frames) (hc : c < a.channels) :
    let p := a.sourcePosition target k
    (p < a.frames ∧ ⌊p⌋₊ < a.frames ∧ min (⌊p⌋₊ + 1) (a.frames - 1) < a.frames) ∧
      (a.resample ℝ target).sample k c = (1 - Int.fract p) * a.sample ⌊p⌋₊ c +
        Int.fract p * a.sample (min (⌊p⌋₊ + 1) (a.frames - 1)) c := by
  intro p
  obtain ⟨-, -, hframes, hsample⟩ := resample_spec hrate target
  obtain ⟨hp, hlt⟩ := sourcePosition_mem hrate htarget (hframes ▸ hk)
  have hframe : ⌊p⌋₊ < a.frames := (Nat.floor_lt hp).mpr hlt
  exact ⟨⟨hlt, hframe, by omega⟩, (hsample k hk c hc).trans (a.interpolate_eq hp hlt hc)⟩

theorem resample_mem (hrate : 1 ≤ a.rate) (htarget : 1 ≤ target) {c : ℕ} (hc : c < a.channels)
    {low high : ℝ} (h : ∀ i < a.frames, low ≤ a.sample i c ∧ a.sample i c ≤ high) {k : ℕ}
    (hk : k < (a.resample ℝ target).frames) :
    low ≤ (a.resample ℝ target).sample k c ∧ (a.resample ℝ target).sample k c ≤ high := by
  obtain ⟨⟨-, hhere, hnext⟩, hmean⟩ := resample_mean hrate htarget hk hc
  have hfract := Int.fract_nonneg (a.sourcePosition target k)
  have hrest : 0 ≤ 1 - Int.fract (a.sourcePosition target k) :=
    sub_nonneg.mpr (Int.fract_lt_one _).le
  have hinside := (convex_Icc low high) (h _ hhere) (h _ hnext) hrest hfract (sub_add_cancel _ _)
  rw [hmean]
  exact hinside

/-- At another rate a buffer keeps its channels and has as many frames as fit into
its playing time, rounded up.  Each of them stands in front of the end of the buffer,
and each of its samples is a mean of two samples of the same channel that are there:
of the frame it stands at and of the next one, or of the last one twice.  So a channel
stays between its bounds, and one that is constant stays so.  At its own rate a buffer
is what it was. -/
theorem resample_stays_inside (a : AudioBuffer ℝ) {target : ℕ} (hrate : 1 ≤ a.rate)
    (htarget : 1 ≤ target) :
    let out := a.resample ℝ target
    out.channels = a.channels ∧ out.rate = target ∧
      out.frames = ⌈(a.frames * target / a.rate : ℝ)⌉₊ ∧
      (∀ k < out.frames, ∀ c < a.channels,
        let p : ℝ := k * a.rate / target
        p < a.frames ∧ ∃ x y,
          a.samples[⌊p⌋₊ * a.channels + c]? = some x ∧
          a.samples[min (⌊p⌋₊ + 1) (a.frames - 1) * a.channels + c]? = some y ∧
          out.samples[k * a.channels + c]? = some ((1 - Int.fract p) * x + Int.fract p * y)) ∧
      (∀ c < a.channels, ∀ low high, (∀ i < a.frames, low ≤ a.sample i c ∧ a.sample i c ≤ high) →
        ∀ k < out.frames, low ≤ out.sample k c ∧ out.sample k c ≤ high) ∧
      (∀ c < a.channels, ∀ x, (∀ i < a.frames, a.sample i c = x) →
        ∀ k < out.frames, out.sample k c = x) ∧
      (target = a.rate → out.samples = a.samples) := by
  intro out
  obtain ⟨hchannels, hout, hframes, -⟩ := resample_spec hrate target
  refine ⟨hchannels, hout, hframes, fun k hk c hc => ?_, fun c hc low high h k hk => ?_,
    fun c hc x h k hk => ?_, fun h => ?_⟩
  · obtain ⟨⟨hlt, hhere, hnext⟩, hmean⟩ := resample_mean hrate htarget hk hc
    refine ⟨hlt, _, _, a.getElem?_sample hhere hc, a.getElem?_sample hnext hc, ?_⟩
    have hplace := out.getElem?_sample hk (hchannels ▸ hc)
    rw [hchannels] at hplace
    exact hplace.trans (congrArg some hmean)
  · exact resample_mem hrate htarget hc h hk
  · obtain ⟨hlow, hhigh⟩ := resample_mem hrate htarget hc
      (fun i hi => ⟨(h i hi).ge, (h i hi).le⟩) hk
    exact le_antisymm hhigh hlow
  · show (a.resample ℝ target).samples = a.samples
    rw [resample_of_same (Or.inl h)]

/-- Two frames become three.  The second one is two thirds of the way to the last
frame of the buffer, and the third one stands behind that. -/
theorem resample_stays_inside_three_halves :
    let a : AudioBuffer ℝ := ofSamples #[1, -1, 4, -2] 2 2
    let out := a.resample ℝ 3
    1 ≤ a.rate ∧ 1 ≤ 3 ∧ out.frames = 3 ∧ out.samples[1 * 2 + 0]? = some (3 : ℝ) ∧
      out.samples[2 * 2 + 1]? = some (-2 : ℝ) := by
  intro a out
  obtain ⟨-, -, hframes, hmean, -⟩ :=
    resample_stays_inside a (by decide : 1 ≤ a.rate) (by decide : 1 ≤ 3)
  have hrate : a.rate = 2 := rfl
  have hthree : out.frames = 3 := by
    have hceil : ⌈((2 : ℕ) * (3 : ℕ) / (2 : ℕ) : ℝ)⌉₊ = 3 := by norm_num
    exact hframes.trans hceil
  have hsplit : ∀ (k i : ℕ) (t : ℝ), 0 ≤ t → t < 1 → (k : ℝ) * (2 : ℕ) / (3 : ℕ) = i + t →
      ⌊((k : ℝ) * (2 : ℕ) / (3 : ℕ))⌋₊ = i ∧ Int.fract ((k : ℝ) * (2 : ℕ) / (3 : ℕ)) = t := by
    intro k i t h0 h1 h
    rw [h, Int.fract_natCast_add, Int.fract_eq_self.mpr ⟨h0, h1⟩]
    exact ⟨Scalar.toNat_natCast_add h0 h1, rfl⟩
  refine ⟨by decide, by decide, hthree, ?_, ?_⟩
  · obtain ⟨hfloor, hfract⟩ := hsplit 1 0 (2 / 3) (by norm_num) (by norm_num) (by norm_num)
    obtain ⟨-, x, y, hx, hy, hsample⟩ := hmean 1 (by rw [hthree]; decide) 0 (by decide)
    have hmid : (1 - 2 / 3) * 1 + 2 / 3 * 4 = (3 : ℝ) := by norm_num
    rw [hrate, hfloor] at hx hy
    rw [hrate, hfract] at hsample
    obtain rfl : (1 : ℝ) = x := Option.some.inj hx
    obtain rfl : (4 : ℝ) = y := Option.some.inj hy
    exact hsample.trans (congrArg some hmid)
  · obtain ⟨hfloor, hfract⟩ := hsplit 2 1 (1 / 3) (by norm_num) (by norm_num) (by norm_num)
    obtain ⟨-, x, y, hx, hy, hsample⟩ := hmean 2 (by rw [hthree]; decide) 1 (by decide)
    have hlast : (1 - 1 / 3) * -2 + 1 / 3 * -2 = (-2 : ℝ) := by norm_num
    rw [hrate, hfloor] at hx hy
    rw [hrate, hfract] at hsample
    obtain rfl : (-2 : ℝ) = x := Option.some.inj hx
    obtain rfl : (-2 : ℝ) = y := Option.some.inj hy
    exact hsample.trans (congrArg some hlast)

end

end AudioBuffer

end Multisample
