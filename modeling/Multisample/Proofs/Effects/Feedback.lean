import Mathlib.Data.List.Forall2
import Mathlib.Tactic.Linarith
import Multisample.Proofs.Effects.AsNew
import Multisample.Proofs.Effects.DelayHistory

/-!
# Feedback does not run away

The delay, the flanger and the reverb keep past signal and feed part of it back.
However their parameters move inside their ranges, what they keep and what they
put out stays within a fixed multiple of the loudest input.  Of each device there
is one bound that a frame keeps: what is read from it is within the bound, since
reading between samples stays between them, and the gain leaves room for the
input.
-/

namespace Multisample

/-! ## Bounds that operations keep -/

/-- A bound that leaves room for the input holds of what is written back. -/
theorem abs_fedBack_le {x fed gain m r b : ℝ} (hx : |x| ≤ m) (hfed : |fed| ≤ b)
    (hgain : |gain| ≤ r) (hroom : m + b * r ≤ b) : |x + fed * gain| ≤ b := by
  have hb : 0 ≤ b := (abs_nonneg fed).trans hfed
  calc |x + fed * gain| ≤ |x| + |fed| * |gain| := by
        rw [← abs_mul]
        exact abs_add_le _ _
    _ ≤ m + b * r := by gcongr
    _ ≤ b := hroom

namespace Frame

/-- Both channels of a frame are within a bound. -/
structure Within (b : ℝ) (x : Frame ℝ) : Prop where
  left : |x.left| ≤ b
  right : |x.right| ≤ b

theorem Within.mix {b t : ℝ} {dry wet : Frame ℝ} (hdry : dry.Within b) (hwet : wet.Within b)
    (ht : 0 ≤ t ∧ t ≤ 1) : (dry.mix wet t).Within b := by
  refine ⟨?_, ?_⟩
  · simpa [Frame.mix] using abs_between_le ht hdry.left hwet.left
  · simpa [Frame.mix] using abs_between_le ht hdry.right hwet.right

theorem Within.mono {b c : ℝ} {x : Frame ℝ} (h : x.Within b) (hbc : b ≤ c) : x.Within c :=
  ⟨h.left.trans hbc, h.right.trans hbc⟩

end Frame

/-! ## Rings of samples -/

/-- Every sample of a ring is within a bound. -/
def RingWithin (b : ℝ) (ring : Array ℝ) : Prop :=
  ∀ x ∈ ring, |x| ≤ b

namespace RingWithin

variable {b : ℝ} {ring : Array ℝ}

theorem getD (h : RingWithin b ring) (hb : 0 ≤ b) (i : ℕ) : |ring.getD i 0| ≤ b := by
  rw [Array.getD]
  split
  · exact h _ (Array.getElem_mem _)
  · rwa [abs_zero]

theorem set (h : RingWithin b ring) {x : ℝ} (hx : |x| ≤ b) (i : ℕ) :
    RingWithin b (ring.setIfInBounds i x) := by
  intro y hy
  rcases Array.mem_or_eq_of_mem_setIfInBounds hy with hold | hnew
  · exact h y hold
  · rwa [hnew]

theorem silent (hb : 0 ≤ b) (size : ℕ) : RingWithin b (Array.replicate size 0) := by
  intro x hx
  rwa [(Array.mem_replicate.mp hx).2, abs_zero]

theorem mono (h : RingWithin b ring) {c : ℝ} (hbc : b ≤ c) : RingWithin c ring :=
  fun x hx => (h x hx).trans hbc

end RingWithin

namespace DelayLine

/-- Whatever the delay, what is read lies between two samples. -/
theorem abs_read_le {d : DelayLine ℝ} {b : ℝ} (h : RingWithin b d.buffer) (hb : 0 ≤ b)
    (delay : ℝ) : |d.read delay| ≤ b := by
  have hback : ∀ whole, |d.back whole| ≤ b := by
    intro whole
    simpa [back] using h.getD hb _
  rw [read_eq]
  exact abs_between_le ⟨Int.fract_nonneg _, (Int.fract_lt_one _).le⟩ (hback _) (hback _)

theorem ofFrames_within {b : ℝ} (hb : 0 ≤ b) (frames : ℕ) :
    RingWithin b (ofFrames frames : DelayLine ℝ).buffer := by
  simpa [ofFrames] using RingWithin.silent hb _

theorem clear_within {b : ℝ} (hb : 0 ≤ b) (d : DelayLine ℝ) : RingWithin b d.clear.buffer := by
  simpa [clear] using RingWithin.silent hb _

end DelayLine

/-! ## Values in range -/

namespace EffectKind

/-- Values for all parameters of an effect, each within its range. -/
def Allows (kind : EffectKind) (p : ParamValues ℝ) : Prop :=
  List.Forall₂ (fun (info : ParamInfo ℝ) v => info.low ≤ v ∧ v ≤ info.high) kind.params p

theorem Allows.at {kind : EffectKind} {p : ParamValues ℝ} (h : kind.Allows p) {i : ℕ}
    {info : ParamInfo ℝ} (hinfo : kind.params[i]? = some info) :
    info.low ≤ p.at i ∧ p.at i ≤ info.high := by
  obtain ⟨hi, rfl⟩ := List.getElem?_eq_some_iff.mp hinfo
  have hlength : i < p.length := h.length_eq ▸ hi
  have hvalue : p.at i = p[i] := by simp [ParamValues.at, hlength]
  rw [hvalue]
  exact (List.forall₂_iff_get.mp h).2 i hi hlength

end EffectKind

/-! ## The delay -/

namespace Delay

/-- Both lines are within a bound. -/
structure Within (b : ℝ) (d : Delay ℝ) : Prop where
  left : RingWithin b d.left.buffer
  right : RingWithin b d.right.buffer

theorem Within.ofRate {b : ℝ} (hb : 0 ≤ b) (rate : ℝ) : (ofRate rate).Within b :=
  ⟨DelayLine.ofFrames_within hb _, DelayLine.ofFrames_within hb _⟩

theorem Within.reset {b : ℝ} (hb : 0 ≤ b) (d : Delay ℝ) : d.reset.Within b :=
  ⟨d.left.clear_within hb, d.right.clear_within hb⟩

/-- Settings with which twenty times the input is never exceeded. -/
structure Settings.Tame (s : Settings ℝ) : Prop where
  feedback : |s.feedback| ≤ 0.95
  mix : 0 ≤ s.mix ∧ s.mix ≤ 1

theorem settings_tame {p : ParamValues ℝ} (h : EffectKind.delay.Allows p) (d : Delay ℝ)
    (ctx : BlockContext ℝ) : (d.settings p ctx).Tame := by
  have hfeedback := h.at (i := 3) rfl
  have hmix := h.at (i := 4) rfl
  simp only [Scalar.zero_real, Scalar.one_real, Scalar.decimal_real] at hfeedback hmix
  refine ⟨?_, hmix⟩
  show |p.at 3| ≤ 0.95
  rw [abs_of_nonneg hfeedback.1]
  exact hfeedback.2

/-- A frame keeps both lines within twenty times the input, in either mode. -/
theorem Within.step {m : ℝ} {s : Settings ℝ} (hs : s.Tame) {d : Delay ℝ} (h : d.Within (20 * m))
    {x : Frame ℝ} (hx : x.Within m) :
    (Delay.step s d x).1.Within (20 * m) ∧ (Delay.step s d x).2.Within (20 * m) := by
  have hm : 0 ≤ m := (abs_nonneg x.left).trans hx.left
  have hroom : m + 20 * m * 0.95 ≤ 20 * m := by linarith
  have hleft := DelayLine.abs_read_le h.left (by linarith) s.delay
  have hright := DelayLine.abs_read_le h.right (by linarith) s.delay
  have hout : (x.mix ⟨d.left.read s.delay, d.right.read s.delay⟩ s.mix).Within (20 * m) :=
    (hx.mono (by linarith)).mix ⟨hleft, hright⟩ hs.mix
  by_cases hmode : s.pingPong = true
  · have hsum : |(x.left + x.right) * 0.5| ≤ m := by
      obtain ⟨hleftLow, hleftHigh⟩ := abs_le.mp hx.left
      obtain ⟨hrightLow, hrightHigh⟩ := abs_le.mp hx.right
      exact abs_le.mpr ⟨by linarith, by linarith⟩
    -- The right line gets nothing but the echo of the left one.
    have hcross : |0 + d.left.read s.delay * s.feedback| ≤ 20 * m :=
      abs_fedBack_le (by rwa [abs_zero]) hleft hs.feedback hroom
    have hstep : Delay.step s d x = (⟨d.sampleRate,
        d.left.push ((x.left + x.right) * 0.5 + d.right.read s.delay * s.feedback),
        d.right.push (d.left.read s.delay * s.feedback)⟩,
        x.mix ⟨d.left.read s.delay, d.right.read s.delay⟩ s.mix) := by
      simp [Delay.step, hmode]
    rw [hstep]
    refine ⟨⟨h.left.set (abs_fedBack_le hsum hright hs.feedback hroom) _, h.right.set ?_ _⟩, hout⟩
    rwa [zero_add] at hcross
  · have hstep : Delay.step s d x = (⟨d.sampleRate,
        d.left.push (x.left + d.left.read s.delay * s.feedback),
        d.right.push (x.right + d.right.read s.delay * s.feedback)⟩,
        x.mix ⟨d.left.read s.delay, d.right.read s.delay⟩ s.mix) := by
      simp [Delay.step, hmode]
    rw [hstep]
    exact ⟨⟨h.left.set (abs_fedBack_le hx.left hleft hs.feedback hroom) _,
      h.right.set (abs_fedBack_le hx.right hright hs.feedback hroom) _⟩, hout⟩

end Delay

/-! ## The flanger -/

namespace Flanger

/-- Both lines are within a bound. -/
structure Within (b : ℝ) (f : Flanger ℝ) : Prop where
  left : RingWithin b f.left.line.buffer
  right : RingWithin b f.right.line.buffer

theorem Within.ofRate {b : ℝ} (hb : 0 ≤ b) (rate : ℝ) : (ofRate rate).Within b :=
  ⟨DelayLine.ofFrames_within hb _, DelayLine.ofFrames_within hb _⟩

theorem Within.reset {b : ℝ} (hb : 0 ≤ b) (f : Flanger ℝ) : f.reset.Within b :=
  ⟨f.left.line.clear_within hb, f.right.line.clear_within hb⟩

/-- One channel: wherever the sweep is, the line keeps its bound and so does what is read. -/
theorem abs_stepLine_le {m : ℝ} {p : ParamValues ℝ} (hp : EffectKind.flanger.Allows p)
    {s : SweptLine ℝ} (h : RingWithin (20 * m) s.line.buffer) {x : ℝ} (hx : |x| ≤ m) (rate : ℝ) :
    RingWithin (20 * m) (stepLine rate p s x).1.line.buffer ∧
      |(stepLine rate p s x).2| ≤ 20 * m := by
  have hm : 0 ≤ m := (abs_nonneg x).trans hx
  have hroom : m + 20 * m * 0.95 ≤ 20 * m := by linarith
  have hfeedback : |p.at 2| ≤ 0.95 := by
    have hrange := hp.at (i := 2) rfl
    simp only [Scalar.decimal_real] at hrange
    exact abs_le.mpr hrange
  have hread := DelayLine.abs_read_le h (by linarith) (delay rate p s.oscillator.unipolar)
  exact ⟨h.set (abs_fedBack_le hx hread hfeedback hroom) _, hread⟩

theorem Within.step {m : ℝ} {p : ParamValues ℝ} (hp : EffectKind.flanger.Allows p) {f : Flanger ℝ}
    (h : f.Within (20 * m)) {x : Frame ℝ} (hx : x.Within m) :
    (Flanger.step p f x).1.Within (20 * m) ∧ (Flanger.step p f x).2.Within (20 * m) := by
  have hm : 0 ≤ m := (abs_nonneg x.left).trans hx.left
  have hmix := hp.at (i := 3) rfl
  simp only [Scalar.zero_real, Scalar.one_real] at hmix
  obtain ⟨hleft, hl⟩ := abs_stepLine_le hp h.left hx.left f.sampleRate
  obtain ⟨hright, hr⟩ := abs_stepLine_le hp h.right hx.right f.sampleRate
  exact ⟨⟨hleft, hright⟩, (hx.mono (by linarith)).mix ⟨hl, hr⟩ hmix⟩

end Flanger

/-! ## The reverb -/

namespace Comb

/-- The ring and the damped output that is fed back are within a bound. -/
structure Within (b : ℝ) (c : Comb ℝ) : Prop where
  ring : RingWithin b c.buffer
  store : |c.store| ≤ b

theorem Within.step {m b feedback damp : ℝ} (hfeedback : |feedback| ≤ 0.98)
    (hdamp : 0 ≤ damp ∧ damp ≤ 1) (hroom : m + b * 0.98 ≤ b) {c : Comb ℝ} (h : c.Within b) {x : ℝ}
    (hx : |x| ≤ m) :
    (c.step feedback damp x).1.Within b ∧ |(c.step feedback damp x).2| ≤ b := by
  have hout := h.ring.getD ((abs_nonneg _).trans h.store) c.index
  have hstore : |c.buffer.getD c.index 0 * (1 - damp) + c.store * damp| ≤ b :=
    abs_between_le hdamp hout h.store
  have hstep : c.step feedback damp x = (⟨c.buffer.setIfInBounds c.index
      (x + (c.buffer.getD c.index 0 * (1 - damp) + c.store * damp) * feedback),
      (c.index + 1) % c.buffer.size, c.buffer.getD c.index 0 * (1 - damp) + c.store * damp⟩,
      c.buffer.getD c.index 0) := by
    simp [Comb.step]
  rw [hstep]
  exact ⟨⟨h.ring.set (abs_fedBack_le hx hstore hfeedback hroom) _, hstore⟩, hout⟩

theorem ofSize_within {b : ℝ} (hb : 0 ≤ b) (size : ℕ) : (ofSize size).Within b := by
  refine ⟨?_, ?_⟩
  · simpa [ofSize] using RingWithin.silent hb _
  · simpa [ofSize] using hb

theorem clear_within {b : ℝ} (hb : 0 ≤ b) (c : Comb ℝ) : c.clear.Within b := by
  refine ⟨?_, ?_⟩
  · simpa [clear] using RingWithin.silent hb _
  · simpa [clear] using hb

end Comb

/-- An all-pass filter keeps twice its input and puts out three times as much. -/
theorem RingAllPass.abs_step_le {b : ℝ} {a : RingAllPass ℝ} (h : RingWithin (2 * b) a.buffer)
    {x : ℝ} (hx : |x| ≤ b) :
    RingWithin (2 * b) (a.step x).1.buffer ∧ |(a.step x).2| ≤ 3 * b := by
  have hb : 0 ≤ b := (abs_nonneg x).trans hx
  have hdelayed := h.getD (by linarith) a.index
  have hhalf : |(0.5 : ℝ)| ≤ 0.5 := by norm_num
  have hstep : a.step x = (⟨a.buffer.setIfInBounds a.index (x + a.buffer.getD a.index 0 * 0.5),
      (a.index + 1) % a.buffer.size⟩, a.buffer.getD a.index 0 - x) := by
    simp [RingAllPass.step]
  rw [hstep]
  refine ⟨h.set (abs_fedBack_le hx hdelayed hhalf (by linarith)) _, ?_⟩
  calc |a.buffer.getD a.index 0 - x| ≤ |a.buffer.getD a.index 0| + |x| := abs_sub _ _
    _ ≤ 3 * b := by linarith

namespace Reverb

variable {m : ℝ}

/-- Comb filters side by side, each of which gets the same input, add up their bounds. -/
theorem abs_stepCombs_le {b feedback damp : ℝ} (hfeedback : |feedback| ≤ 0.98)
    (hdamp : 0 ≤ damp ∧ damp ≤ 1) (hroom : m + b * 0.98 ≤ b) {x : ℝ} (hx : |x| ≤ m)
    {combs : List (Comb ℝ)} (h : ∀ c ∈ combs, c.Within b) (sum : ℝ) :
    (∀ c ∈ (stepCombs feedback damp x combs sum).1, c.Within b) ∧
      (stepCombs feedback damp x combs sum).1.length = combs.length ∧
      |(stepCombs feedback damp x combs sum).2| ≤ |sum| + combs.length * b := by
  induction combs generalizing sum with
  | nil => simp [stepCombs]
  | cons c rest ih =>
      obtain ⟨hc, hrest⟩ := List.forall_mem_cons.mp h
      obtain ⟨hnext, hout⟩ := hc.step hfeedback hdamp hroom hx
      obtain ⟨hcombs, hlength, htotal⟩ := ih hrest (sum + (c.step feedback damp x).2)
      refine ⟨List.forall_mem_cons.mpr ⟨hnext, hcombs⟩, congrArg (· + 1) hlength, ?_⟩
      calc |(stepCombs feedback damp x (c :: rest) sum).2|
          ≤ |sum + (c.step feedback damp x).2| + rest.length * b := htotal
        _ ≤ |sum| + b + rest.length * b := by
            gcongr
            exact (abs_add_le _ _).trans (by linarith)
        _ = |sum| + (c :: rest).length * b := by
            rw [List.length_cons, Nat.cast_succ]
            ring

/-- The rings of a row of all-pass filters whose input is within a bound; it grows
threefold from one to the next. -/
def RowWithin : ℝ → List (RingAllPass ℝ) → Prop
  | _, [] => True
  | b, a :: rest => RingWithin (2 * b) a.buffer ∧ RowWithin (3 * b) rest

theorem RowWithin.step {b : ℝ} {row : List (RingAllPass ℝ)} (h : RowWithin b row) {x : ℝ}
    (hx : |x| ≤ b) :
    RowWithin b (stepAllPasses row x).1 ∧ (stepAllPasses row x).1.length = row.length ∧
      |(stepAllPasses row x).2| ≤ 3 ^ row.length * b := by
  induction row generalizing b x with
  | nil => simpa [stepAllPasses, RowWithin] using hx
  | cons a rest ih =>
      obtain ⟨hring, hrest⟩ := h
      obtain ⟨hnext, hout⟩ := RingAllPass.abs_step_le hring hx
      obtain ⟨hrow, hlength, hlast⟩ := ih hrest hout
      refine ⟨⟨hnext, hrow⟩, congrArg (· + 1) hlength, hlast.trans (le_of_eq ?_)⟩
      rw [List.length_cons, pow_succ]
      ring

theorem RowWithin.silent {b : ℝ} (hb : 0 ≤ b) {row : List (RingAllPass ℝ)}
    (h : ∀ a ∈ row, ∃ size, a.buffer = Array.replicate size 0) : RowWithin b row := by
  induction row generalizing b with
  | nil => trivial
  | cons a rest ih =>
      obtain ⟨⟨size, hsize⟩, hrest⟩ := List.forall_mem_cons.mp h
      refine ⟨?_, ih (by linarith) hrest⟩
      rw [hsize]
      exact RingWithin.silent (by linarith) size

/-- All rings of a row are within the bound of what comes out of it. -/
theorem RowWithin.all {b : ℝ} (hb : 0 ≤ b) {row : List (RingAllPass ℝ)} (h : RowWithin b row) :
    ∀ a ∈ row, RingWithin (3 ^ row.length * b) a.buffer := by
  induction row generalizing b with
  | nil => simp
  | cons a rest ih =>
      obtain ⟨hring, hrest⟩ := h
      have hfactor : (1 : ℝ) ≤ 3 ^ rest.length := one_le_pow₀ (by norm_num)
      have hgrown : (3 : ℝ) ^ (a :: rest).length * b = 3 ^ rest.length * (3 * b) := by
        rw [List.length_cons, pow_succ]
        ring
      rw [hgrown]
      refine List.forall_mem_cons.mpr ⟨hring.mono ?_, ih (by linarith) hrest⟩
      nlinarith

end Reverb

namespace ReverbChannel

/-- The filters of a channel for inputs within `m` on either side: the combs get
three hundredths of that, and the all-passes the sum of all combs. -/
structure Within (m : ℝ) (c : ReverbChannel ℝ) : Prop where
  combs : ∀ k ∈ c.combs, k.Within (1.5 * m)
  combs_length : c.combs.length = 8
  allPasses : Reverb.RowWithin (12 * m) c.allPasses
  allPasses_length : c.allPasses.length = 4

/-- All that a channel keeps of the signal. -/
def held {σ : Type} (c : ReverbChannel σ) : List σ :=
  c.combs.flatMap (fun k => k.store :: k.buffer.toList) ++
    c.allPasses.flatMap fun a => a.buffer.toList

theorem Within.held {m : ℝ} (hm : 0 ≤ m) {c : ReverbChannel ℝ} (h : c.Within m) :
    ∀ v ∈ c.held, |v| ≤ 972 * m := by
  intro v hv
  rcases List.mem_append.mp hv with hcomb | hallPass
  · obtain ⟨k, hk, hv⟩ := List.mem_flatMap.mp hcomb
    have hwithin := h.combs k hk
    have hbound : |v| ≤ 1.5 * m := by
      rcases List.mem_cons.mp hv with rfl | hring
      · exact hwithin.store
      · exact hwithin.ring v (Array.mem_toList_iff.mp hring)
    linarith
  · obtain ⟨a, ha, hv⟩ := List.mem_flatMap.mp hallPass
    have hbound := h.allPasses.all (by linarith) a ha v (Array.mem_toList_iff.mp hv)
    rw [h.allPasses_length] at hbound
    linarith

end ReverbChannel

namespace Reverb

/-- Settings that leave room for the input in every comb and share out the channels. -/
structure Settings.Tame (s : Settings ℝ) : Prop where
  feedback : |s.feedback| ≤ 0.98
  damp : 0 ≤ s.damp ∧ s.damp ≤ 1
  other : 0 ≤ s.other ∧ s.other ≤ 1
  own : s.own = 1 - s.other
  mix : 0 ≤ s.mix ∧ s.mix ≤ 1

theorem settings_tame {p : ParamValues ℝ} (h : EffectKind.reverb.Allows p) :
    (settings p).Tame := by
  have hsize := h.at (i := 0) rfl
  have hdamping := h.at (i := 1) rfl
  have hwidth := h.at (i := 2) rfl
  have hmix := h.at (i := 3) rfl
  simp only [Scalar.zero_real, Scalar.one_real] at hsize hdamping hwidth hmix
  obtain ⟨hfeedback, hdamp, hown, hother⟩ :
      (settings p).feedback = p.at 0 * 0.28 + 0.7 ∧ (settings p).damp = p.at 1 * 0.4 ∧
        (settings p).own = p.at 2 / 2 + 0.5 ∧ (settings p).other = (1 - p.at 2) / 2 := by
    simp [settings]
  refine ⟨?_, ?_, ?_, ?_, hmix⟩
  · rw [hfeedback]
    exact abs_le.mpr ⟨by linarith, by linarith⟩
  · rw [hdamp]
    exact ⟨by linarith, by linarith⟩
  · rw [hother]
    exact ⟨by linarith, by linarith⟩
  · rw [hown, hother]
    ring

theorem stepChannel_within {m : ℝ} {s : Settings ℝ} (hs : s.Tame) {c : ReverbChannel ℝ}
    (h : c.Within m) {x : ℝ} (hx : |x| ≤ 0.03 * m) :
    (stepChannel s c x).1.Within m ∧ |(stepChannel s c x).2| ≤ 972 * m := by
  obtain ⟨hcombs, hcount, hsum⟩ :=
    abs_stepCombs_le hs.feedback hs.damp (by linarith) hx h.combs 0
  have hinput : |(stepCombs s.feedback s.damp x c.combs 0).2| ≤ 12 * m := by
    rw [abs_zero, h.combs_length] at hsum
    push_cast at hsum
    linarith
  obtain ⟨hrow, hrowCount, hout⟩ := h.allPasses.step hinput
  have hloudest : (3 : ℝ) ^ 4 * (12 * m) = 972 * m := by ring
  rw [h.allPasses_length, hloudest] at hout
  have hstep : stepChannel s c x =
      (⟨(stepCombs s.feedback s.damp x c.combs 0).1,
        (stepAllPasses c.allPasses (stepCombs s.feedback s.damp x c.combs 0).2).1⟩,
        (stepAllPasses c.allPasses (stepCombs s.feedback s.damp x c.combs 0).2).2) := by
    simp [stepChannel]
  rw [hstep]
  exact ⟨⟨hcombs, hcount.trans h.combs_length, hrow, hrowCount.trans h.allPasses_length⟩, hout⟩

/-- Both channels are within their bounds. -/
structure Within (m : ℝ) (r : Reverb ℝ) : Prop where
  left : r.left.Within m
  right : r.right.Within m

theorem channel_within {m : ℝ} (hm : 0 ≤ m) (rate : ℝ) (longer : ℕ) :
    (channel rate longer).Within m := by
  refine ⟨?_, rfl, RowWithin.silent (by linarith) ?_, rfl⟩
  · intro k hk
    obtain ⟨t, -, rfl⟩ := List.mem_map.mp hk
    exact Comb.ofSize_within (by linarith) _
  · intro a ha
    obtain ⟨t, -, rfl⟩ := List.mem_map.mp ha
    exact ⟨_, by rw [RingAllPass.ofSize, Scalar.zero_real]⟩

theorem Within.ofRate {m : ℝ} (hm : 0 ≤ m) (rate : ℝ) : (ofRate rate).Within m :=
  ⟨channel_within hm rate 0, channel_within hm rate spread⟩

theorem clearChannel_within {m : ℝ} (hm : 0 ≤ m) {c : ReverbChannel ℝ} (h : c.Within m) :
    (clearChannel c).Within m := by
  refine ⟨?_, (List.length_map _).trans h.combs_length, RowWithin.silent (by linarith) ?_,
    (List.length_map _).trans h.allPasses_length⟩
  · intro k hk
    obtain ⟨k, -, rfl⟩ := List.mem_map.mp hk
    exact k.clear_within (by linarith)
  · intro a ha
    obtain ⟨t, -, rfl⟩ := List.mem_map.mp ha
    exact ⟨_, by rw [RingAllPass.clear, Scalar.zero_real]⟩

theorem Within.reset {m : ℝ} (hm : 0 ≤ m) {r : Reverb ℝ} (h : r.Within m) : r.reset.Within m :=
  ⟨clearChannel_within hm h.left, clearChannel_within hm h.right⟩

theorem Within.step {m : ℝ} {s : Settings ℝ} (hs : s.Tame) {r : Reverb ℝ} (h : r.Within m)
    {x : Frame ℝ} (hx : x.Within m) :
    (Reverb.step s r x).1.Within m ∧ (Reverb.step s r x).2.Within (972 * m) := by
  have hm : 0 ≤ m := (abs_nonneg x.left).trans hx.left
  have hmono : |(x.left + x.right) * 0.015| ≤ 0.03 * m := by
    obtain ⟨hleftLow, hleftHigh⟩ := abs_le.mp hx.left
    obtain ⟨hrightLow, hrightHigh⟩ := abs_le.mp hx.right
    exact abs_le.mpr ⟨by linarith, by linarith⟩
  obtain ⟨hleft, hl⟩ := stepChannel_within hs h.left hmono
  obtain ⟨hright, hr⟩ := stepChannel_within hs h.right hmono
  refine ⟨⟨hleft, hright⟩, (hx.mono (by linarith)).mix ⟨?_, ?_⟩ hs.mix⟩
  · have hspread := abs_between_le hs.other hl hr
    rwa [← hs.own] at hspread
  · have hspread := abs_between_le hs.other hr hl
    rwa [← hs.own] at hspread

end Reverb

/-! ## Effects that feed back -/

/-- The kinds that keep a stretch of signal and feed part of it back. -/
def EffectKind.recirculating : List EffectKind :=
  [delay, flanger, reverb]

/-- How far an effect can rise above the loudest input. -/
noncomputable def EffectKind.ceiling : EffectKind → ℝ
  | reverb => 972
  | _ => 20

namespace Effect

section

variable {σ π γ : Type}

/-- All samples that an effect feeds back. -/
def held : Effect σ π γ → List σ
  | delay d => d.left.buffer.toList ++ d.right.buffer.toList
  | flanger f => f.left.line.buffer.toList ++ f.right.line.buffer.toList
  | reverb r => r.left.held ++ r.right.held
  | _ => []

end

variable {γ : Type} {m : ℝ}

/-- What frames keep of an effect that feeds back, for inputs within `m`. -/
def Tame (m : ℝ) : Effect ℝ ℝ γ → Prop
  | delay d => d.Within (20 * m)
  | flanger f => f.Within (20 * m)
  | reverb r => r.Within m
  | _ => False

/-- A block within `m` and values in range. -/
structure Call.Fits (kind : EffectKind) (m : ℝ) (call : Call ℝ ℝ) : Prop where
  values : kind.Allows call.values
  block : ∀ x ∈ call.block, x.Within m

theorem Tame.held {e : Effect ℝ ℝ γ} (h : e.Tame m) (hm : 0 ≤ m) :
    ∀ v ∈ e.held, |v| ≤ e.kind.ceiling * m := by
  intro v hv
  cases e with
  | delay d =>
      rcases List.mem_append.mp hv with hv | hv
      · exact h.left v (Array.mem_toList_iff.mp hv)
      · exact h.right v (Array.mem_toList_iff.mp hv)
  | flanger f =>
      rcases List.mem_append.mp hv with hv | hv
      · exact h.left v (Array.mem_toList_iff.mp hv)
      · exact h.right v (Array.mem_toList_iff.mp hv)
  | reverb r =>
      rcases List.mem_append.mp hv with hv | hv
      · exact h.left.held hm v hv
      · exact h.right.held hm v hv
  | _ => exact h.elim

theorem tame_ofKind (hm : 0 ≤ m) (rate : ℝ) {kind : EffectKind}
    (hkind : kind ∈ EffectKind.recirculating) : (ofKind rate kind : Effect ℝ ℝ γ).Tame m := by
  simp only [EffectKind.recirculating, List.mem_cons, List.not_mem_nil, or_false] at hkind
  rcases hkind with rfl | rfl | rfl
  · exact Delay.Within.ofRate (by linarith) rate
  · exact Flanger.Within.ofRate (by linarith) rate
  · exact Reverb.Within.ofRate hm rate

section runs

variable [Transform ℝ γ]

theorem Tame.processed {e : Effect ℝ ℝ γ} (h : e.Tame m) {call : Call ℝ ℝ}
    (hcall : call.Fits e.kind m) :
    (e.process call.values call.context call.block).1.Tame m ∧
      ∀ y ∈ (e.process call.values call.context call.block).2, y.Within (e.kind.ceiling * m) := by
  cases e with
  | delay d =>
      exact runOver_ensures
        (fun _ _ h hx => h.step (Delay.settings_tame hcall.values d call.context) hx)
        hcall.block h
  | flanger f =>
      exact runOver_ensures (fun _ _ h hx => h.step hcall.values hx) hcall.block h
  | reverb r =>
      exact runOver_ensures (fun _ _ h hx => h.step (Reverb.settings_tame hcall.values) hx)
        hcall.block h
  | _ => exact h.elim

theorem Tame.used {e : Effect ℝ ℝ γ} (h : e.Tame m) (hm : 0 ≤ m) {u : Use ℝ ℝ}
    (hu : ∀ call, u = .process call → call.Fits e.kind m) :
    (e.use u).Tame m ∧ (e.use u).kind = e.kind := by
  cases u with
  | process call => exact ⟨(h.processed (hu call rfl)).1, kind_process _ _ _ _⟩
  | reset =>
      refine ⟨?_, kind_reset e⟩
      cases e with
      | delay d => exact Delay.Within.reset (by linarith) d
      | flanger f => exact Flanger.Within.reset (by linarith) f
      | reverb r => exact Reverb.Within.reset hm h
      | _ => exact h.elim
  | setRate rate =>
      cases e with
      | delay d => exact ⟨Delay.Within.ofRate (by linarith) rate, rfl⟩
      | flanger f => exact ⟨Flanger.Within.ofRate (by linarith) rate, rfl⟩
      | reverb r => exact ⟨Reverb.Within.ofRate hm rate, rfl⟩
      | _ => exact h.elim
  | install impulse =>
      cases e with
      | convolution => exact h.elim
      | _ => exact ⟨h, rfl⟩

theorem Tame.usedAll {e : Effect ℝ ℝ γ} (h : e.Tame m) (hm : 0 ≤ m) {uses : List (Use ℝ ℝ)}
    (huses : ∀ call, .process call ∈ uses → call.Fits e.kind m) :
    (uses.foldl use e).Tame m ∧ (uses.foldl use e).kind = e.kind := by
  induction uses generalizing e with
  | nil => exact ⟨h, rfl⟩
  | cons u rest ih =>
      obtain ⟨hnext, hkind⟩ := h.used hm fun call heq => huses call (heq ▸ List.mem_cons_self)
      obtain ⟨hlast, hlastKind⟩ :=
        ih hnext fun call hmem => hkind ▸ huses call (List.mem_cons_of_mem u hmem)
      exact ⟨hlast, hlastKind.trans hkind⟩

/-- However a delay, a flanger or a reverb of any sample rate was used, with values
that move in their ranges from block to block, at any tempo and with inputs within
`m`: in every frame of every further block all that it keeps and all that it puts
out is within a fixed multiple of `m`, for the lines of delay and flanger
twenty times. -/
theorem feedback_bounded {kind : EffectKind} (hkind : kind ∈ EffectKind.recirculating) (rate : ℝ)
    (hm : 0 ≤ m) {uses : List (Use ℝ ℝ)} (huses : ∀ call, .process call ∈ uses → call.Fits kind m) :
    let e : Effect ℝ ℝ γ := uses.foldl use (ofKind rate kind)
    (∀ v ∈ e.held, |v| ≤ kind.ceiling * m) ∧
      ∀ call : Call ℝ ℝ, call.Fits kind m → ∀ frames,
        let later := e.process call.values call.context (call.block.take frames)
        (∀ v ∈ later.1.held, |v| ≤ kind.ceiling * m) ∧
          ∀ y ∈ later.2, y.Within (kind.ceiling * m) := by
  intro e
  have hnew : (ofKind rate kind : Effect ℝ ℝ γ).kind = kind := by
    cases kind <;> rfl
  obtain ⟨he, hsame⟩ := (tame_ofKind (γ := γ) hm rate hkind).usedAll hm (by rwa [hnew])
  have hekind : e.kind = kind := hsame.trans hnew
  refine ⟨hekind ▸ he.held hm, fun call hcall frames => ?_⟩
  -- The first frames of a block are a block that fits as well.
  have hfirst : Call.Fits e.kind m { call with block := call.block.take frames } := by
    rw [hekind]
    exact ⟨hcall.values, fun x hx => hcall.block x (List.mem_of_mem_take hx)⟩
  obtain ⟨hlater, hout⟩ := he.processed hfirst
  rw [hekind] at hout
  refine ⟨?_, hout⟩
  have hheld := hlater.held hm
  rwa [kind_process, hekind] at hheld

end runs

/-- A delay with the most feedback whose echoes cross over, and then stay on their sides. -/
theorem feedback_bounded_crossing :
    let crossing : Call ℝ ℝ := ⟨[1, 1, 0, 0.95, 1], ⟨120⟩, [⟨1, -1⟩, ⟨1, 1⟩]⟩
    let straight : Call ℝ ℝ := ⟨[0, 2, 13, 0.95, 1], ⟨0⟩, [⟨1, 1⟩, ⟨-1, 1⟩]⟩
    let e : Effect ℝ ℝ (Fin 256 → ℝ) := (ofKind 1000 .delay).use (.process crossing)
    EffectKind.delay ∈ EffectKind.recirculating ∧ (0 : ℝ) ≤ 1 ∧ crossing.Fits .delay 1 ∧
      straight.Fits .delay 1 ∧
      ∀ y ∈ (e.process straight.values straight.context straight.block).2, y.Within (20 * 1) := by
  intro crossing straight e
  have hrecirculating : EffectKind.delay ∈ EffectKind.recirculating := by decide
  have hcrossing : crossing.Fits .delay 1 := by
    refine ⟨?_, ?_⟩
    · simp only [crossing, EffectKind.Allows, EffectKind.params, Delay.params, List.forall₂_cons,
        Scalar.zero_real, Scalar.one_real, Scalar.decimal_real]
      norm_num
    · rintro x hx
      simp only [crossing, List.mem_cons, List.not_mem_nil, or_false] at hx
      rcases hx with rfl | rfl <;> exact ⟨by norm_num, by norm_num⟩
  have hstraight : straight.Fits .delay 1 := by
    refine ⟨?_, ?_⟩
    · simp only [straight, EffectKind.Allows, EffectKind.params, Delay.params, List.forall₂_cons,
        Scalar.zero_real, Scalar.one_real, Scalar.decimal_real]
      norm_num
    · rintro x hx
      simp only [straight, List.mem_cons, List.not_mem_nil, or_false] at hx
      rcases hx with rfl | rfl <;> exact ⟨by norm_num, by norm_num⟩
  have huses : ∀ call, Use.process call ∈ [Use.process crossing] → call.Fits .delay 1 := by
    simpa using hcrossing
  have hbounded := feedback_bounded (γ := Fin 256 → ℝ) hrecirculating 1000 zero_le_one huses
  exact ⟨hrecirculating, zero_le_one, hcrossing, hstraight, (hbounded.2 straight hstraight 2).2⟩

end Effect

end Multisample
