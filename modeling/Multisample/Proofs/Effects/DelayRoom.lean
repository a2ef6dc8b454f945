import Mathlib.Tactic.Linarith
import Multisample.Proofs.Effects.Feedback

/-!
# Delays fit their lines

A delay, a chorus and a flanger build their lines for a sample rate, in whole frames,
and ask in every frame for a delay that hangs on parameters, on the tempo and on where
an oscillator stands.  Whatever these are in their ranges, the line is long enough: what
rounding takes from its length is less than what was added to it.  Nothing but a new
rate builds other lines, so that holds all along the use of an effect.
-/

namespace Multisample

namespace DelayLine

theorem maxDelay_push {σ : Type} (d : DelayLine σ) (x : σ) : (d.push x).maxDelay = d.maxDelay := by
  rw [maxDelay, size_push, maxDelay]

variable {σ : Type} [Scalar σ]

theorem maxDelay_clear (d : DelayLine σ) : d.clear.maxDelay = d.maxDelay := by
  rw [maxDelay, size_clear, maxDelay]

theorem maxDelay_ofFrames (frames : ℕ) :
    (ofFrames frames : DelayLine σ).maxDelay = max frames 1 := by
  rw [maxDelay, ofFrames, Array.size_replicate, Nat.add_sub_cancel]

theorem maxDelay_of_clear {d : DelayLine σ} {frames : ℕ} (h : d.clear = ofFrames frames) :
    d.maxDelay = max frames 1 := by
  rw [← maxDelay_clear, h, maxDelay_ofFrames]

/-- Where there is room for a delay it is not cut: the line reads there, or at one sample. -/
theorem read_of_le {d : DelayLine ℝ} {delay : ℝ} (hroom : 1 ≤ d.maxDelay) (h : delay ≤ d.maxDelay) :
    d.read delay = lineAt d.back (max delay 1) := by
  have hone : (1 : ℝ) ≤ d.maxDelay := Nat.one_le_cast.mpr hroom
  rw [read_eq, taken_real, min_eq_left (max_le h hone)]

end DelayLine

/-! ## Delays that are asked for -/

theorem Delay.seconds_le {timeMs : ℝ} (h : timeMs ≤ 2000) (sync tempo : ℝ) :
    seconds timeMs sync tempo ≤ 4 := by
  unfold seconds
  dsimp only
  split
  · rw [Scalar.decimal_real]
    linarith
  · rw [Scalar.min_real, longest, Scalar.numeral_real]
    exact min_le_right _ _

theorem Delay.seconds_mul_le {p : ParamValues ℝ} (hp : EffectKind.delay.Allows p) {rate : ℝ}
    (hrate : 0 ≤ rate) (tempo : ℝ) :
    seconds (p.at 1) (p.at 2) tempo * rate ≤ lineFrames rate := by
  have htime := (hp.at (i := 1) rfl).2
  have hframes : 4 * rate < lineFrames rate := by
    simpa [lineFrames, longest] using Nat.lt_floor_add_one (4 * rate)
  calc seconds (p.at 1) (p.at 2) tempo * rate ≤ 4 * rate :=
        mul_le_mul_of_nonneg_right (seconds_le htime _ tempo) hrate
    _ ≤ lineFrames rate := hframes.le

/-- The five milliseconds to spare are a frame from 200 Hz on. -/
theorem Chorus.delay_le {p : ParamValues ℝ} (hp : EffectKind.chorus.Allows p) {rate : ℝ}
    (hrate : 200 ≤ rate) {swing : ℝ} (hswing : |swing| ≤ 1) :
    delay rate p swing ≤ lineFrames rate := by
  have hdepth := hp.at (i := 1) rfl
  have hbase := (hp.at (i := 2) rfl).2
  simp only [Scalar.zero_real] at hdepth
  have hms : 0 ≤ 0.001 * rate := by linarith
  have hswept : p.at 1 * swing ≤ 10 :=
    calc p.at 1 * swing ≤ p.at 1 * |swing| := mul_le_mul_of_nonneg_left (le_abs_self _) hdepth.1
      _ ≤ p.at 1 := mul_le_of_le_one_right hdepth.1 hswing
      _ ≤ 10 := hdepth.2
  have hframes : 45 * 0.001 * rate - 1 < lineFrames rate := by
    simpa [lineFrames] using Nat.sub_one_lt_floor (45 * 0.001 * rate)
  calc delay rate p swing = (p.at 2 + p.at 1 * swing) * (0.001 * rate) := by
        simp only [delay, Scalar.decimal_real]
        ring
    _ ≤ 40 * (0.001 * rate) := mul_le_mul_of_nonneg_right (by linarith) hms
    _ ≤ 45 * 0.001 * rate - 1 := by linarith
    _ ≤ lineFrames rate := hframes.le

theorem Flanger.delay_le {p : ParamValues ℝ} (hp : EffectKind.flanger.Allows p) {rate : ℝ}
    (hrate : 0 ≤ rate) {sweep : ℝ} (hsweep : 0 ≤ sweep ∧ sweep ≤ 1) :
    delay rate p sweep ≤ lineFrames rate := by
  have hdepth := hp.at (i := 1) rfl
  simp only [Scalar.zero_real, Scalar.one_real] at hdepth
  have hswept : p.at 1 * sweep ≤ 1 := mul_le_one₀ hdepth.2 hsweep.1 hsweep.2
  have hrounded := Nat.lt_floor_add_one ((0.5 + 5) * 0.001 * rate)
  have hframes : (lineFrames rate : ℝ) = ⌊(0.5 + 5) * 0.001 * rate⌋₊ + 2 := by simp [lineFrames]
  calc delay rate p sweep = (0.5 + 5 * (p.at 1 * sweep)) * (0.001 * rate) := by
        simp only [delay, Scalar.decimal_real]
        ring
    _ ≤ 5.5 * (0.001 * rate) := mul_le_mul_of_nonneg_right (by linarith) (by linarith)
    _ ≤ lineFrames rate := by linarith

namespace EffectKind

/-- The kinds that read delay lines. -/
def delaying : List EffectKind :=
  [delay, chorus, flanger]

/-- A reset restores them to the letter, and there is nothing to install in them. -/
theorem delaying_reset : ∀ kind ∈ delaying, kind ∉ looselyReset ∧ kind ≠ convolution := by
  decide

/-- The longest delay, in frames, that the lines of an effect are built for. -/
noncomputable def lineFrames (rate : ℝ) : EffectKind → ℕ
  | delay => Delay.lineFrames rate
  | chorus => Chorus.lineFrames rate
  | flanger => Flanger.lineFrames rate
  | _ => 0

/-- The delay in frames that a line is asked for, where the oscillator stands at `swing`; the
one of a flanger is moved to the scale from 0 to 1. -/
noncomputable def asked (rate : ℝ) (p : ParamValues ℝ) (ctx : BlockContext ℝ) (swing : ℝ) :
    EffectKind → ℝ
  | delay => Delay.seconds (p.at 1) (p.at 2) ctx.tempo * rate
  | chorus => Chorus.delay rate p swing
  | flanger => Flanger.delay rate p (0.5 + 0.5 * swing)
  | _ => 0

/-- The place of the parameter that mixes what is read with what comes in. -/
def mixPlace : EffectKind → ℕ
  | delay => 4
  | _ => 3

theorem asked_le {kind : EffectKind} (hkind : kind ∈ delaying) {p : ParamValues ℝ}
    (hp : kind.Allows p) (ctx : BlockContext ℝ) {rate : ℝ} (hrate : 200 ≤ rate) {swing : ℝ}
    (hswing : |swing| ≤ 1) : kind.asked rate p ctx swing ≤ kind.lineFrames rate := by
  have hpositive : 0 ≤ rate := by linarith
  simp only [delaying, List.mem_cons, List.not_mem_nil, or_false] at hkind
  rcases hkind with rfl | rfl | rfl
  · exact Delay.seconds_mul_le hp hpositive ctx.tempo
  · exact Chorus.delay_le hp hrate hswing
  · obtain ⟨hlow, hhigh⟩ := abs_le.mp hswing
    exact Flanger.delay_le hp hpositive ⟨by linarith, by linarith⟩

end EffectKind

/-! ## Lines in use -/

namespace Setup

/-- What holds of the first rate and of every rate that is set holds of the last one. -/
theorem rate_after {σ π : Type} {P : σ → Prop} {s : Setup σ} (hs : P s.rate)
    {uses : List (Use σ π)} (huses : ∀ rate, .setRate rate ∈ uses → P rate) :
    P (uses.foldl after s).rate := by
  induction uses generalizing s with
  | nil => exact hs
  | cons u rest ih =>
      refine ih ?_ fun rate hrate => huses rate (List.mem_cons_of_mem u hrate)
      cases u with
      | setRate rate => exact huses rate List.mem_cons_self
      | _ => exact hs

end Setup

namespace Effect

section resets

variable {σ π γ : Type} [Elementary σ] [Elementary π] [Precision σ π] [Transform σ γ]

theorem reset_use {kind : EffectKind} (hkind : kind ∉ EffectKind.looselyReset) {e : Effect σ π γ}
    {s : Setup σ} (h : e.reset = s.effect kind) (u : Use σ π) :
    (e.use u).reset = (s.after u).effect kind := by
  have halike : Alike e.reset (s.effect kind) := by
    rw [h]
    exact .same _ (by rwa [Setup.kind_effect])
  have hused := halike.used u
  exact hused.eq_of_same (by rwa [kind_reset, hused.kind_eq])

/-- However an effect was used, a reset leaves what is built at the rate that was set last. -/
theorem reset_uses {kind : EffectKind} (hkind : kind ∉ EffectKind.looselyReset) {e : Effect σ π γ}
    {s : Setup σ} (h : e.reset = s.effect kind) (uses : List (Use σ π)) :
    (uses.foldl use e).reset = (uses.foldl Setup.after s).effect kind := by
  induction uses generalizing e s with
  | nil => exact h
  | cons u rest ih => exact ih (reset_use hkind h u)

end resets

variable {γ : Type} {kind : EffectKind} {e : Effect ℝ ℝ γ} {rate : ℝ}

/-- Two lines as a frame reads them, and the rate of the effect that they belong to. -/
structure Tape where
  rate : ℝ
  left : DelayLine ℝ
  right : DelayLine ℝ

/-- The lines of an effect; into those of a chorus the frame goes before they are read. -/
def tape (x : Frame ℝ) : Effect ℝ ℝ γ → Option Tape
  | delay d => some ⟨d.sampleRate, d.left, d.right⟩
  | chorus c => some ⟨c.sampleRate, c.left.line.push x.left, c.right.line.push x.right⟩
  | flanger f => some ⟨f.sampleRate, f.left.line, f.right.line⟩
  | _ => none

/-- Lines as long as they are built for a rate. -/
structure Tape.BuiltFor (kind : EffectKind) (rate : ℝ) (t : Tape) : Prop where
  own : t.rate = rate
  left : t.left.maxDelay = max (kind.lineFrames rate) 1
  right : t.right.maxDelay = max (kind.lineFrames rate) 1

theorem Tape.BuiltFor.asked_le {t : Tape} (h : t.BuiltFor kind rate)
    (hkind : kind ∈ EffectKind.delaying) (hrate : 200 ≤ rate) {p : ParamValues ℝ}
    (hp : kind.Allows p) (ctx : BlockContext ℝ) {swing : ℝ} (hswing : |swing| ≤ 1) :
    kind.asked t.rate p ctx swing ≤ t.left.maxDelay ∧
      kind.asked t.rate p ctx swing ≤ t.right.maxDelay := by
  have hframes := EffectKind.asked_le hkind hp ctx hrate hswing
  have hroom : (kind.lineFrames rate : ℝ) ≤ (max (kind.lineFrames rate) 1 : ℕ) :=
    Nat.cast_le.mpr (le_max_left _ _)
  rw [h.own, h.left, h.right]
  exact ⟨hframes.trans hroom, hframes.trans hroom⟩

/-- Where the oscillators of an effect stand. -/
noncomputable def swing : Effect ℝ ℝ γ → Frame ℝ
  | chorus c => ⟨c.left.oscillator.value, c.right.oscillator.value⟩
  | flanger f => ⟨f.left.oscillator.value, f.right.oscillator.value⟩
  | _ => ⟨0, 0⟩

theorem swing_within (e : Effect ℝ ℝ γ) : e.swing.Within 1 := by
  have hvalue (o : Oscillator ℝ) : |o.value| ≤ 1 := Real.abs_sin_le_one _
  have hzero : |(0 : ℝ)| ≤ 1 := by norm_num
  cases e with
  | chorus c => exact ⟨hvalue _, hvalue _⟩
  | flanger f => exact ⟨hvalue _, hvalue _⟩
  | _ => exact ⟨hzero, hzero⟩

section runs

variable [Transform ℝ γ]

theorem builtFor_of_reset (hkind : kind ∈ EffectKind.delaying) (h : e.reset = ofKind rate kind)
    (x : Frame ℝ) : ∃ t, e.tape x = some t ∧ t.BuiltFor kind rate := by
  simp only [EffectKind.delaying, List.mem_cons, List.not_mem_nil, or_false] at hkind
  rcases hkind with rfl | rfl | rfl
  · cases e with
    | delay d =>
        have hd : d.reset = Delay.ofRate rate := delay.inj h
        exact ⟨_, rfl, congrArg Delay.sampleRate hd,
          DelayLine.maxDelay_of_clear (congrArg Delay.left hd),
          DelayLine.maxDelay_of_clear (congrArg Delay.right hd)⟩
    | _ => cases h
  · cases e with
    | chorus c =>
        have hc : c.reset = Chorus.ofRate rate := chorus.inj h
        have hleft := congrArg (fun c => c.left.line) hc
        have hright := congrArg (fun c => c.right.line) hc
        exact ⟨_, rfl, congrArg Chorus.sampleRate hc,
          (DelayLine.maxDelay_push _ _).trans (DelayLine.maxDelay_of_clear hleft),
          (DelayLine.maxDelay_push _ _).trans (DelayLine.maxDelay_of_clear hright)⟩
    | _ => cases h
  · cases e with
    | flanger f =>
        have hf : f.reset = Flanger.ofRate rate := flanger.inj h
        exact ⟨_, rfl, congrArg Flanger.sampleRate hf,
          DelayLine.maxDelay_of_clear (congrArg (fun f => f.left.line) hf),
          DelayLine.maxDelay_of_clear (congrArg (fun f => f.right.line) hf)⟩
    | _ => cases h

/-- A frame puts out what its lines hold at the delays that are asked for, mixed with itself. -/
theorem process_frame {x : Frame ℝ} {t : Tape} (ht : e.tape x = some t) (p : ParamValues ℝ)
    (ctx : BlockContext ℝ) : (e.process p ctx [x]).2 =
      [x.mix ⟨t.left.read (e.kind.asked t.rate p ctx e.swing.left),
        t.right.read (e.kind.asked t.rate p ctx e.swing.right)⟩ (p.at e.kind.mixPlace)] := by
  cases e with
  | delay d =>
      cases ht
      have hstep : (Delay.step (d.settings p ctx) d x).2 =
          x.mix ⟨d.left.read (d.settings p ctx).delay, d.right.read (d.settings p ctx).delay⟩
            (d.settings p ctx).mix := by
        unfold Delay.step
        dsimp only
        split <;> rfl
      exact congrArg (fun y => [y]) hstep
  | chorus c =>
      cases ht
      rfl
  | flanger f =>
      cases ht
      have hunipolar (o : Oscillator ℝ) : o.unipolar = 0.5 + 0.5 * o.value := rfl
      show [x.mix ⟨f.left.line.read (Flanger.delay f.sampleRate p f.left.oscillator.unipolar),
        f.right.line.read (Flanger.delay f.sampleRate p f.right.oscillator.unipolar)⟩ (p.at 3)] = _
      rw [hunipolar, hunipolar]
      rfl
  | _ => cases ht

/-- However a delay, a chorus or a flanger was used at rates from 200 Hz on: in the next frame,
with values in their ranges, at any tempo, its lines have room for the delay that is asked for
wherever the oscillators stand between -1 and 1, as they do.  So what is put out is what the
lines hold at the very delays that were asked for, but for those of less than a sample. -/
theorem delays_fit (hkind : kind ∈ EffectKind.delaying) (hrate : 200 ≤ rate)
    {uses : List (Use ℝ ℝ)} (huses : ∀ later, .setRate later ∈ uses → 200 ≤ later)
    {p : ParamValues ℝ} (hp : kind.Allows p) (ctx : BlockContext ℝ) (x : Frame ℝ) :
    let e : Effect ℝ ℝ γ := uses.foldl use (ofKind rate kind)
    ∃ t, e.tape x = some t ∧
      (∀ swing, |swing| ≤ 1 → kind.asked t.rate p ctx swing ≤ t.left.maxDelay ∧
        kind.asked t.rate p ctx swing ≤ t.right.maxDelay) ∧
      e.swing.Within 1 ∧
      (e.process p ctx [x]).2 =
        [x.mix ⟨DelayLine.lineAt t.left.back (max (kind.asked t.rate p ctx e.swing.left) 1),
          DelayLine.lineAt t.right.back (max (kind.asked t.rate p ctx e.swing.right) 1)⟩
          (p.at kind.mixPlace)] := by
  intro e
  obtain ⟨hletter, hplain⟩ := EffectKind.delaying_reset kind hkind
  have hnew : (ofKind rate kind : Effect ℝ ℝ γ).reset = (⟨rate, none⟩ : Setup ℝ).effect kind := by
    rw [reset_ofKind, Setup.effect_none]
  have hreset := reset_uses hletter hnew uses
  have hkept : e.kind = kind := by rw [← kind_reset, hreset, Setup.kind_effect]
  rw [Setup.effect_of_ne _ hplain] at hreset
  obtain ⟨t, ht, hbuilt⟩ := builtFor_of_reset hkind hreset x
  have hlast := Setup.rate_after (P := fun rate => 200 ≤ rate) (s := ⟨rate, none⟩) hrate huses
  have hfits (swing : ℝ) (hswing : |swing| ≤ 1) := hbuilt.asked_le hkind hlast hp ctx hswing
  have hswing := e.swing_within
  refine ⟨t, ht, hfits, hswing, ?_⟩
  have hleft : 1 ≤ t.left.maxDelay := hbuilt.left ▸ le_max_right _ _
  have hright : 1 ≤ t.right.maxDelay := hbuilt.right ▸ le_max_right _ _
  rw [process_frame ht, hkept, DelayLine.read_of_le hleft (hfits _ hswing.left).1,
    DelayLine.read_of_le hright (hfits _ hswing.right).2]

end runs

/-- The longest delay of a chorus with the deepest sweep, at the lowest rate it is moved to. -/
theorem delays_fit_deepest :
    let deepest : ParamValues ℝ := [5, 10, 30, 1]
    let uses : List (Use ℝ ℝ) :=
      [.process ⟨deepest, ⟨120⟩, [⟨1, -1⟩]⟩, .setRate 8000, .process ⟨deepest, ⟨0⟩, [⟨0.5, 1⟩]⟩]
    let e : Effect ℝ ℝ (Fin 256 → ℝ) := uses.foldl use (ofKind 384000 .chorus)
    EffectKind.chorus ∈ EffectKind.delaying ∧ (200 : ℝ) ≤ 384000 ∧
      (∀ later, .setRate later ∈ uses → (200 : ℝ) ≤ later) ∧ EffectKind.chorus.Allows deepest ∧
      ∃ t, e.tape ⟨1, 1⟩ = some t ∧
        EffectKind.chorus.asked t.rate deepest ⟨120⟩ 1 ≤ t.left.maxDelay ∧
        EffectKind.chorus.asked t.rate deepest ⟨120⟩ (-1) ≤ t.right.maxDelay := by
  intro deepest uses e
  have hkind : EffectKind.chorus ∈ EffectKind.delaying := by decide
  have hrate : (200 : ℝ) ≤ 384000 := by norm_num
  have huses : ∀ later, .setRate later ∈ uses → (200 : ℝ) ≤ later := by
    intro later hlater
    simp only [uses, List.mem_cons, List.not_mem_nil, reduceCtorEq, or_false, false_or,
      Use.setRate.injEq] at hlater
    rw [hlater]
    norm_num
  have hp : EffectKind.chorus.Allows deepest := by
    simp only [deepest, EffectKind.Allows, EffectKind.params, Chorus.params, List.forall₂_cons,
      Scalar.zero_real, Scalar.one_real, Scalar.decimal_real]
    norm_num
  obtain ⟨t, ht, hfits, -⟩ := delays_fit (γ := Fin 256 → ℝ) hkind hrate huses hp ⟨120⟩ ⟨1, 1⟩
  exact ⟨hkind, hrate, huses, hp, t, ht, (hfits 1 (by norm_num)).1, (hfits (-1) (by norm_num)).2⟩

end Effect

end Multisample
