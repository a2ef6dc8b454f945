import Mathlib.Tactic.Linarith
import Multisample.Proofs.Effects.ChainCalls
import Multisample.Proofs.Effects.Smoothing
import Multisample.Proofs.Numeric.Extended

/-!
# Parameters and their ranges

A target is clamped by two comparisons, and a value glides to it by a share of
the distance.  On numbers and infinities that keeps every parameter inside its
range, at every sample rate.  What is no number passes the two comparisons; a
parameter that glides has no way back from there.
-/

namespace Multisample

namespace Extended

/-! ## Shares of a distance -/

/-- A number from 0 to 1. -/
def IsShare (x : Extended) : Prop :=
  ∃ r : ℝ, x = number r ∧ 0 ≤ r ∧ r ≤ 1

theorem isShare_one : IsShare 1 :=
  ⟨1, by simp [numeral_eq], zero_le_one, le_refl 1⟩

theorem IsShare.mul {x y : Extended} (hx : x.IsShare) (hy : y.IsShare) : (x * y).IsShare := by
  obtain ⟨r, rfl, hr0, hr1⟩ := hx
  obtain ⟨s, rfl, hs0, hs1⟩ := hy
  exact ⟨r * s, number_mul r s, mul_nonneg hr0 hs0, mul_le_one₀ hr1 hs0 hs1⟩

theorem IsShare.npowGo {acc base : Extended} (hacc : acc.IsShare) (hbase : base.IsShare)
    (fuel n : ℕ) : (Scalar.npowGo fuel acc base n).IsShare := by
  induction fuel generalizing acc base n with
  | zero => exact hacc
  | succ fuel ih =>
      have hnext : (if n % 2 = 1 then acc * base else acc).IsShare := by
        split
        · exact hacc.mul hbase
        · exact hacc
      rw [Scalar.npowGo]
      split
      · exact hnext
      · exact ih hnext (hbase.mul hbase) _

theorem IsShare.npow {x : Extended} (hx : x.IsShare) (n : ℕ) : (Scalar.npow x n).IsShare :=
  isShare_one.npowGo hx _ n

end Extended

open Extended

/-- Whatever is given for a sample rate, a glide leaves a share of the distance. -/
theorem Smoother.isShare_poleFor (rate : Extended) : (poleFor rate).IsShare := by
  have hrate : Scalar.max rate 1 = infinite false ∨
      ∃ r : ℝ, Scalar.max rate 1 = number r ∧ 1 ≤ r := by
    have hone : (1 : Extended) = number 1 := by simp [numeral_eq]
    cases rate with
    | nan => exact .inr ⟨1, hone, le_refl 1⟩
    | infinite n =>
        cases n with
        | true => exact .inr ⟨1, hone, le_refl 1⟩
        | false => exact .inl rfl
    | number r =>
        refine .inr ⟨max r 1, ?_, le_max_right r 1⟩
        rcases lt_or_ge r 1 with h | h
        · simp [Scalar.max, hone, h, h.le]
        · simp [Scalar.max, hone, h, not_lt.mpr h]
  have hturn : (-2 * Elementary.pi * 5 : Extended) = number (-2 * Real.pi * 5) := by
    have hpi : (Elementary.pi : Extended) = number Real.pi := rfl
    simp [numeral_eq, hpi]
  rw [poleFor, hturn]
  rcases hrate with hrate | ⟨r, hrate, hr⟩
  · refine ⟨1, ?_, zero_le_one, le_refl 1⟩
    rw [hrate]
    show number (Real.exp 0) = number 1
    rw [Real.exp_zero]
  · refine ⟨Real.exp (-2 * Real.pi * 5 / r), ?_, (Real.exp_pos _).le, ?_⟩
    · rw [hrate, number_div _ (by linarith)]
      rfl
    · rw [Real.exp_le_one_iff]
      have hpi := Real.pi_pos
      exact div_nonpos_of_nonpos_of_nonneg (by linarith) (by linarith)

/-! ## Ranges -/

namespace ParamInfo

/-- A number that lies within the range of a parameter. -/
def Holds (p : ParamInfo Extended) (v : Extended) : Prop :=
  ∃ low r high : ℝ, p.low = number low ∧ v = number r ∧ p.high = number high ∧ low ≤ r ∧ r ≤ high

/-- A range of numbers that holds its default; of a discrete parameter, between whole numbers. -/
structure Sound (p : ParamInfo Extended) : Prop where
  default : p.Holds p.default
  whole : p.discrete = true → ∃ low high : ℤ, p.low = number low ∧ p.high = number high

theorem sound_iff {name unit : String} {low high default : ℝ} {discrete : Bool} :
    Sound ⟨name, unit, number low, number high, number default, discrete⟩ ↔
      low ≤ default ∧ default ≤ high ∧
        (discrete = true → (⌊low⌋ : ℝ) = low ∧ (⌊high⌋ : ℝ) = high) := by
  constructor
  · rintro ⟨⟨l, r, h, hl, hr, hh, hlow, hhigh⟩, hwhole⟩
    cases hl
    cases hr
    cases hh
    refine ⟨hlow, hhigh, fun hdiscrete => ?_⟩
    obtain ⟨l, h, hl, hh⟩ := hwhole hdiscrete
    cases hl
    cases hh
    exact ⟨by rw [Int.floor_intCast], by rw [Int.floor_intCast]⟩
  · rintro ⟨hlow, hhigh, hwhole⟩
    refine ⟨⟨low, default, high, rfl, rfl, rfl, hlow, hhigh⟩, fun hdiscrete => ?_⟩
    obtain ⟨hl, hh⟩ := hwhole hdiscrete
    exact ⟨⌊low⌋, ⌊high⌋, by rw [hl], by rw [hh]⟩

/-- Whatever is clamped comes into the range, unless it is no number. -/
theorem Sound.holds_clamp {p : ParamInfo Extended} (h : p.Sound) {v : Extended} (hv : v ≠ nan) :
    p.Holds (p.clamp v) := by
  obtain ⟨l, d, u, hl, -, hu, hld, hdu⟩ := h.default
  have hlu : l ≤ u := hld.trans hdu
  have hclamped : ∃ r : ℝ, Scalar.clamp v p.low p.high = number r ∧ l ≤ r ∧ r ≤ u := by
    rw [hl, hu]
    cases v with
    | nan => exact absurd rfl hv
    | infinite negative =>
        rw [clamp_infinite hlu]
        cases negative with
        | true => exact ⟨l, rfl, le_refl l, hlu⟩
        | false => exact ⟨u, rfl, hlu, le_refl u⟩
    | number x => exact ⟨_, clamp_number x l u, Scalar.clamp_mem_real hlu x⟩
  obtain ⟨r, hr, hlr, hru⟩ := hclamped
  rw [clamp, hr]
  by_cases hdiscrete : p.discrete = true
  · obtain ⟨m, n, hm, hn⟩ := h.whole hdiscrete
    obtain rfl : l = m := number.inj (hl.symm.trans hm)
    obtain rfl : u = n := number.inj (hu.symm.trans hn)
    obtain ⟨hmr, hrn⟩ := Scalar.round_mem_real hlr hru
    exact ⟨m, Scalar.round r, n, hl, by simp [hdiscrete, round_number], hu, hmr, hrn⟩
  · exact ⟨l, r, u, hl, by simp [hdiscrete], hu, hlr, hru⟩

theorem clamp_nan (p : ParamInfo Extended) : p.clamp nan = nan := by
  simp [clamp, round_nan]

theorem not_holds_nan (p : ParamInfo Extended) : ¬ p.Holds nan := by
  rintro ⟨_, _, _, _, hv, _⟩
  cases hv

end ParamInfo

theorem EffectKind.params_sound (kind : EffectKind) :
    ∀ info ∈ (params kind : List (ParamInfo Extended)), info.Sound := by
  cases kind <;>
    simp only [params, Distortion.params, Compressor.params, Filter.params, Equalizer.params,
      Chorus.params, Flanger.params, Phaser.params, Delay.params, Reverb.params,
      ConvolutionReverb.params, List.forall_mem_cons, List.not_mem_nil, numeral_eq, decimal_eq,
      neg_number, ParamInfo.sound_iff] <;>
    norm_num

/-! ## Glides -/

namespace Smoother

/-- A block takes a value some way to its target, which is to stay between the two. -/
theorem holds_advance {p : ParamInfo Extended} {s : Smoother Extended} (htarget : p.Holds s.target)
    (hcurrent : p.Holds s.current) (hpole : s.pole.IsShare) {frames : ℕ} (h : frames < 2 ^ 31) :
    p.Holds (s.advance frames).current := by
  obtain ⟨l, t, u, hl, ht, hu, hlt, htu⟩ := id htarget
  obtain ⟨l', c, u', hl', hc, hu', hlc, hcu⟩ := hcurrent
  obtain rfl : l = l' := number.inj (hl.symm.trans hl')
  obtain rfl : u = u' := number.inj (hu.symm.trans hu')
  obtain ⟨d, hd, hd0, hd1⟩ := hpole.npow frames
  have hpower : Scalar.zpow s.pole (exponent frames) = number d := by
    rw [exponent_of_lt h]
    exact hd
  have hmoved : s.target + (s.current - s.target) * Scalar.zpow s.pole (exponent frames) =
      number (t + (c - t) * d) := by
    rw [ht, hc, hpower, number_sub, number_mul, number_add]
  have hbetween : l ≤ t + (c - t) * d ∧ t + (c - t) * d ≤ u := by
    have hmix : t + (c - t) * d = t * (1 - d) + c * d := by ring
    rw [hmix]
    constructor <;> nlinarith
  unfold advance settle
  dsimp only
  split
  · exact htarget
  · exact ⟨l, _, u, hl, hmoved, hu, hbetween⟩

/-- From what is no number a glide leads nowhere, nor does one that leads there come back. -/
theorem advance_nan {s : Smoother Extended} (h : s.current = nan ∨ s.target = nan)
    (frames : ℕ) : (s.advance frames).current = nan := by
  have habs : Scalar.abs nan = nan := rfl
  rcases h with h | h <;> simp [advance, settle, h, habs]

end Smoother

/-! ## Parameters -/

namespace ParamState

/-- All that is kept of a parameter lies within its range. -/
structure Sound (p : ParamState Extended) : Prop where
  info : p.info.Sound
  target : p.info.Holds p.smoother.target
  current : p.info.Holds p.smoother.current
  value : p.info.Holds p.value
  pole : p.smoother.pole.IsShare

theorem sound_ofInfo (rate : Extended) {info : ParamInfo Extended} (h : info.Sound) :
    (ofInfo rate info).Sound where
  info := h
  target := h.default
  current := h.default
  value := h.default
  pole := Smoother.isShare_poleFor rate

theorem Sound.aim {p : ParamState Extended} (h : p.Sound) {v : Extended} (hv : v ≠ nan) :
    (p.aim v).Sound where
  info := h.info
  target := h.info.holds_clamp hv
  current := h.current
  value := h.value
  pole := h.pole

theorem Sound.setRate {p : ParamState Extended} (h : p.Sound) (rate : Extended) :
    (p.setRate rate).Sound where
  info := h.info
  target := h.target
  current := h.current
  value := h.value
  pole := Smoother.isShare_poleFor rate

theorem Sound.advance {p : ParamState Extended} (h : p.Sound) (frames : ℕ) :
    (p.advance frames).Sound := by
  have hframes : min frames maxBlock < 2 ^ 31 := (min_le_right _ _).trans_lt (by decide)
  have hcurrent := Smoother.holds_advance h.target h.current h.pole hframes
  unfold ParamState.advance
  split
  · exact ⟨h.info, h.target, h.current, h.target, h.pole⟩
  · refine ⟨h.info, ?_, hcurrent, hcurrent, ?_⟩
    · show p.info.Holds (p.smoother.advance (min frames maxBlock)).target
      rw [Smoother.target_advance]
      exact h.target
    · show (p.smoother.advance (min frames maxBlock)).pole.IsShare
      rw [Smoother.pole_advance]
      exact h.pole

/-- A gliding parameter from which the effect was given what is no number. -/
structure Stuck (p : ParamState Extended) : Prop where
  glides : p.info.discrete = false
  current : p.smoother.current = nan
  value : p.value = nan

theorem stuck_advance {p : ParamState Extended} (hglides : p.info.discrete = false)
    (h : p.smoother.current = nan ∨ p.smoother.target = nan) (frames : ℕ) :
    (p.advance frames).Stuck := by
  have hcurrent := Smoother.advance_nan h (min frames maxBlock)
  rw [ParamState.advance, if_neg (by simp [hglides])]
  exact ⟨hglides, hcurrent, hcurrent⟩

theorem Stuck.advance {p : ParamState Extended} (h : p.Stuck) (frames : ℕ) :
    (p.advance frames).Stuck :=
  stuck_advance h.glides (.inl h.current) frames

section calls

variable {σ π γ : Type} [Elementary σ]

/-- What a call to the chain makes of a parameter of one of its slots. -/
def after (kind : EffectKind) (index : ℕ) (rests : Bool) (p : ParamState σ) :
    EffectChain.Call σ π γ → ParamState σ
  | .process _ block => if rests then p else p.advance block.length
  | .param kind' index' value => if kind' = kind ∧ index' = index then p.aim value else p
  | .rate sampleRate => p.setRate sampleRate
  | _ => p

/-- The effect was given the value that a gliding parameter has come to. -/
def Heard (p : ParamState σ) : Prop :=
  p.info.discrete = false → p.value = p.smoother.current

variable {kind : EffectKind} {index : ℕ} {rests : Bool}

/-- A call leaves a parameter alone, takes it one block on, aims it or changes its rate. -/
theorem after_cases {P : ParamState σ → Prop} {p : ParamState σ}
    (call : EffectChain.Call σ π γ) (hsame : P p) (hadvance : ∀ frames, P (p.advance frames))
    (haim : ∀ value, call = .param kind index value → P (p.aim value))
    (hrate : ∀ rate, P (p.setRate rate)) : P (p.after kind index rests call) := by
  cases call with
  | process ctx block =>
      cases rests with
      | true => exact hsame
      | false => exact hadvance block.length
  | param other place value =>
      by_cases hhere : other = kind ∧ place = index
      · obtain ⟨rfl, rfl⟩ := hhere
        simpa [after] using haim value rfl
      · simpa [after, hhere] using hsame
  | rate sampleRate => exact hrate sampleRate
  | _ => exact hsame

theorem info_after (p : ParamState σ) (call : EffectChain.Call σ π γ) :
    (p.after kind index rests call).info = p.info := by
  refine after_cases (P := fun later => later.info = p.info) call rfl ?_ (fun _ _ => rfl)
    fun _ => rfl
  intro frames
  unfold advance
  split <;> rfl

theorem heard_advance (p : ParamState σ) (frames : ℕ) : (p.advance frames).Heard := by
  rw [advance]
  by_cases hdiscrete : p.info.discrete = true
  · rw [if_pos hdiscrete]
    intro hglides
    exact absurd (hdiscrete.symm.trans hglides) (by decide)
  · rw [if_neg hdiscrete]
    exact fun _ => rfl

theorem Heard.after {p : ParamState σ} (h : p.Heard) (call : EffectChain.Call σ π γ) :
    (p.after kind index rests call).Heard :=
  after_cases call h p.heard_advance (fun _ _ => h) fun _ => h

theorem Sound.after {p : ParamState Extended} (h : p.Sound) {call : EffectChain.Call Extended π γ}
    (hcall : call ≠ .param kind index nan) : (p.after kind index rests call).Sound :=
  after_cases call h h.advance (fun _ heq => h.aim fun hvalue => hcall (hvalue ▸ heq)) h.setRate

theorem Stuck.after {p : ParamState Extended} (h : p.Stuck)
    (call : EffectChain.Call Extended π γ) : (p.after kind index rests call).Stuck :=
  after_cases call h h.advance (fun _ _ => ⟨h.glides, h.current, h.value⟩)
    fun _ => ⟨h.glides, h.current, h.value⟩

end calls

end ParamState

namespace ChainSlot

variable {σ π γ : Type} [Elementary σ] [Elementary π] [Precision σ π] [Transform σ γ]

theorem params_process (step : σ) (ctx : BlockContext π) (s : ChainSlot σ π γ)
    (block : List (Frame σ)) : (s.process step ctx block).1.params =
      if s.rests then s.params else s.params.map (ParamState.advance block.length) := by
  unfold process
  split
  · rfl
  · dsimp only
    split <;> rfl

end ChainSlot

namespace EffectChain

section calls

variable {σ π γ : Type} [Elementary σ] [Elementary π] [Precision σ π] [Transform σ γ]

omit [Precision σ π] [Transform σ γ] in
theorem params_ofRate (rate : σ) (kind : EffectKind) :
    ((ofRate rate : EffectChain σ π γ).slot kind).params =
      (EffectKind.params kind).map (ParamState.ofInfo rate) := by
  cases kind <;> rfl

/-- Every call acts on each parameter by itself. -/
theorem param_perform (c : EffectChain σ π γ) (call : Call σ π γ) (kind : EffectKind) (index : ℕ) :
    ((c.perform call).slot kind).params[index]? =
      (c.slot kind).params[index]?.map fun p => p.after kind index (c.slot kind).rests call := by
  cases call with
  | process ctx block =>
      obtain ⟨input, hlength, hslot⟩ := slot_process ctx c block kind
      rw [perform, hslot, ChainSlot.params_process, hlength]
      cases hrests : (c.slot kind).rests <;> simp [ParamState.after]
  | enable other on =>
      have hparams : ((c.perform (.enable other on)).slot kind).params = (c.slot kind).params := by
        rw [perform, setEnabled, slot_modifySlot]
        split <;> rfl
      rw [hparams]
      simp [ParamState.after]
  | param other place value =>
      by_cases hplace : place < (c.slot other).params.length
      · have hslot : (c.perform (.param other place value)).slot kind = if other = kind then
            { c.slot kind with params := (c.slot kind).params.modify place fun p => p.aim value }
            else c.slot kind := by
          simp [perform, setParam, hplace, Except.toOption, slot_modifySlot]
        rw [hslot]
        by_cases hkind : other = kind
        · rw [if_pos hkind, List.getElem?_modify]
          by_cases hindex : place = index <;> simp [ParamState.after, hkind, hindex]
        · rw [if_neg hkind]
          simp [ParamState.after, hkind]
      · -- A refused call: there is no parameter at that place.
        have hsame : c.perform (.param other place value) = c := by
          rw [perform, setParam, if_neg hplace]
          rfl
        rw [hsame]
        by_cases hhere : other = kind ∧ place = index
        · obtain ⟨rfl, rfl⟩ := hhere
          rw [List.getElem?_eq_none (not_lt.mp hplace)]
          rfl
        · simp [ParamState.after, hhere]
  | order kinds =>
      have hslot : (c.perform (.order kinds)).slot kind = c.slot kind := by
        rw [perform, setOrder]
        split <;> rfl
      rw [hslot]
      simp [ParamState.after]
  | rate sampleRate =>
      rw [perform, setRate, slot_map]
      simp [ChainSlot.setRate, ParamState.after]
  | reset =>
      rw [perform, reset, slot_map]
      simp [ParamState.after]
  | convolver next =>
      have hparams : ((c.perform (.convolver next)).slot kind).params = (c.slot kind).params := by
        rw [perform, swapConvolver, slot_modifySlot]
        split <;> rfl
      rw [hparams]
      simp [ParamState.after]

/-- What all calls keep of a parameter, a run keeps. -/
theorem param_run {kind : EffectKind} {index : ℕ} {P : ParamState σ → Prop}
    {calls : List (Call σ π γ)}
    (hafter : ∀ call ∈ calls, ∀ p rests, P p → P (p.after kind index rests call))
    {c : EffectChain σ π γ} (h : ∃ p, (c.slot kind).params[index]? = some p ∧ P p) :
    ∃ p, ((c.run calls).slot kind).params[index]? = some p ∧ P p := by
  induction calls generalizing c with
  | nil => exact h
  | cons call rest ih =>
      obtain ⟨p, hp, hkept⟩ := h
      refine ih (fun other hother => hafter other (List.mem_cons_of_mem call hother)) ?_
      refine ⟨p.after kind index (c.slot kind).rests call, ?_,
        hafter call List.mem_cons_self p _ hkept⟩
      rw [param_perform, hp]
      rfl

end calls

variable {π γ : Type} [Elementary π] [Precision Extended π] [Transform Extended γ]

/-- The target of a parameter and the value that the effect was given for its last
block are numbers within the range of the parameter. -/
def InRange (c : EffectChain Extended π γ) (kind : EffectKind) (index : ℕ) : Prop :=
  ∀ info, (EffectKind.params kind)[index]? = some info → ∃ p,
    (c.slot kind).params[index]? = some p ∧ info.Holds p.smoother.target ∧ info.Holds p.value

variable {kind : EffectKind} {index : ℕ}

theorem sound_run (rate : Extended) {calls : List (Call Extended π γ)}
    (hcalls : .param kind index nan ∉ calls) {info : ParamInfo Extended}
    (hinfo : (EffectKind.params kind)[index]? = some info) :
    ∃ p, (((ofRate rate).run calls).slot kind).params[index]? = some p ∧
      p.info = info ∧ p.Sound := by
  refine param_run (fun call hcall p rests hp => ?_) ⟨ParamState.ofInfo rate info, ?_, rfl, ?_⟩
  · have hother : call ≠ .param kind index nan := fun heq => hcalls (heq ▸ hcall)
    exact ⟨(p.info_after call).trans hp.1, hp.2.after hother⟩
  · rw [params_ofRate, List.getElem?_map, hinfo]
    rfl
  · exact ParamState.sound_ofInfo rate (kind.params_sound info (List.mem_of_getElem? hinfo))

theorem inRange_run (rate : Extended) {calls : List (Call Extended π γ)}
    (hcalls : .param kind index nan ∉ calls) : ((ofRate rate).run calls).InRange kind index := by
  intro info hinfo
  obtain ⟨p, hp, rfl, hsound⟩ := sound_run rate hcalls hinfo
  exact ⟨p, hp, hsound.target, hsound.value⟩

/-- Where what is no number is set, it becomes the target. -/
theorem not_inRange_param (c : EffectChain Extended π γ)
    (hindex : index < (EffectKind.params (σ := Extended) kind).length) :
    ¬ (c.perform (.param kind index nan)).InRange kind index := by
  intro h
  obtain ⟨p, hp, htarget, -⟩ := h _ (List.getElem?_eq_getElem hindex)
  rw [param_perform, Option.map_eq_some_iff] at hp
  obtain ⟨before, -, rfl⟩ := hp
  simp only [ParamState.after, and_self, if_true, ParamState.aim, Smoother.setTarget,
    ParamInfo.clamp_nan] at htarget
  exact ParamInfo.not_holds_nan _ htarget

/-- A parameter is in its range all along a run unless what is no number is set for it. -/
theorem inRange_always_iff (rate : Extended) (calls : List (Call Extended π γ)) :
    (∀ n, ((ofRate rate).run (calls.take n)).InRange kind index) ↔
      ¬ (index < (EffectKind.params (σ := Extended) kind).length ∧
        .param kind index nan ∈ calls) := by
  constructor
  · rintro h ⟨hindex, hset⟩
    obtain ⟨first, rest, rfl⟩ := List.append_of_mem hset
    have hupTo : (first ++ .param kind index nan :: rest).take (first.length + 1) =
        first ++ [.param kind index nan] := by
      rw [List.take_length_add_append]
      rfl
    have hlast := h (first.length + 1)
    rw [hupTo, run, List.foldl_concat] at hlast
    exact not_inRange_param _ hindex hlast
  · intro h n info hinfo
    have hindex := (List.getElem?_eq_some_iff.mp hinfo).1
    exact inRange_run rate (fun hmem => h ⟨hindex, List.mem_of_mem_take hmem⟩) info hinfo

theorem value_of_stuck {c : EffectChain Extended π γ}
    (h : ∃ p, (c.slot kind).params[index]? = some p ∧ p.Stuck) (calls : List (Call Extended π γ)) :
    (c.run calls).paramValue? kind index = some nan := by
  obtain ⟨p, hp, hstuck⟩ : ∃ p,
      ((c.run calls).slot kind).params[index]? = some p ∧ p.Stuck :=
    param_run (fun call _ _ _ hp => hp.after call) h
  rw [paramValue?, hp]
  exact congrArg some hstuck.value

/-- What is no number stays where it is, once an effect was given it for a gliding parameter. -/
theorem value_nan_run (rate : Extended) (calls more : List (Call Extended π γ))
    {info : ParamInfo Extended} (hinfo : (EffectKind.params kind)[index]? = some info)
    (hglides : info.discrete = false)
    (hvalue : ((ofRate rate).run calls).paramValue? kind index = some nan) :
    ((ofRate rate).run (calls ++ more)).paramValue? kind index = some nan := by
  obtain ⟨p, hp, hpinfo, hheard⟩ : ∃ p,
      (((ofRate rate).run calls).slot kind).params[index]? = some p ∧ p.info = info ∧ p.Heard := by
    refine param_run (fun call _ p _ hp => ⟨(p.info_after call).trans hp.1, hp.2.after call⟩)
      ⟨ParamState.ofInfo rate info, ?_, rfl, fun _ => rfl⟩
    rw [params_ofRate, List.getElem?_map, hinfo]
    rfl
  have hpglides : p.info.discrete = false := hpinfo ▸ hglides
  rw [paramValue?, hp] at hvalue
  have hpvalue : p.value = nan := Option.some.inj hvalue
  have hstuck : p.Stuck := ⟨hpglides, (hheard hpglides).symm.trans hpvalue, hpvalue⟩
  rw [run, List.foldl_append]
  exact value_of_stuck ⟨p, hp, hstuck⟩ more

end EffectChain

end Multisample
