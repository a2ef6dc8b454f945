import Mathlib.Data.Real.Basic
import Multisample.Proofs.Engine.Calls
import Multisample.Proofs.Numeric.Exact

/-!
# The master gain

A block moves the master gain from where the block before left it to its target,
and gets there with its last frame.  A block without frames applies no gain, and
still leaves its target behind for the next one.  So the gains of a run follow on
each other without a jump exactly if what an empty block leaves behind is what the
last frame had.
-/

namespace Multisample

/-! ## Ramps -/

theorem ramp_eq (start target : ℝ) (frames : ℕ) : ramp start target frames =
    (List.range frames).map fun k : ℕ =>
      start + ((k : ℝ) + 1) * ((target - start) / (max frames 1 : ℕ)) := by
  unfold ramp
  rw [Scalar.ofNat_real]
  generalize (target - start) / (max frames 1 : ℕ) = step
  induction frames generalizing start with
  | zero => rfl
  | succ frames ih =>
      rw [rampFrom, ih, List.range_succ_eq_map, List.map_cons, List.map_map]
      refine congrArg₂ List.cons (by simp) (List.map_congr_left fun k _ => ?_)
      simp only [Function.comp_apply]
      push_cast
      ring

theorem ramp_head? (start target : ℝ) {frames : ℕ} (h : 0 < frames) :
    (ramp start target frames).head? = some (start + (target - start) / frames) := by
  obtain ⟨frames, rfl⟩ := Nat.exists_eq_add_one_of_ne_zero h.ne'
  rw [ramp_eq, List.range_succ_eq_map, List.map_cons, List.head?_cons]
  simp

theorem ramp_getLast? (start target : ℝ) {frames : ℕ} (h : 0 < frames) :
    (ramp start target frames).getLast? = some target := by
  obtain ⟨frames, rfl⟩ := Nat.exists_eq_add_one_of_ne_zero h.ne'
  rw [ramp_eq, List.range_succ, List.map_append, List.map_singleton, List.getLast?_concat]
  have hne : ((frames : ℝ) + 1) ≠ 0 := by positivity
  simp [mul_div_cancel₀ _ hne]

namespace Engine

/-! ## Gains of blocks -/

section gains

variable {σ π γ : Type} [Elementary σ] [Elementary π] [Precision σ π] [Transform σ γ]

/-- The gain that a block moves to. -/
def masterTarget (e : Engine σ π γ) : σ :=
  gainOfDecibels e.mix.masterDecibels

/-- The gains that the frames of a block get. -/
def masterGains (e : Engine σ π γ) (b : BlockRequest π) : List σ :=
  ramp e.masterGain e.masterTarget b.frames

/-- The frames of a block as the effects leave them. -/
def effected (e : Engine σ π γ) (b : BlockRequest π) : List (Frame σ) :=
  let (e, mix) := (e.midBlock b.midi).renderLayers b.frames
  (e.chain.process ⟨b.tempo⟩ mix).2

/-- The gains that a call applies to frames. -/
def gainsOf (e : Engine σ π γ) : Call σ π → List σ
  | .process b => if (e.refusal? b).isNone then e.masterGains b else []
  | _ => []

omit [Elementary π] [Precision σ π] [Transform σ γ] in
theorem gainsOf_request (e : Engine σ π γ) (r : Request σ) : e.gainsOf (.request r) = [] := rfl

/-- The gains of all frames that are rendered along a run. -/
def gainsAlong (e : Engine σ π γ) : List (Call σ π) → List σ
  | [] => []
  | call :: rest => e.gainsOf call ++ (e.perform call).gainsAlong rest

/-- The gain of the last frame that a run has rendered; before the first one it is 1. -/
def lastGain (e : Engine σ π γ) (calls : List (Call σ π)) : σ :=
  (e.gainsAlong calls).getLastD 1

theorem gainsAlong_append (e : Engine σ π γ) (calls more : List (Call σ π)) :
    e.gainsAlong (calls ++ more) = e.gainsAlong calls ++ (e.run calls).gainsAlong more := by
  induction calls generalizing e with
  | nil => rfl
  | cons call rest ih =>
      rw [List.cons_append, gainsAlong, gainsAlong, ih, List.append_assoc]
      rfl

theorem masterTarget_midBlock (e : Engine σ π γ) (events : List MidiEvent) :
    (e.midBlock events).masterGain = e.masterGain ∧
      (e.midBlock events).masterTarget = e.masterTarget := by
  rw [midBlock_eq, applyControls_eq]
  exact ⟨rfl, rfl⟩

omit [Transform σ γ] in
theorem renderLayers_length (e : Engine σ π γ) (frames : ℕ) :
    (e.renderLayers frames).2.length = frames := by
  have key : ∀ (layers : List (Layer σ)) (state : VoicePool σ π × List (Frame σ)),
      (runOver (fun (state : VoicePool σ π × List (Frame σ)) (l : Layer σ) =>
        (((l.render e.sampleRate state.1 state.2).2.1,
          (l.render e.sampleRate state.1 state.2).2.2),
          (l.render e.sampleRate state.1 state.2).1)) state layers).1.2.length =
        state.2.length := by
    intro layers
    induction layers with
    | nil => exact fun _ => rfl
    | cons l rest ih => exact fun state => (ih _).trans (l.render_eq _ _ _).2.2
  exact (key e.layers _).trans List.length_replicate

theorem effected_length (e : Engine σ π γ) (b : BlockRequest π) :
    (e.effected b).length = b.frames :=
  (EffectChain.process_length _ _ _).trans (renderLayers_length _ _)

/-- A block puts out what the effects leave, each frame at its gain. -/
theorem process_eq {e : Engine σ π γ} {b : BlockRequest π} (h : (e.refusal? b).isNone) :
    e.process b = .ok (e.perform (.process b),
      List.zipWith Frame.scale (e.effected b) (e.masterGains b)) := by
  have hout : ((e.midBlock b.midi).finish b).2 =
      List.zipWith Frame.scale (e.effected b) (e.masterGains b) := by
    obtain ⟨hgain, htarget⟩ := e.masterTarget_midBlock b.midi
    have hlength := e.effected_length b
    have hrender := (e.midBlock b.midi).renderLayers_eq b.frames
    unfold effected at hlength ⊢
    unfold finish applyMaster masterGains
    rw [← hgain, ← htarget]
    generalize (e.midBlock b.midi).renderLayers b.frames = rendered at hlength hrender ⊢
    obtain ⟨after, mix⟩ := rendered
    dsimp only at hlength hrender ⊢
    rw [hlength, hrender]
    rfl
  rw [perform_process, if_pos h, ← hout, process]
  cases hrefusal : e.refusal? b with
  | none => rfl
  | some error => simp [hrefusal] at h

theorem master_block {e : Engine σ π γ} {b : BlockRequest π} (h : (e.refusal? b).isNone) :
    (e.perform (.process b)).masterGain = e.masterTarget ∧
      (e.perform (.process b)).blocks = e.blocks + 1 := by
  rw [perform_process, if_pos h, finish_eq]
  refine ⟨(e.masterTarget_midBlock b.midi).2, ?_⟩
  rw [midBlock_eq, applyControls_eq]

/-- What the player and the host have set is the same after a block. -/
theorem settings_block (e : Engine σ π γ) (b : BlockRequest π) :
    (e.perform (.process b)).mix = e.mix ∧
      (e.perform (.process b)).sampleRate = e.sampleRate := by
  rw [perform_process]
  split
  · rw [finish_eq, midBlock_eq, applyControls_eq]
    exact ⟨rfl, rfl⟩
  · exact ⟨rfl, rfl⟩

/-- Only a block that is rendered moves the gain, and it moves it to its target. -/
theorem master_cases (e : Engine σ π γ) (call : Call σ π) :
    (∃ b, call = .process b ∧ (e.refusal? b).isNone ∧ e.gainsOf call = e.masterGains b ∧
      (e.perform call).masterGain = e.masterTarget ∧ (e.perform call).blocks = e.blocks + 1) ∨
    (e.gainsOf call = [] ∧ (e.perform call).masterGain = e.masterGain ∧
      (e.perform call).blocks = e.blocks) := by
  cases call with
  | process b =>
      rw [gainsOf]
      split
      · rename_i h
        exact Or.inl ⟨b, rfl, h, rfl, master_block h⟩
      · rename_i h
        rw [perform_process, if_neg h]
        exact Or.inr ⟨rfl, rfl, rfl⟩
  | rate sampleRate =>
      refine Or.inr ⟨rfl, ?_⟩
      rw [perform]
      by_cases h : sampleRate = e.sampleRate
      · rw [setRate, if_pos h]
        exact ⟨rfl, rfl⟩
      · rw [setRate_eq e h]
        exact ⟨rfl, rfl⟩
  | collect => exact Or.inr ⟨rfl, rfl, rfl⟩
  | request r =>
      obtain ⟨layers, mix, waiting, nextConvolver, h, -⟩ := e.request_eq r
      rw [perform, h]
      exact Or.inr ⟨rfl, rfl, rfl⟩

/-- While no block is rendered no gain is applied, and none is moved. -/
theorem quiet_run (e : Engine σ π γ) (calls : List (Call σ π)) :
    e.blocks ≤ (e.run calls).blocks ∧ ((e.run calls).blocks = e.blocks →
      e.gainsAlong calls = [] ∧ (e.run calls).masterGain = e.masterGain) := by
  induction calls generalizing e with
  | nil => exact ⟨Nat.le_refl _, fun _ => ⟨rfl, rfl⟩⟩
  | cons call rest ih =>
      obtain ⟨hblocks, hquiet⟩ := ih (e.perform call)
      rw [run, List.foldl_cons, ← run, gainsAlong]
      rcases e.master_cases call with ⟨b, -, -, -, -, hcount⟩ | ⟨hgains, hgain, hcount⟩
      · exact ⟨by omega, fun h => absurd h (by omega)⟩
      · rw [hcount] at hblocks hquiet
        rw [hgains, ← hgain]
        exact ⟨hblocks, hquiet⟩

end gains

/-! ## Gains along a run -/

section runs

variable {π γ : Type} [Elementary π] [Precision ℝ π] [Transform ℝ γ]

/-- A block moves on from a gain: its first frame is one of its steps further, and
its last frame is at the target. -/
structure MovesFrom (e : Engine ℝ π γ) (b : BlockRequest π) (last : ℝ) : Prop where
  first : (e.masterGains b).head? = some (last + (e.masterTarget - last) / b.frames)
  final : (e.masterGains b).getLast? = some e.masterTarget

/-- A block without frames was rendered, and no other one in the calls after it. -/
structure PassesEmpty (e : Engine ℝ π γ) (b : BlockRequest π) (after : List (Call ℝ π)) : Prop where
  accepted : (e.refusal? b).isNone
  empty : b.frames = 0
  alone : (e.run (.process b :: after)).blocks = e.blocks + 1

omit [Elementary π] [Precision ℝ π] [Transform ℝ γ] in
/-- A block moves on from where the gain is; from elsewhere only if it has one frame. -/
theorem movesFrom_iff (e : Engine ℝ π γ) {b : BlockRequest π} (h : 0 < b.frames) (last : ℝ) :
    e.MovesFrom b last ↔ b.frames = 1 ∨ e.masterGain = last := by
  have hfirst : e.MovesFrom b last ↔
      e.masterGain + (e.masterTarget - e.masterGain) / b.frames =
        last + (e.masterTarget - last) / b.frames := by
    constructor
    · intro hmoves
      exact Option.some.inj ((ramp_head? _ _ h).symm.trans hmoves.first)
    · intro heq
      exact ⟨(ramp_head? _ _ h).trans (congrArg some heq), ramp_getLast? _ _ h⟩
  have hframes : (b.frames : ℝ) ≠ 0 := Nat.cast_ne_zero.mpr h.ne'
  have hone : (b.frames : ℝ) = 1 ↔ b.frames = 1 := Nat.cast_eq_one
  rw [hfirst, ← hone, ← sub_eq_zero (a := (b.frames : ℝ)), ← sub_eq_zero (a := e.masterGain),
    ← mul_eq_zero]
  field_simp
  constructor <;> intro heq <;> linarith

theorem passesEmpty_nil {e : Engine ℝ π γ} {b : BlockRequest π} (haccepted : (e.refusal? b).isNone)
    (hempty : b.frames = 0) : e.PassesEmpty b [] :=
  ⟨haccepted, hempty, (master_block haccepted).2⟩

/-- An empty block leaves its target behind and no gain. -/
theorem PassesEmpty.leaves {e : Engine ℝ π γ} {b : BlockRequest π} {after : List (Call ℝ π)}
    (h : e.PassesEmpty b after) : e.gainsAlong (.process b :: after) = [] ∧
      (e.run (.process b :: after)).masterGain = e.masterTarget := by
  have halone := h.alone
  rw [run, List.foldl_cons, ← run] at halone ⊢
  obtain ⟨hgain, hcount⟩ := master_block h.accepted
  obtain ⟨hquiet, hkept⟩ :=
    ((e.perform (.process b)).quiet_run after).2 (halone.trans hcount.symm)
  rw [gainsAlong, hquiet, hkept, hgain, gainsOf, if_pos h.accepted, masterGains, h.empty]
  exact ⟨rfl, rfl⟩

/-- A block after an empty one stays at the target that the empty one has left. -/
theorem gains_after_empty {e : Engine ℝ π γ} {empty : BlockRequest π}
    (haccepted : (e.refusal? empty).isNone) (b : BlockRequest π) :
    (e.perform (.process empty)).masterGain = e.masterTarget ∧
      (e.perform (.process empty)).masterTarget = e.masterTarget ∧
      (e.perform (.process empty)).masterGains b = List.replicate b.frames e.masterTarget := by
  obtain ⟨hgain, -⟩ := master_block haccepted
  have htarget : (e.perform (.process empty)).masterTarget = e.masterTarget := by
    rw [masterTarget, (e.settings_block empty).1, masterTarget]
  refine ⟨hgain, htarget, ?_⟩
  rw [masterGains, hgain, htarget, ramp_eq, List.eq_replicate_iff]
  simp

/-- The gain stands where the last frame had it, unless an empty block was the last
one since then. -/
theorem masterGain_run {start : Engine ℝ π γ} (hstart : start.masterGain = start.lastGain [])
    (calls : List (Call ℝ π)) : (start.run calls).masterGain = start.lastGain calls ∨
      ∃ before empty between, calls = before ++ .process empty :: between ∧
        (start.run before).PassesEmpty empty between := by
  induction calls using List.reverseRecOn with
  | nil => exact Or.inl hstart
  | append_singleton calls call ih =>
      have hgains : start.gainsAlong (calls ++ [call]) =
          start.gainsAlong calls ++ (start.run calls).gainsOf call := by
        rw [gainsAlong_append, gainsAlong, gainsAlong, List.append_nil]
      rw [run_concat, lastGain, hgains]
      rcases (start.run calls).master_cases call with ⟨b, rfl, haccepted, hb, hgain, hcount⟩ |
        ⟨hnone, hgain, hcount⟩
      · rcases Nat.eq_zero_or_pos b.frames with hempty | hframes
        · exact Or.inr ⟨calls, b, [], rfl, passesEmpty_nil haccepted hempty⟩
        · have hlast := ramp_getLast? (start.run calls).masterGain (start.run calls).masterTarget
            hframes
          rw [hb, hgain, List.getLastD_eq_getLast?, List.getLast?_append, masterGains, hlast]
          exact Or.inl rfl
      · rw [hnone, List.append_nil, hgain]
        refine ih.imp_right ?_
        rintro ⟨before, empty, between, rfl, hpasses⟩
        refine ⟨before, empty, between ++ [call], by simp, hpasses.accepted, hpasses.empty, ?_⟩
        rw [← List.cons_append, run_concat, ← hpasses.alone, ← run_append]
        exact hcount

/-- Each block of a run puts out what the effects leave at gains that end with its
target.  They begin one step from the gain of the frame before, in every block of the
run, exactly if no empty block leaves another gain behind for a block of more than one
frame. -/
theorem master_gain_joins_iff (s : EngineSetup) (calls : List (Call ℝ π)) :
    let start : Engine ℝ π γ := create s
    (∀ before b after, calls = before ++ .process b :: after →
        let e := start.run before
        (e.refusal? b).isNone →
        e.process b = .ok (e.perform (.process b),
            List.zipWith Frame.scale (e.effected b) (e.masterGains b)) ∧
          (e.effected b).length = b.frames ∧ (e.masterGains b).length = b.frames ∧
          (0 < b.frames → (e.masterGains b).getLast? = some e.masterTarget)) ∧
      ((∀ before b after, calls = before ++ .process b :: after →
          let e := start.run before
          (e.refusal? b).isNone → 0 < b.frames → e.MovesFrom b (start.lastGain before)) ↔
        ∀ before empty between b after,
          calls = before ++ .process empty :: (between ++ .process b :: after) →
          let found := start.run before
          let e := found.run (.process empty :: between)
          found.PassesEmpty empty between → (e.refusal? b).isNone → 1 < b.frames →
            found.masterTarget = start.lastGain before) := by
  intro start
  have hleaves : ∀ before empty between, (start.run before).PassesEmpty empty between →
      (start.run (before ++ .process empty :: between)).masterGain =
          (start.run before).masterTarget ∧
        start.lastGain (before ++ .process empty :: between) = start.lastGain before := by
    intro before empty between hpasses
    obtain ⟨hgains, hgain⟩ := hpasses.leaves
    rw [run_append, lastGain, gainsAlong_append, hgains, List.append_nil]
    exact ⟨hgain, rfl⟩
  refine ⟨?_, ?_, ?_⟩
  · intro before b after _ e haccepted
    refine ⟨process_eq haccepted, e.effected_length b, ?_, ramp_getLast? _ _⟩
    rw [masterGains, ramp_eq, List.length_map, List.length_range]
  · intro hmoves before empty between b after heq found e hpasses haccepted hframes
    obtain ⟨hgain, hlast⟩ := hleaves before empty between hpasses
    have hrun : start.run (before ++ .process empty :: between) = e := run_append ..
    have hb := hmoves (before ++ .process empty :: between) b after (by simp [heq])
      (hrun ▸ haccepted) (by omega)
    rcases (movesFrom_iff _ (by omega) _).mp hb with hone | hjoins
    · omega
    · rw [← hlast, ← hjoins, hgain]
  · intro hjoins before b after heq e haccepted hframes
    rw [movesFrom_iff e hframes]
    have hstart : start.masterGain = start.lastGain [] := rfl
    rcases masterGain_run hstart before with h | ⟨first, empty, between, rfl, hpasses⟩
    · exact Or.inr h
    · obtain ⟨hgain, hlast⟩ := hleaves first empty between hpasses
      refine or_iff_not_imp_left.mpr fun hone => ?_
      have hrun : e = (start.run first).run (.process empty :: between) := run_append ..
      rw [hlast, ← hjoins first empty between b after (by simp [heq]) hpasses (hrun ▸ haccepted)
        (by omega)]
      exact hgain

end runs

/-- The gain is 1 at the start, the player turns it down altogether, and a block
without frames is enough to get it there: the two frames after it are silent. -/
theorem empty_block_jumps :
    let start : Engine ℝ ℝ (Fin 256 → ℝ) := create ⟨1000, 1, ⟨0⟩, ⟨0⟩, 1⟩
    let quiet := start.perform (.request (.master (-96)))
    let empty : BlockRequest ℝ := ⟨0, 1000, 120, [], 0⟩
    let e := quiet.perform (.process empty)
    let b : BlockRequest ℝ := ⟨2, 1000, 120, [], 4⟩
    let last := start.lastGain [.request (.master (-96)), .process empty]
    (quiet.refusal? empty).isNone ∧ (e.refusal? b).isNone ∧
      last = 1 ∧ e.masterTarget = 0 ∧ e.masterGains b = [0, 0] ∧ ¬ e.MovesFrom b last := by
  intro start quiet empty e b last
  have haccepted : (quiet.refusal? empty).isNone := by decide
  have haccepted' : (e.refusal? b).isNone := by
    have hfits : ∀ other : Engine ℝ ℝ (Fin 256 → ℝ), other.sampleRate = 1000 →
        (other.refusal? b).isNone := by
      intro other hrate
      simp [refusal?, b, hrate, maxBlock]
    exact hfits e ((quiet.settings_block empty).2.trans rfl)
  have htarget : quiet.masterTarget = 0 := by
    have hclamp : Scalar.clamp (-96 : ℝ) (-96) 12 = -96 := by
      norm_num [Scalar.clamp]
    have hdecibels : quiet.mix.masterDecibels = -96 := hclamp
    simp [masterTarget, hdecibels, gainOfDecibels]
  have hlast : last = 1 := by
    have hnone : start.gainsAlong [.request (.master (-96)), .process empty] = [] := by
      rw [gainsAlong, gainsOf_request, List.nil_append]
      exact (passesEmpty_nil haccepted rfl).leaves.1
    have hone : ([] : List ℝ).getLastD (Scalar.ofNat 1) = 1 := Scalar.one_real
    exact (congrArg (fun gains => gains.getLastD (Scalar.ofNat 1)) hnone).trans hone
  obtain ⟨hgain, hsame, hgains⟩ := gains_after_empty haccepted b
  rw [htarget] at hgain hsame hgains
  refine ⟨haccepted, haccepted', hlast, hsame, hgains, fun hmoves => ?_⟩
  rcases (movesFrom_iff e Nat.two_pos last).mp hmoves with hone | hjoins
  · exact absurd hone (by decide)
  · exact zero_ne_one (hgain.symm.trans (hjoins.trans hlast))

end Engine

end Multisample
