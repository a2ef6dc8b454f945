import Mathlib.Tactic.Linarith
import Multisample.Proofs.Effects.ChainCalls
import Multisample.Proofs.Numeric.Exact

/-!
# Fading effects in and out

A slot that is turned on or off fades frame by frame, and the positions it
passes through are listed here for a block and for a whole run of calls.  On
exact numbers a fade-out always falls and stays at 0.  A fade-in rises and
stays at 1 in exactly those runs in which no block goes on past the frame that
completes it: inside a block the frame after completion falls back by one step,
so from there on the positions alternate until the block ends.
-/

namespace Multisample

/-- A frame as the crossfade of one effect sees it. -/
structure FadeFrame (σ : Type) where
  enabled : Bool
  /-- The crossfade position of the frame. -/
  wet : σ

namespace FadeFrame

/-- From one frame to the next an enabled effect fades in, and stays when it
is there. -/
def Rises (f g : FadeFrame ℝ) : Prop :=
  g.enabled = true → f.wet ≤ g.wet ∧ (f.wet = 1 → g.wet = 1)

/-- From one frame to the next a disabled effect fades out, and stays when it
is gone. -/
def Falls (f g : FadeFrame ℝ) : Prop :=
  g.enabled = false → g.wet ≤ f.wet ∧ (f.wet = 0 → g.wet = 0)

/-- A row of frames under one switch is a chain when its positions are. -/
theorem isChain_map_iff {R : FadeFrame ℝ → FadeFrame ℝ → Prop} {r : ℝ → ℝ → Prop}
    {enabled : Bool} (h : ∀ b v w, R ⟨b, v⟩ ⟨enabled, w⟩ ↔ r v w) :
    ∀ (b : Bool) (wet : ℝ) (wets : List ℝ),
      List.IsChain R (⟨b, wet⟩ :: wets.map fun w => ⟨enabled, w⟩) ↔ List.IsChain r (wet :: wets)
  | _, _, [] => iff_of_true (List.isChain_singleton _) (List.isChain_singleton _)
  | b, wet, w :: wets => by
      rw [List.map_cons, List.isChain_cons_cons, List.isChain_cons_cons, h,
        isChain_map_iff h enabled w wets]

/-- A chain of frames can be cut at any frame. -/
theorem isChain_append_iff {R : FadeFrame ℝ → FadeFrame ℝ → Prop} :
    ∀ (f : FadeFrame ℝ) (fs gs : List (FadeFrame ℝ)),
      List.IsChain R (f :: (fs ++ gs)) ↔
        List.IsChain R (f :: fs) ∧ List.IsChain R (fs.getLastD f :: gs)
  | f, [], gs => by
      rw [List.nil_append, List.getLastD_nil, and_iff_right (List.isChain_singleton f)]
  | f, g :: fs, gs => by
      rw [List.cons_append, List.isChain_cons_cons, List.isChain_cons_cons, List.getLastD_cons,
        isChain_append_iff g fs gs, and_assoc]

/-- Of the frame before, only the position counts. -/
theorem isChain_congr_head {R : FadeFrame ℝ → FadeFrame ℝ → Prop}
    (hR : ∀ f f' g, f.wet = f'.wet → (R f g ↔ R f' g)) {f f' : FadeFrame ℝ}
    (h : f.wet = f'.wet) (gs : List (FadeFrame ℝ)) :
    List.IsChain R (f :: gs) ↔ List.IsChain R (f' :: gs) := by
  constructor
  · apply List.IsChain.imp_head
    intro g
    exact (hR f f' g h).mp
  · apply List.IsChain.imp_head
    intro g
    exact (hR f f' g h).mpr

theorem rises_congr (f f' g : FadeFrame ℝ) (h : f.wet = f'.wet) : Rises f g ↔ Rises f' g := by
  simp only [Rises, h]

theorem falls_congr (f f' g : FadeFrame ℝ) (h : f.wet = f'.wet) : Falls f g ↔ Falls f' g := by
  simp only [Falls, h]

end FadeFrame

variable {σ π γ : Type}

theorem getLastD_replicate {α : Type} (n : ℕ) (a : α) : (List.replicate n a).getLastD a = a := by
  rw [List.getLastD_eq_getLast?, List.getLast?_replicate]
  split <;> rfl

theorem getLastD_append {α : Type} (xs ys : List α) (a : α) :
    (xs ++ ys).getLastD a = ys.getLastD (xs.getLastD a) := by
  simp only [List.getLastD_eq_getLast?, List.getLast?_append]
  cases ys.getLast? <;> rfl

/-! ## Positions inside a block -/

namespace ChainSlot

section positions

variable [Elementary σ]

/-- The positions of the next frames of a fade. -/
def fadeFrom (step : σ) (enabled : Bool) : σ → ℕ → List σ
  | _, 0 => []
  | wet, frames + 1 =>
      fade step enabled wet :: fadeFrom step enabled (fade step enabled wet) frames

/-- The positions of the frames of a block: a slot at rest and one that is
fully in stay where they are. -/
def positions (step : σ) (s : ChainSlot σ π γ) (frames : ℕ) : List σ :=
  if s.rests || (Scalar.eq s.wet 1 && s.enabled) then List.replicate frames s.wet
  else fadeFrom step s.enabled s.wet frames

def fadeFrames (step : σ) (s : ChainSlot σ π γ) (frames : ℕ) : List (FadeFrame σ) :=
  (s.positions step frames).map fun wet => ⟨s.enabled, wet⟩

/-- The crossfade of a block is the blend of each frame at its position. -/
theorem crossfade_eq (step : σ) (enabled : Bool) (wet : σ) (dry wets : List (Frame σ)) :
    crossfade step enabled wet dry wets =
      ((fadeFrom step enabled wet (dry.zip wets).length).getLastD wet,
        List.zipWith (fun x w => x.1.blend x.2 w) (dry.zip wets)
          (fadeFrom step enabled wet (dry.zip wets).length)) := by
  unfold crossfade
  induction dry.zip wets generalizing wet with
  | nil => rfl
  | cons x xs ih =>
      simp only [runOver, List.length_cons, fadeFrom, List.zipWith_cons_cons,
        List.getLastD_cons]
      rw [ih]

variable [Elementary π] [Precision σ π] [Transform σ γ]

/-- After a block the slot stands at the position of the last frame. -/
theorem process_wet (step : σ) (ctx : BlockContext π) (s : ChainSlot σ π γ)
    (block : List (Frame σ)) :
    (s.process step ctx block).1.wet = (s.positions step block.length).getLastD s.wet := by
  have hlen := s.processed_length ctx block
  simp only [processed, advanced] at hlen
  unfold process positions
  -- A slot at rest and one that is fully in keep their position; any other fades.
  by_cases hr : s.rests = true
  · rw [if_pos hr, if_pos (by simp [hr]), getLastD_replicate]
  · rw [if_neg hr]
    by_cases hw : (Scalar.eq s.wet 1 && s.enabled) = true
    · simp only [hw, Bool.or_true, if_true, getLastD_replicate]
    · simp [hr, hw, crossfade_eq, hlen]

end positions

/-! ## Fades on exact numbers -/

theorem fade_enabled (step wet : ℝ) :
    fade step true wet = if wet < 1 then min (wet + step) 1 else max (wet - step) 0 := by
  simp [fade]

theorem fade_disabled {step wet : ℝ} (h : 0 ≤ wet) :
    fade step false wet = max (wet - step) 0 := by
  simp [fade, not_lt.mpr h]

theorem fade_mem_unit {step wet : ℝ} (enabled : Bool) (hs : 0 < step) (h0 : 0 ≤ wet)
    (h1 : wet ≤ 1) : 0 ≤ fade step enabled wet ∧ fade step enabled wet ≤ 1 := by
  cases enabled with
  | false =>
      rw [fade_disabled h0]
      exact ⟨le_max_right _ _, max_le (by linarith) zero_le_one⟩
  | true =>
      rw [fade_enabled]
      split
      · exact ⟨le_min (by linarith) zero_le_one, min_le_right _ _⟩
      · exact ⟨le_max_right _ _, max_le (by linarith) zero_le_one⟩

theorem mem_fadeFrom_unit {step : ℝ} {enabled : Bool} (hs : 0 < step) :
    ∀ {wet : ℝ} {frames : ℕ}, 0 ≤ wet → wet ≤ 1 →
      ∀ w ∈ fadeFrom step enabled wet frames, 0 ≤ w ∧ w ≤ 1
  | _, 0, _, _, _, h => absurd h (by simp [fadeFrom])
  | wet, frames + 1, h0, h1, w, h => by
      obtain ⟨hn0, hn1⟩ := fade_mem_unit enabled hs h0 h1
      rcases List.mem_cons.mp h with rfl | h
      · exact ⟨hn0, hn1⟩
      · exact mem_fadeFrom_unit hs hn0 hn1 w h

/-- A fade-out falls and stays at 0. -/
theorem isChain_fadeFrom_disabled {step : ℝ} (hs : 0 < step) :
    ∀ {wet : ℝ} {frames : ℕ}, 0 ≤ wet →
      List.IsChain (fun v w => w ≤ v ∧ (v = 0 → w = 0)) (wet :: fadeFrom step false wet frames)
  | _, 0, _ => List.isChain_singleton _
  | wet, frames + 1, h0 => by
      have hn : fade step false wet = max (wet - step) 0 := fade_disabled h0
      refine List.isChain_cons_cons.mpr ⟨⟨?_, ?_⟩, ?_⟩
      · rw [hn]
        exact max_le (by linarith) h0
      · rintro rfl
        rw [hn]
        exact max_eq_right (by linarith)
      · exact isChain_fadeFrom_disabled hs (hn ▸ le_max_right _ _)

/-- A fade-in rises and stays at 1 exactly if it is not complete before the
last frame. -/
theorem isChain_fadeFrom_enabled_iff {step : ℝ} (hs : 0 < step) (hs1 : step ≤ 1) :
    ∀ {wet : ℝ} {frames : ℕ}, wet < 1 →
      (List.IsChain (fun v w => v ≤ w ∧ (v = 1 → w = 1)) (wet :: fadeFrom step true wet frames) ↔
        wet + ((frames : ℝ) - 1) * step < 1)
  | wet, 0, h => by
      have : wet + (((0 : ℕ) : ℝ) - 1) * step < 1 := by
        push_cast
        linarith
      exact iff_of_true (List.isChain_singleton _) this
  | wet, frames + 1, h => by
      have hn : fade step true wet = min (wet + step) 1 := by rw [fade_enabled, if_pos h]
      have hup : wet ≤ fade step true wet ∧ (wet = 1 → fade step true wet = 1) :=
        ⟨hn ▸ le_min (by linarith) h.le, fun e => absurd e h.ne⟩
      rw [fadeFrom, List.isChain_cons_cons, and_iff_right hup]
      -- Either this frame leaves something of the fade to do, or it completes it.
      rcases lt_or_ge (wet + step) 1 with hlt | hge
      · have hone : wet + ((frames + 1 : ℕ) - 1 : ℝ) * step =
            wet + step + ((frames : ℝ) - 1) * step := by
          push_cast
          ring
        rw [hn, min_eq_left hlt.le, isChain_fadeFrom_enabled_iff hs hs1 hlt, hone]
      · rw [hn, min_eq_right hge]
        cases frames with
        | zero =>
            refine iff_of_true (List.isChain_singleton _) ?_
            push_cast
            linarith
        | succ k =>
            -- One frame past completion the fade has fallen back by a step.
            have hback : fade step true 1 = 1 - step := by
              rw [fade_enabled, if_neg (lt_irrefl _), max_eq_left (by linarith)]
            apply iff_of_false
            · intro hc
              have hle : 1 ≤ fade step true 1 := (List.isChain_cons_cons.mp hc).1.1
              linarith
            · push_cast
              nlinarith [mul_nonneg (Nat.cast_nonneg (α := ℝ) k) hs.le]

/-! ## Blocks on exact numbers -/

section blocks

variable {s : ChainSlot ℝ π γ} {step : ℝ} {frames : ℕ}

/-- No fade-in is complete before the last frame of the block, unless it was
complete before the block. -/
def Settles (step : ℝ) (s : ChainSlot ℝ π γ) (frames : ℕ) : Prop :=
  s.enabled = true → s.wet = 1 ∨ s.wet + ((frames : ℝ) - 1) * step < 1

theorem mem_positions_unit (hs : 0 < step) (h0 : 0 ≤ s.wet) (h1 : s.wet ≤ 1) :
    ∀ w ∈ s.positions step frames, 0 ≤ w ∧ w ≤ 1 := by
  intro w hw
  unfold positions at hw
  split at hw
  · rw [List.eq_of_mem_replicate hw]
    exact ⟨h0, h1⟩
  · exact mem_fadeFrom_unit hs h0 h1 w hw

theorem isChain_falls_fadeFrames (hs : 0 < step) (h0 : 0 ≤ s.wet) (b : Bool) :
    List.IsChain FadeFrame.Falls (⟨b, s.wet⟩ :: s.fadeFrames step frames) := by
  unfold fadeFrames
  cases he : s.enabled with
  | true =>
      rw [FadeFrame.isChain_map_iff (r := fun _ _ => True) (by simp [FadeFrame.Falls])]
      exact List.isChain_iff_forall_rel_of_append_cons_cons.mpr fun _ _ _ _ _ => trivial
  | false =>
      rw [FadeFrame.isChain_map_iff (r := fun v w => w ≤ v ∧ (v = 0 → w = 0))
        (by simp [FadeFrame.Falls])]
      unfold positions
      split
      · exact List.isChain_replicate_of_rel (frames + 1) ⟨le_refl _, id⟩
      · rw [he]
        exact isChain_fadeFrom_disabled hs h0

theorem isChain_rises_fadeFrames_iff (hs : 0 < step) (hs1 : step ≤ 1) (h1 : s.wet ≤ 1) (b : Bool) :
    List.IsChain FadeFrame.Rises (⟨b, s.wet⟩ :: s.fadeFrames step frames) ↔
      s.Settles step frames := by
  unfold fadeFrames Settles
  cases he : s.enabled with
  | false =>
      rw [FadeFrame.isChain_map_iff (r := fun _ _ => True) (by simp [FadeFrame.Rises])]
      exact iff_of_true
        (List.isChain_iff_forall_rel_of_append_cons_cons.mpr fun _ _ _ _ _ => trivial) (by simp)
  | true =>
      rw [FadeFrame.isChain_map_iff (r := fun v w => v ≤ w ∧ (v = 1 → w = 1))
        (by simp [FadeFrame.Rises])]
      unfold positions
      rcases h1.eq_or_lt with hone | hlt
      · rw [if_pos (by simp [hone, he])]
        apply iff_of_true
        · exact List.isChain_replicate_of_rel (frames + 1) ⟨le_refl _, id⟩
        · exact fun _ => Or.inl hone
      · rw [if_neg (by simp [rests, he, hlt.ne]), he, isChain_fadeFrom_enabled_iff hs hs1 hlt]
        simp [hlt.ne]

variable [Elementary π] [Precision ℝ π] [Transform ℝ γ]

/-- Fully in, a slot puts out what its effect makes of the block. -/
theorem process_snd_of_full (ctx : BlockContext π) (he : s.enabled = true) (hw : s.wet = 1)
    (block : List (Frame ℝ)) : (s.process step ctx block).2 = s.processed ctx block := by
  simp [process, rests, he, hw, processed, advanced]

end blocks

end ChainSlot

/-! ## Runs of calls -/

namespace EffectChain

section trace

variable [Elementary σ] [Elementary π] [Precision σ π] [Transform σ γ]

/-- The frames that a call makes the effect of one kind process. -/
def callFrames (kind : EffectKind) (c : EffectChain σ π γ) : Call σ π γ → List (FadeFrame σ)
  | .process _ block => (c.slot kind).fadeFrames c.fadeStep block.length
  | _ => []

/-- Where the fade of one kind stands. -/
def standing (kind : EffectKind) (c : EffectChain σ π γ) : FadeFrame σ :=
  ⟨(c.slot kind).enabled, (c.slot kind).wet⟩

def fades (kind : EffectKind) : EffectChain σ π γ → List (Call σ π γ) → List (FadeFrame σ)
  | _, [] => []
  | c, call :: rest => c.callFrames kind call ++ fades kind (c.perform call) rest

/-- The frames of a run, after the position that it starts from. -/
def trace (kind : EffectKind) (c : EffectChain σ π γ) (calls : List (Call σ π γ)) :
    List (FadeFrame σ) :=
  c.standing kind :: c.fades kind calls

/-- Only a block moves a fade, and it leaves it at the position of its last
frame. -/
theorem wet_perform (kind : EffectKind) (c : EffectChain σ π γ) (call : Call σ π γ) :
    ((c.perform call).slot kind).wet =
      ((c.callFrames kind call).map FadeFrame.wet).getLastD (c.slot kind).wet := by
  cases call with
  | process ctx block =>
      obtain ⟨input, hlen, heq⟩ := slot_process ctx c block kind
      have hmap : ((c.callFrames kind (.process ctx block)).map FadeFrame.wet) =
          (c.slot kind).positions c.fadeStep block.length := by
        simp [callFrames, ChainSlot.fadeFrames, Function.comp_def]
      rw [hmap, perform, heq, ChainSlot.process_wet, hlen]
  | enable target on =>
      simp only [perform, setEnabled, slot_modifySlot, callFrames]
      split <;> rfl
  | param target index value =>
      simp only [perform, setParam, callFrames]
      split
      · simp only [Except.toOption, Option.getD_some, slot_modifySlot]
        split <;> rfl
      · rfl
  | order kinds =>
      simp only [perform, setOrder, callFrames]
      split <;> rfl
  | rate sampleRate =>
      simp only [perform, setRate, slot_map]
      rfl
  | reset =>
      simp only [perform, reset, slot_map]
      rfl
  | convolver next =>
      simp only [perform, swapConvolver, slot_modifySlot, callFrames]
      split <;> rfl

omit [Precision σ π] [Transform σ γ] in
theorem wet_ofRate (rate : σ) (kind : EffectKind) :
    ((ofRate rate : EffectChain σ π γ).slot kind).wet = 0 := by
  cases kind <;> rfl

end trace

section runs

variable [Elementary π] [Precision ℝ π] [Transform ℝ γ]

def CallSettles (kind : EffectKind) (c : EffectChain ℝ π γ) : Call ℝ π γ → Prop
  | .process _ block => (c.slot kind).Settles c.fadeStep block.length
  | _ => True

/-- In each block that a run processes, the fade of one kind settles. -/
def Settles (kind : EffectKind) : EffectChain ℝ π γ → List (Call ℝ π γ) → Prop
  | _, [] => True
  | c, call :: rest => c.CallSettles kind call ∧ Settles kind (c.perform call) rest

/-- Positions between 0 and 1, and a step that leads from one to the other. -/
structure FadesInUnit (c : EffectChain ℝ π γ) : Prop where
  step_pos : 0 < c.fadeStep
  step_le : c.fadeStep ≤ 1
  wet_nonneg : ∀ kind, 0 ≤ (c.slot kind).wet
  wet_le : ∀ kind, (c.slot kind).wet ≤ 1

theorem fadeStepFor_pos (rate : ℝ) : 0 < fadeStepFor rate := by
  simp only [fadeStepFor, Scalar.max_real, Scalar.one_real]
  positivity

theorem fadeStepFor_le (rate : ℝ) : fadeStepFor rate ≤ 1 := by
  simp only [fadeStepFor, Scalar.max_real, Scalar.one_real]
  exact div_le_one_of_le₀ (le_max_right _ _) (by positivity)

omit [Precision ℝ π] [Transform ℝ γ] in
theorem fadesInUnit_ofRate (rate : ℝ) : FadesInUnit (ofRate rate : EffectChain ℝ π γ) where
  step_pos := fadeStepFor_pos rate
  step_le := fadeStepFor_le rate
  wet_nonneg kind := by simp [wet_ofRate]
  wet_le kind := by simp [wet_ofRate]

omit [Elementary π] [Precision ℝ π] [Transform ℝ γ] in
theorem mem_callFrames_unit {c : EffectChain ℝ π γ} (h : c.FadesInUnit) {kind : EffectKind}
    {call : Call ℝ π γ} : ∀ f ∈ c.callFrames kind call, 0 ≤ f.wet ∧ f.wet ≤ 1 := by
  intro f hf
  cases call with
  | process ctx block =>
      obtain ⟨w, hw, rfl⟩ := List.mem_map.mp hf
      exact ChainSlot.mem_positions_unit h.step_pos (h.wet_nonneg kind) (h.wet_le kind) w hw
  | _ => simp [callFrames] at hf

theorem FadesInUnit.perform {c : EffectChain ℝ π γ} (h : c.FadesInUnit) (call : Call ℝ π γ) :
    (c.perform call).FadesInUnit := by
  have hstep : (c.perform call).fadeStep = c.fadeStep ∨
      ∃ rate, (c.perform call).fadeStep = fadeStepFor rate := by
    cases call with
    | rate sampleRate => exact Or.inr ⟨sampleRate, rfl⟩
    | process ctx block => exact Or.inl (fadeStep_processSlots ctx _ c block)
    | param kind index value =>
        simp only [EffectChain.perform, setParam]
        split <;> exact Or.inl rfl
    | order kinds =>
        simp only [EffectChain.perform, setOrder]
        split <;> exact Or.inl rfl
    | _ => exact Or.inl rfl
  -- The last position is the one before the call or one of its frames.
  have hwet : ∀ kind, 0 ≤ ((c.perform call).slot kind).wet ∧
      ((c.perform call).slot kind).wet ≤ 1 := by
    intro kind
    rw [wet_perform]
    rcases List.mem_cons.mp (List.getLastD_mem_cons
      (l := (c.callFrames kind call).map FadeFrame.wet) (a := (c.slot kind).wet)) with hw | hw
    · rw [hw]
      exact ⟨h.wet_nonneg kind, h.wet_le kind⟩
    · obtain ⟨f, hf, hfw⟩ := List.mem_map.mp hw
      rw [← hfw]
      exact mem_callFrames_unit h f hf
  refine ⟨?_, ?_, fun kind => (hwet kind).1, fun kind => (hwet kind).2⟩
  · rcases hstep with hs | ⟨rate, hs⟩
    · exact hs ▸ h.step_pos
    · exact hs ▸ fadeStepFor_pos rate
  · rcases hstep with hs | ⟨rate, hs⟩
    · exact hs ▸ h.step_le
    · exact hs ▸ fadeStepFor_le rate

/-- A run is a chain when its first call is and what follows is. -/
theorem isChain_trace_cons_iff {R : FadeFrame ℝ → FadeFrame ℝ → Prop}
    (hR : ∀ f f' g, f.wet = f'.wet → (R f g ↔ R f' g)) (kind : EffectKind)
    (c : EffectChain ℝ π γ) (call : Call ℝ π γ) (rest : List (Call ℝ π γ)) :
    List.IsChain R (c.trace kind (call :: rest)) ↔
      List.IsChain R (c.standing kind :: c.callFrames kind call) ∧
        List.IsChain R ((c.perform call).trace kind rest) := by
  have hlast : ((c.callFrames kind call).getLastD (c.standing kind)).wet =
      ((c.perform call).standing kind).wet := by
    rw [standing, standing, wet_perform]
    exact List.getLastD_map.symm
  rw [trace, fades, FadeFrame.isChain_append_iff, FadeFrame.isChain_congr_head hR hlast, trace]

theorem mem_trace_unit {kind : EffectKind} :
    ∀ {c : EffectChain ℝ π γ} {calls : List (Call ℝ π γ)}, c.FadesInUnit →
      ∀ f ∈ c.trace kind calls, 0 ≤ f.wet ∧ f.wet ≤ 1
  | c, calls, h, f, hf => by
      rcases List.mem_cons.mp hf with rfl | hf
      · exact ⟨h.wet_nonneg kind, h.wet_le kind⟩
      cases calls with
      | nil => exact absurd hf (by simp [fades])
      | cons call rest =>
          rcases List.mem_append.mp hf with hf | hf
          · exact mem_callFrames_unit h f hf
          · exact mem_trace_unit (h.perform call) f (List.mem_cons_of_mem _ hf)

theorem isChain_falls_trace (kind : EffectKind) :
    ∀ {c : EffectChain ℝ π γ} (calls : List (Call ℝ π γ)), c.FadesInUnit →
      List.IsChain FadeFrame.Falls (c.trace kind calls)
  | _, [], _ => List.isChain_singleton _
  | c, call :: rest, h => by
      rw [isChain_trace_cons_iff FadeFrame.falls_congr]
      refine ⟨?_, isChain_falls_trace kind rest (h.perform call)⟩
      cases call with
      | process ctx block =>
          exact ChainSlot.isChain_falls_fadeFrames h.step_pos (h.wet_nonneg kind) _
      | _ => exact List.isChain_singleton _

theorem isChain_rises_trace_iff (kind : EffectKind) :
    ∀ {c : EffectChain ℝ π γ} (calls : List (Call ℝ π γ)), c.FadesInUnit →
      (List.IsChain FadeFrame.Rises (c.trace kind calls) ↔ c.Settles kind calls)
  | _, [], _ => iff_of_true (List.isChain_singleton _) trivial
  | c, call :: rest, h => by
      rw [isChain_trace_cons_iff FadeFrame.rises_congr, Settles,
        isChain_rises_trace_iff kind rest (h.perform call)]
      refine and_congr_left fun _ => ?_
      cases call with
      | process ctx block =>
          exact ChainSlot.isChain_rises_fadeFrames_iff h.step_pos h.step_le (h.wet_le kind) _
      | _ => exact iff_of_true (List.isChain_singleton _) trivial

/-- A run leaves the fade at the position of its last frame. -/
theorem wet_run (kind : EffectKind) :
    ∀ (c : EffectChain ℝ π γ) (calls : List (Call ℝ π γ)),
      ((c.run calls).slot kind).wet =
        ((c.fades kind calls).map FadeFrame.wet).getLastD (c.slot kind).wet
  | _, [] => rfl
  | c, call :: rest => by
      rw [run, List.foldl_cons, ← run, wet_run kind (c.perform call) rest, fades, List.map_append,
        getLastD_append, ← wet_perform]

/-- Along every run from a new chain the positions lie between 0 and 1, a
disabled effect fades out and stays out, and a slot that is fully in puts out
what its effect makes of the signal.  An enabled effect fades in and stays in
along the whole run exactly if each block finds the fade complete or does not
complete it before the block's last frame. -/
theorem fade_in_stays_iff (rate : ℝ) (kind : EffectKind) (calls : List (Call ℝ π γ)) :
    let c : EffectChain ℝ π γ := ofRate rate
    (∀ f ∈ c.trace kind calls, 0 ≤ f.wet ∧ f.wet ≤ 1) ∧
      List.IsChain FadeFrame.Falls (c.trace kind calls) ∧
      (List.IsChain FadeFrame.Rises (c.trace kind calls) ↔ c.Settles kind calls) ∧
      ((c.run calls).slot kind).wet =
        ((c.fades kind calls).map FadeFrame.wet).getLastD (c.slot kind).wet ∧
      ∀ ctx block, ((c.run calls).slot kind).enabled = true → ((c.run calls).slot kind).wet = 1 →
        (((c.run calls).slot kind).process (c.run calls).fadeStep ctx block).2 =
          ((c.run calls).slot kind).processed ctx block := by
  intro c
  have h : c.FadesInUnit := fadesInUnit_ofRate rate
  exact ⟨mem_trace_unit h, isChain_falls_trace kind calls h, isChain_rises_trace_iff kind calls h,
    wet_run kind c calls, fun ctx block he hw => ChainSlot.process_snd_of_full ctx he hw block⟩

end runs

/-- A fade over ten frames that a block of fourteen completes: the eleventh frame
falls back below 1. -/
theorem fade_in_falls_back :
    let c : EffectChain ℝ ℝ (Fin 256 → ℝ) := ofRate 1000
    ¬ List.IsChain FadeFrame.Rises (c.trace .distortion
      [.enable .distortion true, .process ⟨120⟩ (List.replicate 14 ⟨1, 1⟩)]) := by
  intro c
  rw [isChain_rises_trace_iff .distortion _ (fadesInUnit_ofRate 1000)]
  have hstep : c.fadeStep = 1 / 10 := by
    simp [c, ofRate, fadeStepFor, fadeSeconds]
    norm_num
  have hwet : (c.slot .distortion).wet = 0 := by simp [c, wet_ofRate]
  have hslot : (c.perform (.enable .distortion true)).slot .distortion =
      { c.slot .distortion with enabled := true } := by
    simp [perform, setEnabled, slot_modifySlot]
  have hstep' : (c.perform (.enable .distortion true)).fadeStep = 1 / 10 := hstep
  rintro ⟨-, hs, -⟩
  rw [CallSettles, hslot, hstep'] at hs
  have := hs rfl
  rw [hwet] at this
  norm_num at this

end EffectChain

end Multisample
