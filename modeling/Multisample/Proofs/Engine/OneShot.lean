import Mathlib.Algebra.Order.Floor.Ring
import Multisample.Proofs.Engine.Reactions
import Multisample.Proofs.Numeric.Exact
import Multisample.Proofs.Playback.Unlooped

/-!
# One-shots

What a layer starts when a key comes up ignores releases and plays on.  With
positions counted exactly such a voice has moved on by one step for each of its
frames, so without a loop it has left a buffer of `F` frames after `F / s` of
them.  A loop of the region is kept, and a voice with a loop never ends by
itself.
-/

namespace Multisample

variable {σ γ : Type} [Elementary σ] [Precision σ ℝ]

/-! ## Streamers and envelopes -/

namespace Streamer

/-- Without a loop a frame moves the position on by one step, and finishes when
that leaves the buffer. -/
theorem next_once (a : AudioBuffer σ) (step : ℝ) {s : Streamer ℝ} (h : s.sampleLoop = none)
    (hfinished : s.finished = false) :
    (s.next a step).1.finished = true ∨ (s.next a step).1.position = s.position + step ∧
      s.position + step < a.frames := by
  rcases lt_or_ge s.position a.frames with hinside | houtside
  · rw [next_unlooped a step h hfinished hinside]
    rcases le_or_gt (a.frames : ℝ) (s.position + step) with hend | hon
    · exact Or.inl (decide_eq_true hend)
    · exact Or.inr ⟨rfl, hon⟩
  · rw [next_outside a step h hfinished houtside]
    exact Or.inl rfl

end Streamer

namespace Voice

omit [Elementary σ] [Precision σ ℝ] in
theorem isFinished_eq_false {v : Voice σ ℝ} (h : v.Holds) (hfinished : v.streamer.finished = false) :
    v.isFinished = false := by
  rcases h with h | h <;> simp [isFinished, Envelope.isDone, h, hfinished]

theorem Holds.next {v : Voice σ ℝ} (h : v.Holds) (step : ℝ) : (v.next step).1.Holds := by
  unfold Holds Voice.next Envelope.next at *
  dsimp only
  rcases h with h | h
  · rw [h]
    dsimp only
    split
    · exact Or.inr rfl
    · exact Or.inl rfl
  · rw [h]
    exact Or.inr h

/-- A voice that will never end by itself. -/
structure Endless (v : Voice σ ℝ) : Prop where
  loops : v.streamer.sampleLoop.isSome
  unfinished : v.streamer.finished = false
  holds : v.Holds

omit [Elementary σ] [Precision σ ℝ] in
theorem Endless.isFinished {v : Voice σ ℝ} (h : v.Endless) : v.isFinished = false :=
  isFinished_eq_false h.holds h.unfinished

theorem Endless.after {v : Voice σ ℝ} (h : v.Endless) (step : ℝ) (frames : ℕ) :
    (v.after step frames).Endless := by
  induction frames generalizing v with
  | zero => exact h
  | succ frames ih =>
      rw [Voice.after, h.isFinished]
      refine ih ⟨?_, ?_, h.holds.next step⟩
      · exact (Streamer.next_sampleLoop v.sound.buffer step v.streamer).symm ▸ h.loops
      · exact (Streamer.next_finished_of_loop v.sound.buffer step h.loops).trans h.unfinished

/-- A voice without a loop that has had some frames: it has finished, or it
stands where its steps have led it and is not past its buffer. -/
structure Read (step : ℝ) (frames : ℕ) (v : Voice σ ℝ) : Prop where
  once : v.streamer.sampleLoop = none
  place : v.isFinished = true ∨
    v.streamer.position = frames * step ∧ (frames = 0 ∨ frames * step < v.sound.buffer.frames)

theorem Read.next {step : ℝ} {frames : ℕ} {v : Voice σ ℝ} (h : v.Read step frames)
    (hfinished : v.isFinished = false) : (v.next step).1.Read step (frames + 1) := by
  have hstreamer : v.streamer.finished = false := (Bool.or_eq_false_iff.mp hfinished).1
  refine ⟨(Streamer.next_sampleLoop v.sound.buffer step v.streamer).trans h.once, ?_⟩
  obtain ⟨hposition, -⟩ := h.place.resolve_left (by simp [hfinished])
  have hplace : v.streamer.position + step = (frames + 1 : ℕ) * step := by
    rw [hposition]
    push_cast
    ring
  rcases Streamer.next_once v.sound.buffer step h.once hstreamer with hend | ⟨hon, hlt⟩
  · exact Or.inl (Bool.or_eq_true_iff.mpr (Or.inl hend))
  · exact Or.inr ⟨hon.trans hplace, Or.inr (hplace ▸ hlt)⟩

theorem Read.after {step : ℝ} {frames : ℕ} {v : Voice σ ℝ} (h : v.Read step frames) (more : ℕ) :
    (v.after step more).Read step (frames + more) := by
  induction more generalizing v frames with
  | zero => exact h
  | succ more ih =>
      rw [Voice.after]
      split
      · rename_i hfinished
        exact ⟨h.once, Or.inl hfinished⟩
      · rename_i hfinished
        rw [Nat.add_comm more 1, ← Nat.add_assoc]
        exact ih (h.next (Bool.eq_false_of_not_eq_true hfinished))

omit [Elementary σ] [Precision σ ℝ] in
/-- After as many frames as lead through the buffer the voice has finished. -/
theorem Read.isFinished {step : ℝ} {frames : ℕ} {v : Voice σ ℝ} (h : v.Read step frames)
    (hstep : 0 < step) (hframes : max 1 ⌈v.sound.buffer.frames / step⌉₊ ≤ frames) :
    v.isFinished = true := by
  obtain ⟨hone, hceil⟩ := max_le_iff.mp hframes
  apply h.place.resolve_right
  intro hplace
  have hlt := hplace.2.resolve_left (Nat.one_le_iff_ne_zero.mp hone)
  have hle : (v.sound.buffer.frames : ℝ) ≤ frames * step :=
    (div_le_iff₀ hstep).mp (Nat.ceil_le.mp hceil)
  exact absurd hlt (not_lt.mpr hle)

end Voice

/-! ## One voice among the calls to its pool -/

namespace VoicePool

omit [Elementary σ] [Precision σ ℝ] in
/-- A call that renders a layer, if it does, does so at one rate. -/
def Call.AtRate (layer rate : ℕ) : Call σ ℝ → Prop
  | .render other otherRate _ => other = layer → otherRate = rate
  | _ => True

omit [Elementary σ] [Precision σ ℝ] in
/-- How many frames of a layer a call renders. -/
def Call.framesIn (layer : ℕ) : Call σ ℝ → ℕ
  | .render other _ block => if other = layer then block.length else 0
  | _ => 0

/-- A pool in which a voice, if it still sounds, is as it was started and has
been read for some frames. -/
def Traces (v : Voice σ ℝ) (rate frames : ℕ) (p : VoicePool σ ℝ) : Prop :=
  v.serial < p.nextSerial ∧
    ∀ w ∈ p.sounding, w.serial = v.serial →
      w.toVoiceStart = v.toVoiceStart ∧ w.Read (v.step rate) frames

section traces

variable {v : Voice σ ℝ} {rate : ℕ}

omit [Elementary σ] [Precision σ ℝ] in
/-- What passes one-shots by leaves them as they are. -/
theorem Traces.mapVoices (hshot : v.oneShot = true) {f : Voice σ ℝ → Voice σ ℝ}
    (hserial : ∀ w, (f w).serial = w.serial) (hf : ∀ w, w.oneShot = true → f w = w)
    {p : VoicePool σ ℝ} {frames : ℕ} (h : p.Traces v rate frames) :
    (p.mapVoices f).Traces v rate frames := by
  refine ⟨h.1, ?_⟩
  intro w hw hw'
  rw [sounding_mapVoices] at hw
  obtain ⟨u, hu, rfl⟩ := List.mem_map.mp hw
  have hu' := h.2 u hu ((hserial u).symm.trans hw')
  rw [hf u ((congrArg VoiceStart.oneShot hu'.1).trans hshot)]
  exact hu'

/-- A one-shot hears of nothing but the frames that are rendered, and of its
end. -/
theorem Traces.perform (hshot : v.oneShot = true) {p : VoicePool σ ℝ} {frames : ℕ}
    (h : p.Traces v rate frames) {call : Call σ ℝ} (hrate : call.AtRate v.layer rate) :
    (p.perform call).Traces v rate (frames + call.framesIn v.layer) := by
  cases call with
  | start s =>
      constructor
      · obtain ⟨-, hs⟩ | ⟨front, old, back, index, -, -, hs⟩ := p.start_cases s
        · rw [VoicePool.perform, hs]
          exact h.1
        · rw [VoicePool.perform, hs]
          exact Nat.lt_succ_of_lt h.1
      · intro w hw hw'
        rcases mem_sounding_start hw with rfl | hw
        · exact absurd hw' h.1.ne'
        · exact h.2 w hw hw'
  | release layer key channel =>
      apply Traces.mapVoices hshot _ _ h
      · intro w
        split <;> rfl
      · intro w hw
        rw [if_neg (by simp [Voice.isHeldBy, hw])]
  | releaseAll layer =>
      apply Traces.mapVoices hshot _ _ h
      · intro w
        split <;> rfl
      · intro w hw
        rw [if_neg (by simp [hw])]
  | killAll layer =>
      refine ⟨h.1, ?_⟩
      intro w hw hw'
      rw [VoicePool.perform, killAll, sounding_free] at hw
      exact h.2 w (List.mem_of_mem_filter hw) hw'
  | setEnvelope attackFrames releaseFrames => exact h
  | render layer otherRate block =>
      rw [VoicePool.perform, renderLayer_fst]
      refine ⟨h.1, ?_⟩
      intro w hw hw'
      rw [sounding_mapVoices] at hw
      obtain ⟨u, hu, rfl⟩ := List.mem_map.mp hw
      have hidentity : (if u.layer == layer then u.after (u.step otherRate) block.length
          else u).identity = u.identity := by
        split
        · exact u.identity_after _ _
        · rfl
      obtain ⟨hstart, hread⟩ := h.2 u hu ((congrArg Prod.fst hidentity).symm.trans hw')
      refine ⟨(congrArg Prod.snd hidentity).trans hstart, ?_⟩
      -- What a voice was started with fixes its layer and its step.
      have hlayer : u.layer = v.layer := congrArg VoiceStart.layer hstart
      have hstep : u.step rate = v.step rate := by rw [Voice.step, hstart, ← Voice.step]
      rw [Call.framesIn]
      by_cases hl : layer = v.layer
      · rw [if_pos (beq_iff_eq.mpr (hlayer.trans hl.symm)), if_pos hl, hrate hl, hstep]
        exact hread.after _
      · rw [if_neg (fun h => hl ((beq_iff_eq.mp h).symm.trans hlayer)), if_neg hl]
        exact hread
  | endBlock =>
      refine ⟨h.1, ?_⟩
      intro w hw hw'
      rw [VoicePool.perform, endBlock, sounding_free] at hw
      exact h.2 w (List.mem_of_mem_filter hw) hw'

theorem Traces.run (hshot : v.oneShot = true) {p : VoicePool σ ℝ} {frames : ℕ}
    (h : p.Traces v rate frames) {calls : List (Call σ ℝ)}
    (hrate : ∀ call ∈ calls, call.AtRate v.layer rate) :
    (p.run calls).Traces v rate (frames + (calls.map (Call.framesIn v.layer)).sum) := by
  induction calls generalizing p frames with
  | nil => exact h
  | cons call rest ih =>
      rw [List.map_cons, List.sum_cons, ← Nat.add_assoc]
      exact ih (h.perform hshot (hrate call List.mem_cons_self))
        fun other hother => hrate other (List.mem_cons_of_mem _ hother)

end traces

/-- Once as many frames of a voice have been rendered as lead through its
buffer it has finished, and the end of the block frees its slot, whatever else
the pool is asked in between. -/
def Ends (p : VoicePool σ ℝ) (v : Voice σ ℝ) (rate : ℕ) : Prop :=
  ∀ calls : List (Call σ ℝ), (∀ call ∈ calls, call.AtRate v.layer rate) →
    max 1 ⌈v.sound.buffer.frames / v.step rate⌉₊ ≤ (calls.map (Call.framesIn v.layer)).sum →
      (∀ w ∈ (p.run calls).sounding, w.serial = v.serial → w.isFinished = true) ∧
        ∀ w ∈ (p.run (calls ++ [.endBlock])).sounding, w.serial ≠ v.serial

variable {p : VoicePool σ ℝ} {v : Voice σ ℝ} {rate : ℕ}

theorem ends_of_read (hp : p.Numbered) (hv : v ∈ p.sounding) (hshot : v.oneShot = true)
    (hread : v.Read (v.step rate) 0) (hstep : 0 < v.step rate) : p.Ends v rate := by
  have hstart : p.Traces v rate 0 := by
    refine ⟨hp.lt v hv, ?_⟩
    intro w hw hserial
    rw [List.inj_on_of_nodup_map hp.nodup hw hv hserial]
    exact ⟨rfl, hread⟩
  intro calls hrate hframes
  have hfinished : ∀ w ∈ (p.run calls).sounding, w.serial = v.serial → w.isFinished = true := by
    intro w hw hserial
    obtain ⟨hw', hread⟩ := (hstart.run hshot hrate).2 w hw hserial
    rw [Nat.zero_add] at hread
    exact hread.isFinished hstep (hw' ▸ hframes)
  refine ⟨hfinished, ?_⟩
  intro w hw hserial
  rw [run_append] at hw
  simp only [run, List.foldl_cons, List.foldl_nil, VoicePool.perform, endBlock] at hw
  rw [sounding_free, List.mem_filter, ← run] at hw
  rw [hfinished w hw.1 hserial] at hw
  exact absurd hw.2 (by decide)

theorem not_ends_of_endless (hv : v ∈ p.sounding) (hendless : v.Endless) : ¬ p.Ends v rate := by
  intro h
  -- One block that is as long as the bound shows that the voice goes on.
  let frames := max 1 ⌈v.sound.buffer.frames / v.step rate⌉₊
  let silence : List (Frame σ) := List.replicate frames Frame.silence
  obtain ⟨hfinished, -⟩ := h [.render v.layer rate silence]
    (fun call hcall => List.mem_singleton.mp hcall ▸ fun _ => rfl)
    (by simp [Call.framesIn, silence, frames])
  have hmem : v.after (v.step rate) frames ∈ (p.run [.render v.layer rate silence]).sounding := by
    rw [run, List.foldl_cons, List.foldl_nil, VoicePool.perform, renderLayer_fst, sounding_mapVoices]
    refine List.mem_map.mpr ⟨v, hv, ?_⟩
    rw [if_pos (beq_self_eq_true v.layer), List.length_replicate]
  have hserial : (v.after (v.step rate) frames).serial = v.serial :=
    congrArg Prod.fst (v.identity_after _ _)
  have hunfinished := (hendless.after (v.step rate) frames).isFinished
  rw [hfinished _ hmem hserial] at hunfinished
  exact absurd hunfinished (by decide)

/-- The voices of a pool after some starts: old ones, and those just made. -/
theorem mem_sounding_starts {starts : List (VoiceStart σ ℝ)} :
    ∀ {p : VoicePool σ ℝ}, ∀ w ∈ (p.run (starts.map .start)).sounding,
      w ∈ p.sounding ∨ ∃ q : VoicePool σ ℝ, ∃ s ∈ starts, w = q.voiceOf s := by
  induction starts with
  | nil => exact fun w hw => Or.inl hw
  | cons s rest ih =>
      intro p w hw
      rcases ih w hw with hw | ⟨q, t, ht, rfl⟩
      · rcases mem_sounding_start hw with rfl | hw
        · exact Or.inr ⟨p, s, List.mem_cons_self, rfl⟩
        · exact Or.inl hw
      · exact Or.inr ⟨q, t, List.mem_cons_of_mem _ ht, rfl⟩

omit [Precision σ ℝ] in
theorem read_voiceOf (p : VoicePool σ ℝ) {s : VoiceStart σ ℝ} (h : s.sampleLoop = none) (step : ℝ) :
    (p.voiceOf s).Read step 0 where
  once := h
  place := by
    refine Or.inr ⟨?_, Or.inl rfl⟩
    simp [voiceOf, Streamer.start]

omit [Precision σ ℝ] in
theorem endless_voiceOf (p : VoicePool σ ℝ) {s : VoiceStart σ ℝ} (h : s.sampleLoop.isSome) :
    (p.voiceOf s).Endless where
  loops := h
  unfinished := rfl
  holds := p.holds_voiceOf s

end VoicePool

/-! ## Voices of note-off regions -/

namespace Layer

/-- A voice that a key started by coming up plays a region of the layer's
instrument as a one-shot, and it ends in time exactly if the region has no
loop. -/
theorem noteOff_voice_ends_iff (l : Layer σ) (key channel capacity attackFrames releaseFrames : ℕ)
    (before : List (VoicePool.Call σ ℝ)) (queue : RetireQueue (Retired σ γ)) :
    let e : Ensemble σ ℝ γ :=
      ⟨(VoicePool.empty capacity attackFrames releaseFrames).run before, queue⟩
    let pool := (l.noteOff key channel e).1.pool
    ∀ v ∈ pool.sounding, e.pool.nextSerial ≤ v.serial →
      v.oneShot = true ∧
        (∃ i region, l.instrument = some i ∧ some region ∈ i.regions ∧ v.sound = region.sound ∧
          v.sampleLoop = region.sampleLoop) ∧
        ∀ rate, 0 < v.step rate → (pool.Ends v rate ↔ v.sampleLoop = none) := by
  intro e pool v hv hserial
  have hnumbered : e.pool.Numbered := (VoicePool.numbered_empty ..).run before
  have hpool : pool = (e.pool.perform (.release l.index key channel)).run
      ((l.noteOffStarts key channel).map .start) := by
    simp only [pool, noteOff_eq, Ensemble.obeyAll_eq]
    rfl
  have hpoolNumbered : pool.Numbered := hpool ▸ (hnumbered.perform _).run _
  rw [hpool] at hv
  -- With such a number the voice did not sound before the key came up.
  obtain ⟨q, s, hs, rfl⟩ := (VoicePool.mem_sounding_starts v hv).resolve_left fun hold =>
    absurd ((hnumbered.perform (.release l.index key channel)).lt v hold) (not_lt.mpr hserial)
  rw [← hpool] at hv
  obtain ⟨-, -, -, hshot, hregion⟩ := mem_noteOffStarts hs
  refine ⟨hshot, hregion, ?_⟩
  intro rate hstep
  constructor
  · intro hends
    by_contra hloop
    have hloops : s.sampleLoop.isSome := Option.isSome_iff_ne_none.mpr hloop
    exact VoicePool.not_ends_of_endless hv (q.endless_voiceOf hloops) hends
  · intro hloop
    exact VoicePool.ends_of_read hpoolNumbered hv hshot (q.read_voiceOf hloop _) hstep

end Layer

/-! ## A region that never ends -/

section chime

/-- A layer whose instrument has one region of two frames for keys that come
up. -/
noncomputable def chime (sampleLoop : Option ResolvedLoop) : Layer ℝ :=
  { Layer.ofIndex 0 with
    instrument := some {
      id := 0
      library := ⟨{}, "chime.lua", [], []⟩
      instrument := { name := "Chime", regions := [{ trigger := { event := .noteOff } }] }
      regions := [some ⟨⟨0, AudioBuffer.ofSamples #[1, 1] 1 1000⟩, sampleLoop⟩] } }

/-- One free slot, and nothing has happened yet. -/
noncomputable def chimeEnsemble : Ensemble ℝ ℝ (Fin 256 → ℝ) :=
  ⟨(VoicePool.empty 1 0 0).run [], RetireQueue.empty 1⟩

theorem chime_sounds (sampleLoop : Option ResolvedLoop) :
    ∃ q : VoicePool ℝ ℝ, ∃ s : VoiceStart ℝ ℝ, s.sampleLoop = sampleLoop ∧
      q.voiceOf s ∈ ((chime sampleLoop).noteOff 60 0 chimeEnsemble).1.pool.sounding ∧
        0 < (q.voiceOf s).step 1000 := by
  obtain ⟨s, hs, hloop, hrate, rootKey, hratio⟩ : ∃ s : VoiceStart ℝ ℝ,
      (chime sampleLoop).noteOffStarts 60 0 = [s] ∧ s.sampleLoop = sampleLoop ∧
        s.sound.buffer.rate = 1000 ∧ ∃ rootKey, s.ratio = pitchRatio 60 rootKey := by
    have hvelocity : (chime sampleLoop).velocities.getD (60 % 128) 0 = 0 := by
      simp [chime, Layer.ofIndex]
    simp only [Layer.noteOffStarts, hvelocity]
    refine ⟨_, rfl, ?_⟩
    exact ⟨rfl, rfl, _, rfl⟩
  refine ⟨VoicePool.empty 1 0 0, s, hloop, ?_, ?_⟩
  · rw [Layer.noteOff_eq, Ensemble.obeyAll_eq, hs, VoicePool.mem_sounding]
    exact List.mem_cons_self
  · have hstep : ((VoicePool.empty 1 0 0).voiceOf s).step 1000 =
        s.ratio * s.sound.buffer.rate / (1000 : ℕ) := rfl
    have hratio' : 0 < s.ratio := by
      rw [hratio]
      exact Real.rpow_pos_of_pos (by norm_num) _
    rw [hstep, hrate]
    positivity

theorem noteOff_voice_ends_chime :
    ∃ v ∈ ((chime none).noteOff 60 0 chimeEnsemble).1.pool.sounding,
      chimeEnsemble.pool.nextSerial ≤ v.serial ∧ 0 < v.step 1000 ∧
        (((chime none).noteOff 60 0 chimeEnsemble).1.pool.Ends v 1000 ↔ v.sampleLoop = none) := by
  obtain ⟨q, s, -, hv, hstep⟩ := chime_sounds none
  unfold chimeEnsemble at *
  have hserial : chimeEnsemble.pool.nextSerial ≤ (q.voiceOf s).serial := Nat.zero_le _
  exact ⟨_, hv, hserial, hstep,
    (Layer.noteOff_voice_ends_iff (chime none) 60 0 1 0 0 [] (RetireQueue.empty 1) _ hv hserial).2.2
      1000 hstep⟩

/-- With a loop over its two frames the region starts a one-shot that does not
end. -/
theorem chime_goes_on :
    ∃ v ∈ ((chime (some ⟨0, 2, 0, false⟩)).noteOff 60 0 chimeEnsemble).1.pool.sounding,
      chimeEnsemble.pool.nextSerial ≤ v.serial ∧ 0 < v.step 1000 ∧
        ¬ ((chime (some ⟨0, 2, 0, false⟩)).noteOff 60 0 chimeEnsemble).1.pool.Ends v 1000 := by
  obtain ⟨q, s, hloop, hv, hstep⟩ := chime_sounds (some ⟨0, 2, 0, false⟩)
  refine ⟨_, hv, Nat.zero_le _, hstep, VoicePool.not_ends_of_endless hv (q.endless_voiceOf ?_)⟩
  rw [hloop]
  rfl

end chime

end Multisample
