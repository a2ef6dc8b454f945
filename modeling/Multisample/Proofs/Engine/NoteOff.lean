import Multisample.Proofs.Engine.Calls
import Multisample.Proofs.Numeric.Exact

/-!
# Notes that come to their end

When a key comes up every voice that it holds is let go of, in each layer that
listens to its channel.  A layer that has meanwhile been turned to another
channel does not hear of it: its voices go on.
-/

namespace Multisample

variable {σ π γ : Type}

namespace Voice

theorem not_holds_release (v : Voice σ π) : ¬ v.release.Holds := by
  unfold Holds release Envelope.release
  cases h : v.envelope.stage <;> simp [h]

/-- A voice that a key started in a layer has been let go of; one-shots do not
count. -/
def LetGo (layer key channel : ℕ) (v : Voice σ π) : Prop :=
  v.oneShot = false → v.layer = layer → v.key = key → v.channel = channel → ¬ v.Holds

end Voice

/-! ## Calls of a note-off -/

namespace VoicePool

variable [Scalar σ] [Scalar π] [Precision σ π]

/-- What a key that comes up leads to: releases and starts of one-shots. -/
def Call.Ends : Call σ π → Prop
  | .release _ _ _ => True
  | .start v => v.oneShot = true
  | _ => False

theorem letGo_release (p : VoicePool σ π) (layer key channel : ℕ) :
    ∀ v ∈ (p.perform (.release layer key channel)).sounding, v.LetGo layer key channel := by
  intro v hv hshot hlayer hkey hchannel
  rw [perform, release, sounding_mapVoices] at hv
  obtain ⟨w, -, rfl⟩ := List.mem_map.mp hv
  split at hlayer
  · rename_i hw
    rw [if_pos hw]
    exact w.not_holds_release
  · rename_i hw
    rw [if_neg hw] at hshot hkey hchannel
    exact absurd (by simp [Voice.isHeldBy, hshot, hlayer, hkey, hchannel]) hw

theorem letGo_perform {p : VoicePool σ π} {call : Call σ π} (hcall : call.Ends)
    {layer key channel : ℕ} (h : ∀ v ∈ p.sounding, v.LetGo layer key channel) :
    ∀ v ∈ (p.perform call).sounding, v.LetGo layer key channel := by
  intro v hv
  cases call with
  | release otherLayer otherKey otherChannel =>
      rw [perform, release, sounding_mapVoices] at hv
      obtain ⟨w, hw, rfl⟩ := List.mem_map.mp hv
      split
      · exact fun _ _ _ _ => w.not_holds_release
      · exact h w hw
  | start s =>
      rcases mem_sounding_start hv with rfl | hv
      · exact fun hshot => absurd (hcall.symm.trans hshot) (by decide)
      · exact h v hv
  | _ => exact hcall.elim

theorem letGo_run {p : VoicePool σ π} {calls : List (Call σ π)} (hcalls : ∀ call ∈ calls, call.Ends)
    {layer key channel : ℕ} (h : ∀ v ∈ p.sounding, v.LetGo layer key channel) :
    ∀ v ∈ (p.run calls).sounding, v.LetGo layer key channel := by
  induction calls generalizing p with
  | nil => exact h
  | cons call rest ih =>
      exact ih (fun other hother => hcalls other (List.mem_cons_of_mem _ hother))
        (letGo_perform (hcalls call List.mem_cons_self) h)

end VoicePool

/-! ## Layers that listen -/

variable [Elementary σ] [Elementary π]

theorem Layer.ends_of_mem_reaction {channel key : ℕ} {l : Layer σ} {call : VoicePool.Call σ π}
    (h : call ∈ l.reaction (.noteOff channel key)) : call.Ends := by
  rw [reaction] at h
  split at h
  · rcases List.mem_cons.mp h with rfl | h
    · exact trivial
    · obtain ⟨v, hv, rfl⟩ := List.mem_map.mp h
      exact (mem_noteOffStarts hv).2.2.2.1
  · exact absurd h List.not_mem_nil

variable [Precision σ π]

theorem letGo_reactions {channel key : ℕ} (layers : List (Layer σ)) (p : VoicePool σ π) :
    ∀ l ∈ layers, l.controls.accepts channel = true →
      ∀ v ∈ (p.run (layers.flatMap (Layer.reaction (.noteOff channel key)))).sounding,
        v.LetGo l.index key channel := by
  have hends : ∀ layers : List (Layer σ),
      ∀ call ∈ layers.flatMap (Layer.reaction (π := π) (.noteOff channel key)), call.Ends := by
    intro layers call hcall
    obtain ⟨l, -, hcall⟩ := List.mem_flatMap.mp hcall
    exact Layer.ends_of_mem_reaction hcall
  induction layers generalizing p with
  | nil => exact fun l hl => absurd hl List.not_mem_nil
  | cons first rest ih =>
      intro l hl haccepts
      rw [List.flatMap_cons, VoicePool.run_append]
      rcases List.mem_cons.mp hl with rfl | hl
      -- The layer releases first; what it starts and what later layers do holds nothing.
      · apply VoicePool.letGo_run (hends rest)
        rw [Layer.reaction, if_pos haccepts]
        refine VoicePool.letGo_run (p := p.perform (.release l.index key channel)) ?_
          (p.letGo_release l.index key channel)
        intro call hcall
        obtain ⟨v, hv, rfl⟩ := List.mem_map.mp hcall
        exact (Layer.mem_noteOffStarts hv).2.2.2.1
      · exact ih _ l hl haccepts

namespace Engine

section

variable [Transform σ γ]

/-- Right after a note-off has been handled, in any block of any run, a voice
that its key still holds sounds in a layer that does not listen to the channel. -/
theorem noteOff_lets_go (s : EngineSetup) (calls : List (Call σ π)) (events : List MidiEvent)
    {event : MidiEvent} {channel key : ℕ} (h : event.message? = some (.noteOff channel key)) :
    let e : Engine σ π γ := ((create s).run calls).midBlock (events ++ [event])
    ∀ v ∈ e.ensemble.pool.sounding, v.oneShot = false → v.key = key → v.channel = channel →
      v.Holds → ∃ l, e.layers[v.layer]? = some l ∧ l.controls.accepts channel = false := by
  intro e v hv hshot hkey hchannel hholds
  let before : Engine σ π γ := ((create s).run calls).midBlock events
  have he : e = before.handleMidi event := List.foldl_append
  have hwired : e.Wired := ((wired_create s).run calls).midBlock _
  -- Layers stand in their places, so the voice's layer is the one at its index.
  obtain ⟨l, hl, hindex⟩ : ∃ l, e.layers[v.layer]? = some l ∧ l.index = v.layer := by
    have hget : (e.layers.map Layer.index)[v.layer]? = some v.layer := by
      rw [hwired.layers]
      exact List.getElem?_range (hwired.voices v hv)
    rw [List.getElem?_map] at hget
    exact Option.map_eq_some_iff.mp hget
  refine ⟨l, hl, ?_⟩
  by_contra haccepts
  rw [Bool.not_eq_false] at haccepts
  have hlayers : e.layers = before.layers := by
    rw [he, handleMidi_eq, heardBy, h]
    exact List.map_id _
  have hpool : e.ensemble.pool = before.ensemble.pool.run
      (before.layers.flatMap (Layer.reaction (.noteOff channel key))) := by
    rw [he, handleMidi_eq, Ensemble.obeyAll_eq, reactions, h]
  have hletGo := letGo_reactions before.layers before.ensemble.pool l
    (hlayers ▸ List.mem_of_getElem? hl) haccepts v (hpool ▸ hv)
  exact hletGo hshot hindex.symm hkey hchannel hholds

/-- A key also comes up with a note-on that has no velocity. -/
example : (MidiEvent.noteOn 0 3 60 0).message? = some (.noteOff 3 60) := by decide

end

/-! ## A voice that goes on -/

/-- An instrument with one region, which loops over all of its two frames. -/
noncomputable def drone : LoadedInstrument ℝ where
  id := 0
  library := ⟨{}, "drone.lua", [], []⟩
  instrument := { name := "Drone", regions := [{}] }
  regions := [some ⟨⟨0, AudioBuffer.ofSamples #[1, 1] 1 1000⟩, some ⟨0, 2, 0, false⟩⟩]

def droneSetup : EngineSetup :=
  ⟨1000, 1, ⟨0⟩, ⟨0⟩, 1⟩

/-- A block in which a key goes down on the first channel. -/
noncomputable def droneBlock : BlockRequest ℝ :=
  ⟨0, 1000, Scalar.ofNat 120, [.noteOn 0 0 60 127], 0⟩

/-- The first layer gets the drone, plays a key of the first channel and is
turned to the second. -/
noncomputable def droneCalls : List (Call ℝ ℝ) :=
  [.request (.layer 0 (.instrument (some drone))), .process droneBlock,
    .request (.layer 0 (.channel (some 2)))]

theorem noteOff_lets_go_drone :
    (MidiEvent.noteOff 0 0 60).message? = some (.noteOff 0 60) ∧
      let e : Engine ℝ ℝ (Fin 256 → ℝ) :=
        ((create droneSetup).run droneCalls).midBlock ([] ++ [.noteOff 0 0 60])
      ∀ v ∈ e.ensemble.pool.sounding, v.oneShot = false → v.key = 60 → v.channel = 0 →
        v.Holds → ∃ l, e.layers[v.layer]? = some l ∧ l.controls.accepts 0 = false :=
  ⟨by decide, noteOff_lets_go droneSetup droneCalls [] (by decide)⟩

/-- A voice of the first layer lasts through its block and through what the
other layers do about its key. -/
theorem mem_sounding_first_layer (attackFrames releaseFrames : ℕ) {v : VoiceStart ℝ ℝ}
    (hlayer : v.layer = 0) :
    let p : VoicePool ℝ ℝ := .empty 1 attackFrames releaseFrames
    p.voiceOf v ∈ (p.run [.releaseAll (some 0), .start v, .render 0 1000 [], .render 1 1000 [],
      .render 2 1000 [], .endBlock, .release 1 60 0, .release 2 60 0]).sounding := by
  obtain ⟨layer, key, channel, sound, sampleLoop, ratio, gain, oneShot⟩ := v
  dsimp only at hlayer
  subst hlayer
  intro p
  rw [VoicePool.mem_sounding]
  -- Whether there is an attack decides the stage, and a one-shot is never released.
  cases oneShot <;> cases attackFrames <;> exact List.mem_cons_self

/-- The key comes up on the first channel, and the voice that it started is
held all the same. -/
theorem noteOff_misses_turned_layer :
    let e : Engine ℝ ℝ (Fin 256 → ℝ) :=
      ((create droneSetup).run droneCalls).midBlock [.noteOff 0 0 60]
    (MidiEvent.noteOff 0 0 60).message? = some (.noteOff 0 60) ∧
      ∃ v ∈ e.ensemble.pool.sounding, v.oneShot = false ∧ v.key = 60 ∧ v.channel = 0 ∧
        v.Holds := by
  intro e
  let set : Engine ℝ ℝ (Fin 256 → ℝ) :=
    (create droneSetup).perform (.request (.layer 0 (.instrument (some drone))))
  let played := set.perform (.process droneBlock)
  let turned := played.perform (.request (.layer 0 (.channel (some 2))))
  obtain ⟨v, hcalls, hlayer, hkey, hchannel, hshot⟩ : ∃ v, set.poolCalls (.process droneBlock) =
      [.releaseAll (some 0), .start v, .render 0 1000 [], .render 1 1000 [], .render 2 1000 [],
        .endBlock] ∧ v.layer = 0 ∧ v.key = 60 ∧ v.channel = 0 ∧ v.oneShot = false :=
    ⟨_, rfl, rfl, rfl, rfl, rfl⟩
  have hplayed : played.layers = (set.blockLayers droneBlock.midi).map Layer.settled :=
    layers_process set rfl
  have hturned : turned.layers = played.layers.modify 0 fun l =>
      { l with controls := l.controls.setChannel (some 2) } := by
    have hlength : 0 < played.layers.length := by
      rw [hplayed]
      exact Nat.succ_pos 2
    simp only [turned, perform, request, modifyLayer, if_pos hlength, Except.toOption,
      Option.getD_some, LayerChange.apply]
  have hevents : turned.eventCalls [.noteOff 0 0 60] = [.release 1 60 0, .release 2 60 0] := by
    rw [eventCalls, hturned, hplayed]
    rfl
  let frames := framesFor ℝ droneSetup.attack droneSetup.sampleRate
  let empty : VoicePool ℝ ℝ := .empty 1 frames frames
  have hpool : e.ensemble.pool = empty.run [.releaseAll (some 0), .start v, .render 0 1000 [],
      .render 1 1000 [], .render 2 1000 [], .endBlock, .release 1 60 0, .release 2 60 0] := by
    have hsounding : turned.ensemble.pool = empty.run (set.poolCalls (.process droneBlock)) := by
      rw [perform_ensemble, perform_ensemble]
      rfl
    have he : e = turned.midBlock [.noteOff 0 0 60] := by
      simp only [e, turned, played, set, run, droneCalls, List.foldl_cons, List.foldl_nil]
    rw [he, midBlock_eq, hevents, hsounding, hcalls, ← VoicePool.run_append]
    rfl
  refine ⟨by decide, empty.voiceOf v, ?_, hshot, hkey, hchannel, empty.holds_voiceOf v⟩
  rw [hpool]
  exact mem_sounding_first_layer frames frames hlayer

end Engine

end Multisample
