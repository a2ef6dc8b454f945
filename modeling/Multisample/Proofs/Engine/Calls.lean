import Multisample.Proofs.Engine.Blocks
import Multisample.Proofs.Playback.Selecting

/-!
# Calls to the engine

The player changes controls, the host asks for blocks and for another rate, and
someone collects what has been retired; a call that is refused changes nothing.
For each call it is said here which calls it passes on to the pool and what it
hands to the retire queue.
-/

namespace Multisample

variable {σ π γ : Type}

/-- What the player can change about a layer. -/
inductive LayerChange (σ : Type) where
  | instrument (instrument : Option (LoadedInstrument σ))
  | gain (decibels : σ)
  | pan (pan : σ)
  | timbre (timbre : ℕ)
  | channel (channel : Option ℕ)
  | velocityAmount (amount : σ)
  | mute (muted : Bool)

def LayerChange.apply [Scalar σ] : LayerChange σ → LayerControls σ → LayerControls σ
  | .instrument i, c => { c with instrument := i }
  | .gain decibels, c => c.setGain decibels
  | .pan position, c => c.setPan position
  | .timbre position, c => c.setTimbre position
  | .channel number, c => c.setChannel number
  | .velocityAmount amount, c => c.setVelocityAmount amount
  | .mute on, c => { c with muted := on }

theorem map_modify_of_keeps {α β : Type} {f : α → α} {g : α → β} (h : ∀ a, g (f a) = g a)
    (xs : List α) (index : ℕ) : (xs.modify index f).map g = xs.map g := by
  induction xs generalizing index with
  | nil => rw [List.modify_nil]
  | cons x xs ih =>
      cases index with
      | zero => rw [List.modify_zero_cons, List.map_cons, h, List.map_cons]
      | succ index => rw [List.modify_succ_cons, List.map_cons, ih, List.map_cons]

namespace Engine

/-- What the player can ask for at any time. -/
inductive Request (σ : Type) where
  | layer (index : ℕ) (change : LayerChange σ)
  | master (decibels : σ)
  | order (kinds : List EffectKind)
  | enable (kind : EffectKind) (on : Bool)
  | param (kind : EffectKind) (index : ℕ) (value : σ)
  | response (response : Option (AudioBuffer σ))

/-- What can be asked of an engine. -/
inductive Call (σ π : Type) where
  | process (block : BlockRequest π)
  | rate (sampleRate : ℕ)
  | collect
  | request (r : Request σ)

variable [Elementary σ] [Elementary π] [Precision σ π] [Transform σ γ]

/-- The engine after a request; one that is refused changes nothing. -/
def request (e : Engine σ π γ) : Request σ → Engine σ π γ
  | .layer index change => (e.modifyLayer index change.apply).toOption.getD e
  | .master decibels => e.setMaster decibels
  | .order kinds => (e.setOrder kinds).toOption.getD e
  | .enable kind on => e.setEnabled kind on
  | .param kind index value => (e.setParam kind index value).toOption.getD e
  | .response response => (e.setResponse response).1

/-- The engine after a call; a refused block changes nothing either. -/
def perform (e : Engine σ π γ) : Call σ π → Engine σ π γ
  | .process block => (e.process block).toOption.elim e Prod.fst
  | .rate sampleRate => e.setRate sampleRate
  | .collect => e.collect.1
  | .request r => e.request r

def run (e : Engine σ π γ) (calls : List (Call σ π)) : Engine σ π γ :=
  calls.foldl perform e

theorem run_concat (e : Engine σ π γ) (calls : List (Call σ π)) (call : Call σ π) :
    e.run (calls ++ [call]) = (e.run calls).perform call :=
  List.foldl_concat ..

theorem run_append (e : Engine σ π γ) (calls more : List (Call σ π)) :
    e.run (calls ++ more) = (e.run calls).run more :=
  List.foldl_append ..

/-- The places of layers, with what they play. -/
def playing (layers : List (Layer σ)) : List (ℕ × Option (LoadedInstrument σ)) :=
  layers.map fun l => (l.index, l.instrument)

/-- A request changes what was set for the next block, and nothing that plays. -/
theorem request_eq (e : Engine σ π γ) (r : Request σ) :
    ∃ layers mix waiting nextConvolver,
      e.request r = { e with layers, mix, waiting, nextConvolver } ∧
        playing layers = playing e.layers ∧
        (waiting = e.waiting ∧ nextConvolver = e.nextConvolver ∨
          ∃ next : Option (Convolver σ γ), waiting = e.waiting ++ [next] ∧
            nextConvolver = e.nextConvolver + 1 ∧ ∀ c ∈ next, c.id = e.nextConvolver) := by
  have hkept : e.waiting = e.waiting ∧ e.nextConvolver = e.nextConvolver ∨
      ∃ next : Option (Convolver σ γ), e.waiting = e.waiting ++ [next] ∧
        e.nextConvolver = e.nextConvolver + 1 ∧ ∀ c ∈ next, c.id = e.nextConvolver :=
    Or.inl ⟨rfl, rfl⟩
  cases r with
  | layer index change =>
      rw [request, modifyLayer]
      split
      · refine ⟨_, e.mix, e.waiting, e.nextConvolver, rfl, ?_, hkept⟩
        refine map_modify_of_keeps ?_ e.layers index
        exact fun _ => rfl
      · exact ⟨e.layers, e.mix, e.waiting, e.nextConvolver, rfl, rfl, hkept⟩
  | master decibels => exact ⟨e.layers, _, e.waiting, e.nextConvolver, rfl, rfl, hkept⟩
  | order kinds =>
      rw [request, setOrder]
      split
      · exact ⟨e.layers, _, e.waiting, e.nextConvolver, rfl, rfl, hkept⟩
      · exact ⟨e.layers, e.mix, e.waiting, e.nextConvolver, rfl, rfl, hkept⟩
  | enable kind on => exact ⟨e.layers, _, e.waiting, e.nextConvolver, rfl, rfl, hkept⟩
  | param kind index value =>
      rw [request, setParam]
      split
      · exact ⟨e.layers, e.mix, e.waiting, e.nextConvolver, rfl, rfl, hkept⟩
      · exact ⟨e.layers, _, e.waiting, e.nextConvolver, rfl, rfl, hkept⟩
  | response response =>
      rw [request, setResponse]
      split
      · refine ⟨e.layers, e.mix, _, _, rfl, rfl, Or.inr ⟨_, rfl, rfl, ?_⟩⟩
        intro c hc
        obtain ⟨a, -, rfl⟩ := Option.map_eq_some_iff.mp hc
        rfl
      · exact ⟨e.layers, e.mix, e.waiting, e.nextConvolver, rfl, rfl, hkept⟩

/-- The engine inside a block, after the events that have been handled so far. -/
def midBlock (e : Engine σ π γ) (events : List MidiEvent) : Engine σ π γ :=
  events.foldl handleMidi e.applyControls.syncLayers

/-- What a block does once its events have been handled. -/
def finish (e : Engine σ π γ) (b : BlockRequest π) : Engine σ π γ × List (Frame σ) :=
  let (e, mix) := e.renderLayers b.frames
  let (chain, mix) := e.chain.process ⟨b.tempo⟩ mix
  let (e, out) := { e with chain }.applyMaster mix
  let ensemble := e.ensemble.endBlock
  ({ e with
    ensemble
    activeVoices := ensemble.pool.activeCount
    blocks := e.blocks + 1 }, out)

theorem perform_process (e : Engine σ π γ) (b : BlockRequest π) :
    e.perform (.process b) =
      if (e.refusal? b).isNone then ((e.midBlock b.midi).finish b).1 else e := by
  rw [perform, process]
  cases e.refusal? b <;> rfl

/-! ## What the pool and the queue are given -/

/-- The layers of a block once its events have been handled. -/
def blockLayers (e : Engine σ π γ) (events : List MidiEvent) : List (Layer σ) :=
  events.foldl heardBy (e.layers.map Layer.synced)

/-- The calls that the events of a block pass on to the pool. -/
def eventCalls (e : Engine σ π γ) (events : List MidiEvent) : List (VoicePool.Call σ π) :=
  e.layers.flatMap Layer.farewell ++ reactionsAlong (e.layers.map Layer.synced) events

/-- What a block hands over before its events. -/
def exchanged (e : Engine σ π γ) : List (Retired σ γ) :=
  (displaced e.tuned.convolver? e.waiting).map .convolver ++
    (e.layers.flatMap Layer.replaced).map .instrument

theorem released_farewell (layers : List (Layer σ)) (p : VoicePool σ π) :
    VoicePool.along VoicePool.released p (layers.flatMap Layer.farewell) = [] := by
  apply VoicePool.along_eq_nil
  intro call hcall _
  obtain ⟨l, -, hcall⟩ := List.mem_flatMap.mp hcall
  unfold Layer.farewell at hcall
  split at hcall
  · rw [List.mem_singleton.mp hcall]
    rfl
  · exact absurd hcall List.not_mem_nil

theorem midBlock_eq (e : Engine σ π γ) (events : List MidiEvent) :
    e.midBlock events = { e.applyControls with
      layers := e.blockLayers events
      ensemble := ⟨e.ensemble.pool.run (e.eventCalls events),
        e.ensemble.queue.retireAll (e.exchanged ++
          (VoicePool.along VoicePool.released e.ensemble.pool (e.eventCalls events)).map .sound)⟩
      failedStarts := (e.midBlock events).failedStarts } := by
  unfold midBlock blockLayers eventCalls exchanged
  rw [foldl_handleMidi, syncLayers_eq, applyControls_eq, Ensemble.obeyAll_eq,
    VoicePool.along_append, released_farewell, List.nil_append, VoicePool.run_append,
    RetireQueue.retireAll_append, RetireQueue.retireAll_append]

/-- The calls that a call to the engine passes on to the pool. -/
def poolCalls (e : Engine σ π γ) : Call σ π → List (VoicePool.Call σ π)
  | .process b =>
      if (e.refusal? b).isNone then
        e.eventCalls b.midi ++ (renders (e.blockLayers b.midi) e.sampleRate b.frames ++ [.endBlock])
      else []
  | .rate sampleRate =>
      if sampleRate = e.sampleRate then []
      else [.killAll none,
        .setEnvelope (framesFor π e.attack sampleRate) (framesFor π e.release sampleRate)]
  | _ => []

/-- The sounds of the voices that a call makes leave. -/
def soundsLeaving (e : Engine σ π γ) (call : Call σ π) : List (Retired σ γ) :=
  (VoicePool.along VoicePool.released e.ensemble.pool (e.poolCalls call)).map .sound

/-- Everything that a call hands to the retire queue. -/
def handed (e : Engine σ π γ) : Call σ π → List (Retired σ γ)
  | .process b =>
      if (e.refusal? b).isNone then e.exchanged ++ e.soundsLeaving (.process b) else []
  | .rate sampleRate =>
      if sampleRate = e.sampleRate then []
      else e.soundsLeaving (.rate sampleRate) ++ e.chain.convolver?.toList.map .convolver
  | _ => []

theorem released_renders (layers : List (Layer σ)) (rate frames : ℕ) (p : VoicePool σ π) :
    VoicePool.along VoicePool.released p (renders layers rate frames) = [] := by
  apply VoicePool.along_eq_nil
  intro call hcall _
  obtain ⟨l, -, rfl⟩ := List.mem_map.mp hcall
  rfl

/-- The end of a block renders the layers, runs the chain once and frees what
has finished. -/
theorem finish_eq (e : Engine σ π γ) (b : BlockRequest π) : (e.finish b).1 = { e with
    ensemble := e.ensemble.obeyAll (renders e.layers e.sampleRate b.frames ++ [.endBlock])
    layers := e.layers.map Layer.settled
    chain := e.chain.perform (.process ⟨b.tempo⟩ (e.renderLayers b.frames).2)
    masterGain := gainOfDecibels e.mix.masterDecibels
    activeVoices := (e.finish b).1.activeVoices
    blocks := e.blocks + 1 } := by
  have hrender := e.renderLayers_eq b.frames
  rw [Ensemble.obeyAll_append, Ensemble.obeyAll_eq e.ensemble, released_renders]
  unfold finish
  generalize e.renderLayers b.frames = rendered at hrender ⊢
  obtain ⟨after, mix⟩ := rendered
  dsimp only at hrender
  subst hrender
  rfl

theorem setRate_eq (e : Engine σ π γ) {sampleRate : ℕ} (h : sampleRate ≠ e.sampleRate) :
    e.setRate sampleRate = { e with
      sampleRate
      chain := (e.chain.perform (.convolver none)).perform (.rate (Scalar.ofNat sampleRate))
      ensemble := ⟨e.ensemble.pool.run (e.poolCalls (.rate sampleRate)),
        e.ensemble.queue.retireAll (e.handed (.rate sampleRate))⟩ } := by
  rw [setRate, if_neg h, handed, if_neg h, soundsLeaving, poolCalls, if_neg h]
  dsimp only
  rw [installConvolver_eq, RetireQueue.retireAll_append]
  simp only [VoicePool.along, VoicePool.released, List.append_nil]
  rfl

/-- What a call does to the ensemble. -/
theorem perform_ensemble (e : Engine σ π γ) (call : Call σ π) :
    (e.perform call).ensemble = ⟨e.ensemble.pool.run (e.poolCalls call),
      match call with
      | .collect => e.ensemble.queue.collect.1
      | _ => e.ensemble.queue.retireAll (e.handed call)⟩ := by
  cases call with
  | process b =>
      rw [perform_process, handed, soundsLeaving, poolCalls]
      split
      · rw [finish_eq, Ensemble.obeyAll_eq, midBlock_eq, applyControls_eq]
        simp only [VoicePool.run_append, VoicePool.along_append, List.map_append,
          RetireQueue.retireAll_append]
      · rfl
  | rate sampleRate =>
      rw [perform]
      by_cases h : sampleRate = e.sampleRate
      · rw [setRate, if_pos h, handed, if_pos h, poolCalls, if_pos h]
        rfl
      · rw [setRate_eq e h]
  | collect => rfl
  | request r =>
      obtain ⟨layers, mix, waiting, nextConvolver, h, -⟩ := e.request_eq r
      rw [perform, h]
      rfl

/-- What a call leaves in the reverb. -/
theorem blueprint?_perform (e : Engine σ π γ) (call : Call σ π) :
    (e.perform call).chain.blueprint? = match call with
      | .process b =>
          if (e.refusal? b).isNone then
            (e.waiting.getLastD e.chain.convolver?).map Convolver.blueprint
          else e.chain.blueprint?
      | .rate sampleRate => if sampleRate = e.sampleRate then e.chain.blueprint? else none
      | _ => e.chain.blueprint? := by
  cases call with
  | process b =>
      rw [perform_process]
      dsimp only
      split
      · rw [finish_eq, EffectChain.blueprint?_perform, midBlock_eq]
        exact e.blueprint?_applyControls
      · rfl
  | rate sampleRate =>
      rw [perform]
      dsimp only
      split
      · rename_i h
        rw [setRate, if_pos h]
      · rename_i h
        rw [setRate_eq e h]
        exact EffectChain.blueprint?_perform ..
  | collect => rfl
  | request r =>
      obtain ⟨layers, mix, waiting, nextConvolver, h, -⟩ := e.request_eq r
      rw [perform, h]

/-! ## Layers and the voices in them -/

omit [Elementary σ] [Elementary π] [Precision σ π] [Transform σ γ] in
theorem playing_blockLayers (e : Engine σ π γ) (events : List MidiEvent) :
    playing (e.blockLayers events) = playing (e.layers.map Layer.synced) :=
  foldl_heardBy_map _ (fun message l => by
    obtain ⟨hindex, -, hinstrument⟩ := l.heard_keeps message
    rw [hindex, hinstrument]) _ events

theorem layers_process (e : Engine σ π γ) {b : BlockRequest π} (h : (e.refusal? b).isNone) :
    (e.perform (.process b)).layers = (e.blockLayers b.midi).map Layer.settled := by
  rw [perform_process, if_pos h, finish_eq, midBlock_eq]

/-- Only a block makes a layer pick up an instrument. -/
theorem playing_perform (e : Engine σ π γ) (call : Call σ π) :
    playing (e.perform call).layers = match call with
      | .process b =>
          if (e.refusal? b).isNone then playing (e.layers.map Layer.synced) else playing e.layers
      | _ => playing e.layers := by
  cases call with
  | process b =>
      dsimp only
      split
      · rename_i h
        rw [layers_process e h, ← playing_blockLayers, playing, List.map_map]
        rfl
      · rename_i h
        rw [perform_process, if_neg h]
  | rate sampleRate =>
      rw [perform]
      by_cases h : sampleRate = e.sampleRate
      · rw [setRate, if_pos h]
      · rw [setRate_eq e h]
  | collect => rfl
  | request r =>
      obtain ⟨layers, mix, waiting, nextConvolver, h, hplaying, -⟩ := e.request_eq r
      rw [perform, h]
      exact hplaying

omit [Elementary σ] [Elementary π] [Precision σ π] [Transform σ γ] in
theorem index_of_playing {layers more : List (Layer σ)} (h : playing layers = playing more) :
    layers.map Layer.index = more.map Layer.index := by
  have hfst := congrArg (List.map Prod.fst) h
  rwa [playing, playing, List.map_map, List.map_map] at hfst

omit [Elementary σ] [Elementary π] [Precision σ π] [Transform σ γ] in
theorem index_synced (layers : List (Layer σ)) :
    (layers.map Layer.synced).map Layer.index = layers.map Layer.index := by
  rw [List.map_map]
  exact List.map_congr_left fun l _ => l.synced_index

theorem index_perform (e : Engine σ π γ) (call : Call σ π) :
    (e.perform call).layers.map Layer.index = e.layers.map Layer.index := by
  have hperform := e.playing_perform call
  cases call with
  | process b =>
      dsimp only at hperform
      split at hperform
      · exact (index_of_playing hperform).trans (index_synced e.layers)
      · exact index_of_playing hperform
  | _ => exact index_of_playing hperform

omit [Precision σ π] [Transform σ γ] in
theorem layer_of_start_mem_eventCalls {e : Engine σ π γ} {events : List MidiEvent}
    {v : VoiceStart σ π} (h : .start v ∈ e.eventCalls events) :
    v.layer ∈ e.layers.map Layer.index := by
  rcases List.mem_append.mp h with h | h
  · obtain ⟨l, -, h⟩ := List.mem_flatMap.mp h
    unfold Layer.farewell at h
    split at h <;> simp at h
  · exact index_synced e.layers ▸ layer_of_start_mem_reactionsAlong h

omit [Precision σ π] [Transform σ γ] in
theorem layer_of_start_mem_poolCalls {e : Engine σ π γ} {call : Call σ π} {v : VoiceStart σ π}
    (h : .start v ∈ e.poolCalls call) : v.layer ∈ e.layers.map Layer.index := by
  cases call with
  | process b =>
      rw [poolCalls] at h
      split at h
      · rcases List.mem_append.mp h with h | h
        · exact layer_of_start_mem_eventCalls h
        · simp [renders] at h
      · exact absurd h List.not_mem_nil
  | rate sampleRate =>
      rw [poolCalls] at h
      split at h <;> simp at h
  | _ => exact absurd h List.not_mem_nil

/-- The layers stand in their places, and every voice sounds in one of them. -/
structure Wired (e : Engine σ π γ) : Prop where
  layers : e.layers.map Layer.index = List.range layerCount
  voices : ∀ v ∈ e.ensemble.pool.sounding, v.layer < layerCount

omit [Precision σ π] [Transform σ γ] in
theorem wired_create (s : EngineSetup) : (create s : Engine σ π γ).Wired where
  layers := by
    rw [create, List.map_map]
    exact List.map_id _
  voices := by simp [create]

omit [Transform σ γ] in
/-- Voices that layers start sound in these layers. -/
theorem Wired.voices_run {e : Engine σ π γ} (h : e.Wired) {calls : List (VoicePool.Call σ π)}
    (hcalls : ∀ v, .start v ∈ calls → v.layer ∈ e.layers.map Layer.index) :
    ∀ v ∈ (e.ensemble.pool.run calls).sounding, v.layer < layerCount := by
  intro v hv
  obtain ⟨w, hw, heq⟩ := VoicePool.mem_run hv
  have hlayer : w.layer = v.layer := congrArg (fun i => i.2.layer) heq
  rw [← hlayer]
  rcases List.mem_append.mp hw with hw | hw
  · exact h.voices w hw
  · exact List.mem_range.mp (h.layers ▸ hcalls _ (VoicePool.mem_entrants hw))

theorem Wired.perform {e : Engine σ π γ} (h : e.Wired) (call : Call σ π) :
    (e.perform call).Wired where
  layers := (e.index_perform call).trans h.layers
  voices := by
    rw [perform_ensemble]
    exact h.voices_run fun v hv => layer_of_start_mem_poolCalls hv

theorem Wired.run {e : Engine σ π γ} (h : e.Wired) (calls : List (Call σ π)) :
    (e.run calls).Wired := by
  induction calls generalizing e with
  | nil => exact h
  | cons call rest ih => exact ih (h.perform call)

theorem Wired.midBlock {e : Engine σ π γ} (h : e.Wired) (events : List MidiEvent) :
    (e.midBlock events).Wired where
  layers := by
    rw [midBlock_eq]
    exact (index_of_playing (e.playing_blockLayers events)).trans
      ((index_synced e.layers).trans h.layers)
  voices := by
    rw [midBlock_eq]
    exact h.voices_run fun v hv => layer_of_start_mem_eventCalls hv

end Engine

end Multisample
