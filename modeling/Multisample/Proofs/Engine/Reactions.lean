import Multisample.Engine.Session
import Multisample.Proofs.Playback.PoolRuns
import Multisample.Proofs.Playback.Retiring

/-!
# Reactions to messages

An ensemble passes calls on to its pool and retires the sounds that the pool
gives back.  Which calls a message leads to can be read off the layers alone,
before any of them is made, and so can the layers after the message.
-/

namespace Multisample

variable {σ π γ : Type}

/-- A state that each step of a row changes by some calls has gone through the
calls of the whole row. -/
theorem runOver_view {s α β κ τ : Type} (step : s → α → s × β) (view : s → τ)
    (perform : τ → κ → τ) (calls : α → List κ) (next : α → β)
    (hstep : ∀ state x, view (step state x).1 = (calls x).foldl perform (view state) ∧
      (step state x).2 = next x) (state : s) (xs : List α) :
    view (runOver step state xs).1 = (xs.flatMap calls).foldl perform (view state) ∧
      (runOver step state xs).2 = xs.map next := by
  induction xs generalizing state with
  | nil => exact ⟨rfl, rfl⟩
  | cons x xs ih =>
      obtain ⟨hview, hout⟩ := hstep state x
      obtain ⟨ihview, ihout⟩ := ih (step state x).1
      simp only [runOver, List.flatMap_cons, List.foldl_append, List.map_cons]
      exact ⟨by rw [ihview, hview], by rw [ihout, hout]⟩

/-! ## Ensembles -/

namespace Ensemble

variable [Scalar σ] [Scalar π] [Precision σ π]

/-- Passes a call on to the pool and retires the sounds that it gives back. -/
def obey (e : Ensemble σ π γ) (call : VoicePool.Call σ π) : Ensemble σ π γ :=
  ⟨e.pool.perform call, e.queue.retireAll ((e.pool.released call).map .sound)⟩

def obeyAll (e : Ensemble σ π γ) (calls : List (VoicePool.Call σ π)) : Ensemble σ π γ :=
  calls.foldl obey e

theorem obeyAll_append (e : Ensemble σ π γ) (calls more : List (VoicePool.Call σ π)) :
    e.obeyAll (calls ++ more) = (e.obeyAll calls).obeyAll more :=
  List.foldl_append

theorem obeyAll_eq (e : Ensemble σ π γ) (calls : List (VoicePool.Call σ π)) :
    e.obeyAll calls = ⟨e.pool.run calls,
      e.queue.retireAll ((VoicePool.along VoicePool.released e.pool calls).map .sound)⟩ := by
  induction calls generalizing e with
  | nil => rfl
  | cons call rest ih =>
      rw [obeyAll, List.foldl_cons, ← obeyAll, ih, VoicePool.along, List.map_append,
        RetireQueue.retireAll_append]
      rfl

end Ensemble

/-! ## Layers -/

namespace Layer

variable [Elementary σ] [Elementary π]

/-- The voices that triggered regions ask for. -/
def startsOf (l : Layer σ) (i : LoadedInstrument σ) (key channel : ℕ) (gain : σ) (oneShot : Bool)
    (hits : List (Triggered σ)) : List (VoiceStart σ π) :=
  hits.filterMap (l.voiceFor? i key channel gain oneShot)

/-- The voices that a layer asks for when a key goes down. -/
def noteOnStarts (l : Layer σ) (key velocity channel : ℕ) : List (VoiceStart σ π) :=
  match l.instrument with
  | none => []
  | some i =>
      l.startsOf i key channel (velocityGain velocity l.controls.velocityAmount) false
        (Selection.select i.instrument (l.event .noteOn key velocity))

/-- The voices that a layer asks for when a key comes up. -/
def noteOffStarts (l : Layer σ) (key channel : ℕ) : List (VoiceStart σ π) :=
  match l.instrument with
  | none => []
  | some i =>
      let velocity := l.velocities.getD (key % 128) 0
      l.startsOf i key channel (velocityGain velocity l.controls.velocityAmount) true
        (Selection.select i.instrument (l.event .noteOff key velocity))

/-- The calls that a message makes a layer send. -/
def reaction (message : MidiMessage) (l : Layer σ) : List (VoicePool.Call σ π) :=
  match message with
  | .noteOn channel key velocity =>
      if l.controls.accepts channel then (l.noteOnStarts key velocity channel).map .start else []
  | .noteOff channel key =>
      if l.controls.accepts channel then
        .release l.index key channel :: (l.noteOffStarts key channel).map .start
      else []
  | .controller channel number =>
      if l.controls.accepts channel then
        if number = Engine.allSoundOff then [.killAll (some l.index)]
        else if number = Engine.allNotesOff then [.releaseAll (some l.index)]
        else []
      else []

/-- A layer that was given a note remembers it. -/
def noted (l : Layer σ) (key velocity : ℕ) : Layer σ :=
  match l.instrument with
  | none => l
  | some _ =>
      { l with
        velocities := l.velocities.setIfInBounds (key % 128) velocity
        counter := (l.counter + 1) % (1 <<< 32) }

/-- A layer after a message. -/
def heard (message : MidiMessage) (l : Layer σ) : Layer σ :=
  match message with
  | .noteOn channel key velocity => if l.controls.accepts channel then l.noted key velocity else l
  | _ => l

omit [Elementary σ] in
/-- A message changes neither the place of a layer, nor what was set for it, nor
what it plays. -/
theorem heard_keeps (message : MidiMessage) (l : Layer σ) :
    (l.heard message).index = l.index ∧ (l.heard message).controls = l.controls ∧
      (l.heard message).instrument = l.instrument := by
  unfold heard noted
  split
  · split
    · split
      · exact ⟨rfl, rfl, rfl⟩
      · exact ⟨rfl, rfl, rfl⟩
    · exact ⟨rfl, rfl, rfl⟩
  · exact ⟨rfl, rfl, rfl⟩

/-- A voice that a layer asks for plays a region of an instrument in that layer. -/
theorem mem_startsOf {l : Layer σ} {i : LoadedInstrument σ} {key channel : ℕ} {gain : σ}
    {oneShot : Bool} {hits : List (Triggered σ)} {v : VoiceStart σ π}
    (h : v ∈ l.startsOf i key channel gain oneShot hits) :
    v.layer = l.index ∧ v.key = key ∧ v.channel = channel ∧ v.oneShot = oneShot ∧
      ∃ region, some region ∈ i.regions ∧ v.sound = region.sound ∧
        v.sampleLoop = region.sampleLoop := by
  obtain ⟨hit, -, hv⟩ := List.mem_filterMap.mp h
  simp only [voiceFor?, Option.bind_eq_bind, Option.bind_eq_some_iff, Option.pure_def,
    Option.some.injEq] at hv
  obtain ⟨playable, hplayable, region, -, rfl⟩ := hv
  refine ⟨rfl, rfl, rfl, rfl, playable, ?_, rfl, rfl⟩
  exact List.mem_of_getElem? (Option.join_eq_some_iff.mp hplayable)

theorem mem_noteOnStarts {l : Layer σ} {key velocity channel : ℕ} {v : VoiceStart σ π}
    (h : v ∈ l.noteOnStarts key velocity channel) :
    v.layer = l.index ∧ v.key = key ∧ v.channel = channel ∧ v.oneShot = false := by
  unfold noteOnStarts at h
  split at h
  · exact absurd h List.not_mem_nil
  · obtain ⟨hlayer, hkey, hchannel, hshot, -⟩ := mem_startsOf h
    exact ⟨hlayer, hkey, hchannel, hshot⟩

/-- What a layer starts when a key comes up are one-shots, each with the audio
and the loop of a region of its instrument. -/
theorem mem_noteOffStarts {l : Layer σ} {key channel : ℕ} {v : VoiceStart σ π}
    (h : v ∈ l.noteOffStarts key channel) :
    v.layer = l.index ∧ v.key = key ∧ v.channel = channel ∧ v.oneShot = true ∧
      ∃ i region, l.instrument = some i ∧ some region ∈ i.regions ∧ v.sound = region.sound ∧
        v.sampleLoop = region.sampleLoop := by
  unfold noteOffStarts at h
  split at h
  · exact absurd h List.not_mem_nil
  · rename_i i hi
    obtain ⟨hlayer, hkey, hchannel, hshot, region, hregion⟩ := mem_startsOf h
    exact ⟨hlayer, hkey, hchannel, hshot, i, region, hi, hregion⟩

/-- Whatever a message makes a layer start sounds in that layer. -/
theorem layer_of_start_mem_reaction {message : MidiMessage} {l : Layer σ} {v : VoiceStart σ π}
    (h : .start v ∈ l.reaction message) : v.layer = l.index := by
  have hstarts : ∀ starts : List (VoiceStart σ π), VoicePool.Call.start v ∈ starts.map .start →
      v ∈ starts := by
    intro starts hv
    obtain ⟨w, hw, heq⟩ := List.mem_map.mp hv
    exact VoicePool.Call.start.inj heq ▸ hw
  cases message with
  | noteOn channel key velocity =>
      rw [reaction] at h
      split at h
      · exact (mem_noteOnStarts (hstarts _ h)).1
      · exact absurd h List.not_mem_nil
  | noteOff channel key =>
      rw [reaction] at h
      split at h
      · rcases List.mem_cons.mp h with h | h
        · cases h
        · exact (mem_noteOffStarts (hstarts _ h)).1
      · exact absurd h List.not_mem_nil
  | controller channel number =>
      rw [reaction] at h
      split at h
      · split at h
        · simp at h
        · split at h <;> simp at h
      · exact absurd h List.not_mem_nil

variable [Precision σ π]

theorem startVoices_fst (l : Layer σ) (i : LoadedInstrument σ) (key channel : ℕ) (gain : σ)
    (oneShot : Bool) (e : Ensemble σ π γ) (hits : List (Triggered σ)) :
    (l.startVoices i key channel gain oneShot e hits).1 =
      e.obeyAll ((l.startsOf i key channel gain oneShot hits).map .start) := by
  unfold startVoices startsOf
  generalize 0 = failed
  induction hits generalizing e failed with
  | nil => rfl
  | cons hit hits ih =>
      rw [List.foldl_cons]
      cases h : (l.voiceFor? i key channel gain oneShot hit : Option (VoiceStart σ π)) with
      | none => rw [ih, List.filterMap_cons_none h]
      | some v =>
          rw [ih, List.filterMap_cons_some h]
          rfl

theorem noteOn_eq (l : Layer σ) (key velocity channel : ℕ) (e : Ensemble σ π γ) :
    (l.noteOn key velocity channel e).2.1 =
      e.obeyAll ((l.noteOnStarts key velocity channel).map .start) := by
  unfold noteOn noteOnStarts
  cases l.instrument with
  | none => rfl
  | some i => exact l.startVoices_fst ..

omit [Precision σ π] in
theorem noteOn_fst (l : Layer σ) (key velocity channel : ℕ) (e : Ensemble σ π γ) :
    (l.noteOn key velocity channel e).1 = l.noted key velocity := by
  unfold noteOn noted
  cases l.instrument <;> rfl

theorem noteOff_eq (l : Layer σ) (key channel : ℕ) (e : Ensemble σ π γ) :
    (l.noteOff key channel e).1 =
      e.obeyAll (.release l.index key channel :: (l.noteOffStarts key channel).map .start) := by
  unfold noteOff noteOffStarts
  cases l.instrument with
  | none => rfl
  | some i => exact l.startVoices_fst ..

end Layer

/-! ## Messages -/

namespace Engine

variable [Elementary σ] [Elementary π] [Precision σ π]

/-- The calls that an event makes the layers send, layer by layer. -/
def reactions (layers : List (Layer σ)) (event : MidiEvent) : List (VoicePool.Call σ π) :=
  match event.message? with
  | none => []
  | some message => layers.flatMap (Layer.reaction message)

omit [Elementary σ] in
/-- The layers after an event. -/
def heardBy (layers : List (Layer σ)) (event : MidiEvent) : List (Layer σ) :=
  match event.message? with
  | none => layers
  | some message => layers.map (Layer.heard message)

/-- The calls that the events of a block lead to. -/
def reactionsAlong : List (Layer σ) → List MidiEvent → List (VoicePool.Call σ π)
  | _, [] => []
  | layers, event :: rest => reactions layers event ++ reactionsAlong (heardBy layers event) rest

theorem applyMessage_eq (message : MidiMessage) (state : Ensemble σ π γ × ℕ) (l : Layer σ) :
    (applyMessage message state l).1.1 = state.1.obeyAll (l.reaction message) ∧
      (applyMessage message state l).2 = l.heard message := by
  cases message with
  | noteOn channel key velocity =>
      unfold applyMessage Layer.reaction Layer.heard
      dsimp only
      split
      · exact ⟨l.noteOn_eq .., l.noteOn_fst ..⟩
      · exact ⟨rfl, rfl⟩
  | noteOff channel key =>
      unfold applyMessage Layer.reaction Layer.heard
      dsimp only
      split
      · exact ⟨l.noteOff_eq .., rfl⟩
      · exact ⟨rfl, rfl⟩
  | controller channel number =>
      unfold applyMessage Layer.reaction Layer.heard
      dsimp only
      split
      · split
        · exact ⟨rfl, rfl⟩
        · split <;> exact ⟨rfl, rfl⟩
      · exact ⟨rfl, rfl⟩

/-- An event reaches the ensemble as the calls of the layers and leaves the
rest of the engine as it is. -/
theorem handleMidi_eq (e : Engine σ π γ) (event : MidiEvent) :
    e.handleMidi event = { e with
      ensemble := e.ensemble.obeyAll (reactions e.layers event)
      layers := heardBy e.layers event
      failedStarts := (e.handleMidi event).failedStarts } := by
  unfold handleMidi reactions heardBy
  cases event.message? with
  | none => rfl
  | some message =>
      obtain ⟨hensemble, hlayers⟩ := runOver_view (applyMessage message) Prod.fst Ensemble.obey
        (Layer.reaction message) (Layer.heard message) (applyMessage_eq message) (e.ensemble, 0)
        e.layers
      dsimp only
      rw [Ensemble.obeyAll, ← hensemble, ← hlayers]

theorem foldl_handleMidi (e : Engine σ π γ) (events : List MidiEvent) :
    events.foldl handleMidi e = { e with
      ensemble := e.ensemble.obeyAll (reactionsAlong e.layers events)
      layers := events.foldl heardBy e.layers
      failedStarts := (events.foldl handleMidi e).failedStarts } := by
  induction events generalizing e with
  | nil => rfl
  | cons event rest ih =>
      rw [List.foldl_cons, ih, handleMidi_eq, reactionsAlong, Ensemble.obeyAll_append,
        List.foldl_cons]

omit [Elementary σ] in
/-- Events change neither the places of the layers nor what was set for them. -/
theorem heardBy_map {α : Type} (f : Layer σ → α) (hf : ∀ message l, f (Layer.heard message l) = f l)
    (layers : List (Layer σ)) (event : MidiEvent) :
    (heardBy layers event).map f = layers.map f := by
  unfold heardBy
  split
  · rfl
  · rw [List.map_map]
    exact List.map_congr_left fun l _ => hf _ l

omit [Elementary σ] in
theorem foldl_heardBy_map {α : Type} (f : Layer σ → α)
    (hf : ∀ message l, f (Layer.heard message l) = f l) (layers : List (Layer σ))
    (events : List MidiEvent) : (events.foldl heardBy layers).map f = layers.map f := by
  induction events generalizing layers with
  | nil => rfl
  | cons event rest ih => rw [List.foldl_cons, ih, heardBy_map f hf]

omit [Precision σ π] in
theorem layer_of_start_mem_reactionsAlong {layers : List (Layer σ)} {events : List MidiEvent}
    {v : VoiceStart σ π} (h : .start v ∈ reactionsAlong layers events) :
    v.layer ∈ layers.map Layer.index := by
  induction events generalizing layers with
  | nil => exact absurd h List.not_mem_nil
  | cons event rest ih =>
      rcases List.mem_append.mp h with h | h
      · unfold reactions at h
        split at h
        · exact absurd h List.not_mem_nil
        · obtain ⟨l, hl, hv⟩ := List.mem_flatMap.mp h
          exact List.mem_map.mpr ⟨l, hl, (Layer.layer_of_start_mem_reaction hv).symm⟩
      · exact heardBy_map Layer.index (fun message l => (l.heard_keeps message).1) layers event ▸ ih h

end Engine

end Multisample
