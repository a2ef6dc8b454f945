import Mathlib.Tactic.Abel
import Multisample.Proofs.Engine.Calls

/-!
# What playback lets go of

Sounds are taken by voices, instruments by layers and convolvers by the reverb.
The books kept here say for each call what it takes and what it hands over, and
along every run they balance: what was taken is still held or was handed over,
and not both.  What was handed over has been freed, waits in the retire queue
or was dropped because the queue was full.
-/

namespace Multisample

variable {σ π γ : Type}

/-- An item as the retire queue sees it. -/
inductive Item where
  | sound (id : ℕ)
  | instrument (id : ℕ)
  | convolver (id : ℕ)
deriving DecidableEq

def Retired.item : Retired σ γ → Item
  | .sound s => .sound s.id
  | .instrument i => .instrument i.id
  | .convolver c => .convolver c.id

/-- An item with its holder: the serial number of a voice or the place of a
layer; there is one reverb only. -/
structure Asset where
  holder : ℕ
  item : Item
deriving DecidableEq

namespace Asset

def ofIdentity (identity : ℕ × VoiceStart σ π) : Asset :=
  ⟨identity.1, .sound identity.2.sound.id⟩

def ofVoice (v : Voice σ π) : Asset :=
  ofIdentity v.identity

def ofInstrument (layer : ℕ) (i : LoadedInstrument σ) : Asset :=
  ⟨layer, .instrument i.id⟩

def ofConvolver (id : ℕ) : Asset :=
  ⟨0, .convolver id⟩

/-- The serial number of the voice that holds a sound. -/
def serial? : Asset → Option ℕ
  | ⟨serial, .sound _⟩ => some serial
  | _ => none

def convolver? : Asset → Option ℕ
  | ⟨_, .convolver id⟩ => some id
  | _ => none

end Asset

/-! ## Rows of exchanges -/

/-- What is displaced along a row, and what is there in the end, is what was
there and what came. -/
theorem displaced_append_last {α : Type} (current : Option α) (row : List (Option α)) :
    displaced current row ++ (row.getLastD current).toList =
      current.toList ++ row.filterMap id := by
  induction row generalizing current with
  | nil => simp [displaced]
  | cons next rest ih =>
      rw [displaced, List.getLastD_cons, List.append_assoc, ih]
      cases next <;> rfl

variable [Elementary σ] [Elementary π] [Precision σ π] [Transform σ γ]

/-! ## The books -/

namespace Layer

omit [Elementary σ]

/-- What a layer takes when a block begins. -/
def takes (l : Layer σ) : List Asset :=
  if l.isStale then l.controls.instrument.toList.map (Asset.ofInstrument l.index) else []

/-- What a layer hands over when a block begins. -/
def gives (l : Layer σ) : List Asset :=
  l.replaced.map (Asset.ofInstrument l.index)

/-- What a layer holds. -/
def holds (l : Layer σ) : List Asset :=
  l.instrument.toList.map (Asset.ofInstrument l.index)

theorem holds_synced (l : Layer σ) :
    (l.synced.holds ++ l.gives).Perm (l.holds ++ l.takes) := by
  unfold holds gives takes synced replaced
  split
  · exact List.perm_append_comm
  · exact List.Perm.refl _

end Layer

namespace Engine

/-- What each call of a run contributes, read off the engine that the call
finds. -/
def along {α : Type} (f : Engine σ π γ → Call σ π → List α) :
    Engine σ π γ → List (Call σ π) → List α
  | _, [] => []
  | e, call :: rest => f e call ++ along f (e.perform call) rest

/-- Everything that voices, layers and the reverb hold. -/
def held (e : Engine σ π γ) : List Asset :=
  e.ensemble.pool.sounding.map Asset.ofVoice ++
    (e.layers.flatMap Layer.holds ++ e.chain.installed.toList.map Asset.ofConvolver)

/-- The sounds that voices take when they start. -/
def soundsTaken (p : VoicePool σ π) (calls : List (VoicePool.Call σ π)) : List Asset :=
  (VoicePool.along VoicePool.entrants p calls).map Asset.ofVoice

def soundsHanded (p : VoicePool σ π) (calls : List (VoicePool.Call σ π)) : List Asset :=
  (VoicePool.along VoicePool.leavers p calls).map Asset.ofVoice

/-- What a block takes before its events: layers take the instruments that were
set for them, and the reverb takes the convolvers that wait. -/
def exchangeTaken (e : Engine σ π γ) : List Asset :=
  e.layers.flatMap Layer.takes ++
    e.waiting.filterMap fun next => next.map fun c => Asset.ofConvolver c.id

def exchangeHanded (e : Engine σ π γ) : List Asset :=
  (displaced e.chain.installed (e.waiting.map (Option.map fun c => c.id))).map Asset.ofConvolver ++
    e.layers.flatMap Layer.gives

/-- What a block has taken once some of its events have been handled. -/
def takenWithin (e : Engine σ π γ) (events : List MidiEvent) : List Asset :=
  e.exchangeTaken ++ soundsTaken e.ensemble.pool (e.eventCalls events)

def handedWithin (e : Engine σ π γ) (events : List MidiEvent) : List Asset :=
  e.exchangeHanded ++ soundsHanded e.ensemble.pool (e.eventCalls events)

/-- What a call takes. -/
def takenBy (e : Engine σ π γ) : Call σ π → List Asset
  | .process b =>
      if (e.refusal? b).isNone then
        e.exchangeTaken ++ soundsTaken e.ensemble.pool (e.poolCalls (.process b))
      else []
  | _ => []

/-- What a call hands over. -/
def handedBy (e : Engine σ π γ) : Call σ π → List Asset
  | .process b =>
      if (e.refusal? b).isNone then
        e.exchangeHanded ++ soundsHanded e.ensemble.pool (e.poolCalls (.process b))
      else []
  | .rate sampleRate =>
      if sampleRate = e.sampleRate then []
      else
        soundsHanded e.ensemble.pool (e.poolCalls (.rate sampleRate)) ++
          e.chain.installed.toList.map Asset.ofConvolver
  | _ => []

/-- The number of items that a call frees. -/
def freedBy (e : Engine σ π γ) : Call σ π → List ℕ
  | .collect => [e.collect.2]
  | _ => []

/-- The number of items for which a call finds no room. -/
def droppedBy (e : Engine σ π γ) : Call σ π → List ℕ
  | .collect => []
  | call => [(e.perform call).overflow - e.overflow]

/-! ## One call -/

omit [Elementary σ] [Elementary π] [Precision σ π] [Transform σ γ] in
theorem id_getLastD (row : List (Option (Convolver σ γ))) (current : Option (Convolver σ γ)) :
    ((row.getLastD current).map Convolver.blueprint).map Blueprint.id =
      (row.map (Option.map fun c => c.id)).getLastD (current.map fun c => c.id) := by
  rw [List.getLastD_map, Option.map_map]
  rfl

theorem installed_applyControls (e : Engine σ π γ) : e.applyControls.chain.installed =
    (e.waiting.map (Option.map fun c => c.id)).getLastD e.chain.installed := by
  rw [EffectChain.installed_eq, blueprint?_applyControls, id_getLastD]
  rfl

/-- Which convolver a call leaves in the reverb. -/
theorem installed_perform (e : Engine σ π γ) (call : Call σ π) :
    (e.perform call).chain.installed = match call with
      | .process b =>
          if (e.refusal? b).isNone then
            (e.waiting.map (Option.map fun c => c.id)).getLastD e.chain.installed
          else e.chain.installed
      | .rate sampleRate => if sampleRate = e.sampleRate then e.chain.installed else none
      | _ => e.chain.installed := by
  have hlast : ((e.waiting.getLastD e.chain.convolver?).map Convolver.blueprint).map Blueprint.id =
      (e.waiting.map (Option.map fun c => c.id)).getLastD e.chain.installed := id_getLastD ..
  rw [EffectChain.installed_eq, blueprint?_perform, ← hlast, e.chain.installed_eq]
  cases call with
  | process b => exact apply_ite (Option.map Blueprint.id) ..
  | rate sampleRate => exact apply_ite (Option.map Blueprint.id) ..
  | _ => rfl

theorem sounds_conserved (p : VoicePool σ π) (calls : List (VoicePool.Call σ π)) :
    (↑((p.run calls).sounding.map Asset.ofVoice) + ↑(soundsHanded p calls) : Multiset Asset) =
      ↑(p.sounding.map Asset.ofVoice) + ↑(soundsTaken p calls) := by
  have h := congrArg (Multiset.map Asset.ofIdentity) (p.run_conserves calls)
  simp only [VoicePool.identities, Multiset.map_add, Multiset.map_coe, List.map_map] at h
  exact h

omit [Elementary σ] [Elementary π] [Precision σ π] [Transform σ γ] in
theorem holds_of_playing {layers more : List (Layer σ)} (h : playing layers = playing more) :
    layers.flatMap Layer.holds = more.flatMap Layer.holds := by
  have hholds : ∀ layers : List (Layer σ), layers.flatMap Layer.holds =
      (playing layers).flatMap fun p => p.2.toList.map (Asset.ofInstrument p.1) := fun layers => by
    rw [playing, List.flatMap_map]
    rfl
  rw [hholds, hholds, h]

omit [Elementary σ] [Elementary π] [Precision σ π] [Transform σ γ] in
theorem holds_synced (layers : List (Layer σ)) :
    (↑((layers.map Layer.synced).flatMap Layer.holds) + ↑(layers.flatMap Layer.gives) :
        Multiset Asset) =
      ↑(layers.flatMap Layer.holds) + ↑(layers.flatMap Layer.takes) := by
  induction layers with
  | nil => rfl
  | cons l rest ih =>
      have hl : (↑l.synced.holds + ↑l.gives : Multiset Asset) = ↑l.holds + ↑l.takes :=
        Multiset.coe_eq_coe.mpr l.holds_synced
      simp only [List.map_cons, List.flatMap_cons, ← Multiset.coe_add]
      rw [add_add_add_comm, hl, ih, add_add_add_comm]

omit [Transform σ γ] in
/-- The books of a block balance at every moment after its exchanges. -/
theorem held_of_exchange {e later : Engine σ π γ} {calls : List (VoicePool.Call σ π)}
    (hpool : later.ensemble.pool = e.ensemble.pool.run calls)
    (hplaying : playing later.layers = playing (e.layers.map Layer.synced))
    (hinstalled : later.chain.installed =
      (e.waiting.map (Option.map fun c => c.id)).getLastD e.chain.installed) :
    (↑later.held + ↑(e.exchangeHanded ++ soundsHanded e.ensemble.pool calls) : Multiset Asset) =
      ↑e.held + ↑(e.exchangeTaken ++ soundsTaken e.ensemble.pool calls) := by
  have hrow : ((e.waiting.map (Option.map fun c => c.id)).filterMap id).map Asset.ofConvolver =
      e.waiting.filterMap fun next => next.map fun c => Asset.ofConvolver c.id := by
    simp [List.filterMap_map, List.map_filterMap, Function.comp_def]
  have hconvolvers : (↑((displaced e.chain.installed
          (e.waiting.map (Option.map fun c => c.id))).map Asset.ofConvolver) +
        ↑(later.chain.installed.toList.map Asset.ofConvolver) : Multiset Asset) =
      ↑(e.chain.installed.toList.map Asset.ofConvolver) +
        ↑(e.waiting.filterMap fun next => next.map fun c => Asset.ofConvolver c.id) := by
    rw [hinstalled, Multiset.coe_add, Multiset.coe_add, ← List.map_append, displaced_append_last,
      List.map_append, hrow]
  have hinstruments := holds_synced e.layers
  have hsounds := sounds_conserved e.ensemble.pool calls
  rw [← holds_of_playing hplaying] at hinstruments
  rw [← hpool] at hsounds
  simp only [held, exchangeHanded, exchangeTaken, ← Multiset.coe_add]
  -- Voices, layers and the reverb each balance on their own.
  calc _ = (↑(later.ensemble.pool.sounding.map Asset.ofVoice) +
          ↑(soundsHanded e.ensemble.pool calls)) +
        (↑(later.layers.flatMap Layer.holds) + ↑(e.layers.flatMap Layer.gives)) +
        (↑((displaced e.chain.installed (e.waiting.map (Option.map fun c => c.id))).map
            Asset.ofConvolver) +
          ↑(later.chain.installed.toList.map Asset.ofConvolver) : Multiset Asset) := by abel
    _ = _ := by
      rw [hsounds, hinstruments, hconvolvers]
      abel

theorem held_midBlock (e : Engine σ π γ) (events : List MidiEvent) :
    (↑(e.midBlock events).held + ↑(e.handedWithin events) : Multiset Asset) =
      ↑e.held + ↑(e.takenWithin events) := by
  refine held_of_exchange ?_ ?_ ?_
  · rw [midBlock_eq]
  · rw [midBlock_eq]
    exact e.playing_blockLayers events
  · rw [midBlock_eq, installed_applyControls]

/-- A call loses nothing and hands nothing over that was not there. -/
theorem held_perform (e : Engine σ π γ) (call : Call σ π) :
    (↑(e.perform call).held + ↑(e.handedBy call) : Multiset Asset) =
      ↑e.held + ↑(e.takenBy call) := by
  have hpool : (e.perform call).ensemble.pool = e.ensemble.pool.run (e.poolCalls call) :=
    congrArg Ensemble.pool (e.perform_ensemble call)
  have hplaying := e.playing_perform call
  have hinstalled := e.installed_perform call
  cases call with
  | process b =>
      rw [handedBy, takenBy]
      by_cases h : (e.refusal? b).isNone = true
      · simp only [h, if_true] at hplaying hinstalled ⊢
        exact held_of_exchange hpool hplaying hinstalled
      · rw [perform_process, if_neg h, if_neg h, if_neg h]
  | rate sampleRate =>
      have hnothing : e.takenBy (.rate sampleRate) = [] := rfl
      rw [handedBy, hnothing]
      dsimp only at hplaying hinstalled
      by_cases h : sampleRate = e.sampleRate
      · rw [perform, setRate, if_pos h, if_pos h]
      · rw [if_neg h] at hinstalled ⊢
        have hsounds := sounds_conserved e.ensemble.pool (e.poolCalls (.rate sampleRate))
        have htaken : soundsTaken e.ensemble.pool (e.poolCalls (.rate sampleRate)) = [] := by
          rw [poolCalls, if_neg h]
          rfl
        rw [← hpool, htaken] at hsounds
        rw [held, held, holds_of_playing hplaying, hinstalled]
        simp only [← Multiset.coe_add]
        rw [add_add_add_comm, hsounds, Option.toList_none, List.map_nil, Multiset.coe_nil, add_zero,
          add_zero, add_zero]
  | _ =>
      rw [held, held, hpool, holds_of_playing hplaying, hinstalled]
      rfl

/-! ## The queue -/

/-- The same engine with another retire queue. -/
def withQueue (e : Engine σ π γ) (q : RetireQueue (Retired σ γ)) : Engine σ π γ :=
  { e with ensemble := { e.ensemble with queue := q } }

theorem exchanged_withQueue (e : Engine σ π γ) (q : RetireQueue (Retired σ γ)) :
    (e.withQueue q).exchanged = e.exchanged := by
  have hkept : ((e.withQueue q).mix.order = (e.withQueue q).appliedOrder) =
      (e.mix.order = e.appliedOrder) := rfl
  have horder : (e.withQueue q).applyOrder.chain = e.applyOrder.chain := by
    simp only [applyOrder, hkept]
    split <;> rfl
  rw [exchanged, tuned, horder]
  rfl

theorem handed_withQueue (e : Engine σ π γ) (q : RetireQueue (Retired σ γ)) (call : Call σ π) :
    (e.withQueue q).handed call = e.handed call := by
  cases call with
  | process b =>
      rw [handed, exchanged_withQueue]
      rfl
  | _ => rfl

omit [Transform σ γ] in
theorem item_sounds (p : VoicePool σ π) (calls : List (VoicePool.Call σ π)) :
    ((VoicePool.along VoicePool.released p calls).map (Retired.sound (γ := γ))).map Retired.item =
      (soundsHanded p calls).map Asset.item := by
  rw [soundsHanded, VoicePool.along_released]
  simp only [List.map_map]
  rfl

theorem item_exchanged (e : Engine σ π γ) :
    e.exchanged.map Retired.item = e.exchangeHanded.map Asset.item := by
  have hconvolvers : ((displaced e.tuned.convolver? e.waiting).map Retired.convolver).map
        Retired.item =
      ((displaced e.chain.installed (e.waiting.map (Option.map fun c => c.id))).map
        Asset.ofConvolver).map Asset.item := by
    rw [EffectChain.installed_eq, ← blueprint?_tuned, ← EffectChain.installed_eq,
      EffectChain.installed, ← displaced_map, List.map_map, List.map_map, List.map_map]
    rfl
  have hinstruments : ((e.layers.flatMap Layer.replaced).map
        (Retired.instrument (γ := γ))).map Retired.item =
      (e.layers.flatMap Layer.gives).map Asset.item := by
    simp only [List.map_flatMap, Layer.gives, List.map_map]
    rfl
  rw [exchanged, exchangeHanded, List.map_append, List.map_append, hconvolvers, hinstruments]

/-- What a call hands over is, item by item, what the books say. -/
theorem item_handed (e : Engine σ π γ) (call : Call σ π) :
    (e.handed call).map Retired.item = (e.handedBy call).map Asset.item := by
  cases call with
  | process b =>
      rw [handed, handedBy]
      split
      · rw [List.map_append, List.map_append, item_exchanged, soundsLeaving, item_sounds]
      · rfl
  | rate sampleRate =>
      rw [handed, handedBy]
      split
      · rfl
      · rw [List.map_append, List.map_append, soundsLeaving, item_sounds, EffectChain.installed]
        cases e.chain.convolver? <;> rfl
  | _ => rfl

/-- What a call hands over is queued or dropped, and what it frees was queued. -/
theorem pending_perform (e : Engine σ π γ) (call : Call σ π) :
    (e.perform call).ensemble.queue.pending.length + (e.freedBy call).sum +
          (e.droppedBy call).sum =
        e.ensemble.queue.pending.length + (e.handedBy call).length ∧
      (e.perform call).ensemble.queue.capacity = e.ensemble.queue.capacity ∧
      (e.ensemble.queue.pending.length ≤ e.ensemble.queue.capacity →
        (e.perform call).ensemble.queue.pending.length ≤ e.ensemble.queue.capacity) := by
  -- Every call but a collection only adds to the queue.
  have hretire : ∀ items : List (Retired σ γ), items.length = (e.handedBy call).length →
      (e.perform call).ensemble.queue = e.ensemble.queue.retireAll items →
        (e.perform call).ensemble.queue.pending.length +
            ((e.perform call).overflow - e.overflow) =
          e.ensemble.queue.pending.length + (e.handedBy call).length ∧
        (e.perform call).ensemble.queue.capacity = e.ensemble.queue.capacity ∧
        (e.ensemble.queue.pending.length ≤ e.ensemble.queue.capacity →
          (e.perform call).ensemble.queue.pending.length ≤ e.ensemble.queue.capacity) := by
    intro items hlength hqueue
    obtain ⟨hcapacity, hreceived, hoverflow, hpending⟩ := e.ensemble.queue.retireAll_spec items
    rw [overflow, overflow, hqueue, ← hlength]
    refine ⟨?_, hcapacity, hpending⟩
    unfold RetireQueue.received at hreceived
    omega
  have hlength : (e.handed call).length = (e.handedBy call).length := by
    rw [← List.length_map Retired.item, item_handed, List.length_map]
  have hqueue := congrArg Ensemble.queue (e.perform_ensemble call)
  cases call with
  | collect =>
      rw [hqueue]
      refine ⟨?_, rfl, fun _ => Nat.zero_le _⟩
      simp [RetireQueue.collect, freedBy, droppedBy, collect, Ensemble.collect, handedBy]
  | _ =>
      simp only [freedBy, droppedBy, List.sum_nil, List.sum_singleton, Nat.add_zero]
      exact hretire _ hlength hqueue

/-- Whatever the queue holds, it is given exactly what the books say. -/
theorem handed_perform (e : Engine σ π γ) {call : Call σ π} (h : call ≠ .collect) :
    ∃ items, items.map Retired.item = (e.handedBy call).map Asset.item ∧
      ∀ q, ((e.withQueue q).perform call).ensemble.queue = q.retireAll items := by
  refine ⟨e.handed call, e.item_handed call, ?_⟩
  intro q
  rw [perform_ensemble, ← e.handed_withQueue q call]
  cases call with
  | collect => exact absurd rfl h
  | _ => rfl

theorem handed_midBlock (e : Engine σ π γ) (events : List MidiEvent) :
    ∃ items, items.map Retired.item = (e.handedWithin events).map Asset.item ∧
      ∀ q, ((e.withQueue q).midBlock events).ensemble.queue = q.retireAll items := by
  refine ⟨e.exchanged ++ (VoicePool.along VoicePool.released e.ensemble.pool
    (e.eventCalls events)).map .sound, ?_, ?_⟩
  · rw [handedWithin, List.map_append, List.map_append, item_exchanged, item_sounds]
  · intro q
    rw [midBlock_eq, exchanged_withQueue]
    rfl

/-! ## Serial numbers and identities -/

omit [Elementary σ] [Elementary π] [Precision σ π] [Transform σ γ] in
theorem filterMap_takes {f : Asset → Option ℕ} (hf : ∀ layer id, f ⟨layer, .instrument id⟩ = none)
    (layers : List (Layer σ)) : (layers.flatMap Layer.takes).filterMap f = [] := by
  rw [List.filterMap_eq_nil_iff]
  intro a ha
  obtain ⟨l, -, ha⟩ := List.mem_flatMap.mp ha
  unfold Layer.takes at ha
  split at ha
  · obtain ⟨i, -, rfl⟩ := List.mem_map.mp ha
    exact hf _ _
  · exact absurd ha List.not_mem_nil

omit [Transform σ γ] in
theorem serials_takenBy (e : Engine σ π γ) (call : Call σ π) :
    (e.takenBy call).filterMap Asset.serial? =
      (VoicePool.along VoicePool.entrants e.ensemble.pool (e.poolCalls call)).map
        fun v => v.serial := by
  cases call with
  | process b =>
      have hconvolvers : (e.waiting.filterMap fun next => next.map fun c =>
          Asset.ofConvolver c.id).filterMap Asset.serial? = [] := by
        rw [List.filterMap_filterMap, List.filterMap_eq_nil_iff]
        intro next _
        cases next <;> rfl
      rw [takenBy]
      split
      · rw [exchangeTaken, List.filterMap_append, List.filterMap_append, hconvolvers,
          filterMap_takes (fun _ _ => rfl), soundsTaken, List.filterMap_map]
        exact congrFun (List.filterMap_eq_map (f := fun v : Voice σ π => v.serial)) _
      · rename_i h
        rw [poolCalls, if_neg h]
        rfl
  | rate sampleRate =>
      rw [poolCalls]
      split <;> rfl
  | _ => rfl

/-- The identities of the convolvers that wait. -/
def waitingIds (e : Engine σ π γ) : List ℕ :=
  e.waiting.filterMap (Option.map fun c => c.id)

omit [Elementary σ] [Elementary π] [Precision σ π] [Transform σ γ] in
theorem ids_exchangeTaken (e : Engine σ π γ) :
    e.exchangeTaken.filterMap Asset.convolver? = e.waitingIds := by
  rw [exchangeTaken, List.filterMap_append, filterMap_takes (fun _ _ => rfl), List.nil_append,
    List.filterMap_filterMap, waitingIds]
  apply List.filterMap_congr
  intro next _
  cases next <;> rfl

/-- Convolvers are numbered as they are set, and those that wait are taken in
this order. -/
theorem ids_perform (e : Engine σ π γ) (call : Call σ π) :
    e.nextConvolver ≤ (e.perform call).nextConvolver ∧
      ((e.takenBy call).filterMap Asset.convolver? ++ (e.perform call).waitingIds).Sublist
        (e.waitingIds ++
          List.range' e.nextConvolver ((e.perform call).nextConvolver - e.nextConvolver)) := by
  cases call with
  | process b =>
      have hsounds : (soundsTaken e.ensemble.pool (e.poolCalls (.process b))).filterMap
          Asset.convolver? = [] := by
        rw [soundsTaken, List.filterMap_map, List.filterMap_eq_nil_iff]
        exact fun _ _ => rfl
      rw [perform_process, takenBy]
      split
      · rw [List.filterMap_append, ids_exchangeTaken, hsounds, finish_eq, midBlock_eq,
          applyControls_eq]
        exact ⟨Nat.le_refl _, by simp [waitingIds]⟩
      · exact ⟨Nat.le_refl _, by simp⟩
  | rate sampleRate =>
      rw [perform]
      by_cases h : sampleRate = e.sampleRate
      · rw [setRate, if_pos h]
        exact ⟨Nat.le_refl _, by simp [takenBy]⟩
      · rw [setRate_eq e h]
        exact ⟨Nat.le_refl _, by simp [takenBy, waitingIds]⟩
  | collect => exact ⟨Nat.le_refl _, by simp [takenBy, perform, collect, waitingIds]⟩
  | request r =>
      obtain ⟨layers, mix, waiting, nextConvolver, h, -, hwaiting⟩ := e.request_eq r
      have hnothing : e.takenBy (.request r) = [] := rfl
      rw [perform, h, hnothing, List.filterMap_nil, List.nil_append]
      rcases hwaiting with ⟨rfl, rfl⟩ | ⟨next, rfl, rfl, hnext⟩
      · exact ⟨Nat.le_refl _, by simp [waitingIds]⟩
      · refine ⟨Nat.le_succ _, ?_⟩
        rw [waitingIds, List.filterMap_append, Nat.add_sub_cancel_left]
        refine List.Sublist.append (List.Sublist.refl _) ?_
        cases next with
        | none => exact List.nil_sublist _
        | some c => simp [hnext c rfl]

/-! ## Runs -/

theorem run_cons (e : Engine σ π γ) (call : Call σ π) (rest : List (Call σ π)) :
    e.run (call :: rest) = (e.perform call).run rest := rfl

theorem held_run (e : Engine σ π γ) (calls : List (Call σ π)) :
    (↑(e.run calls).held + ↑(along handedBy e calls) : Multiset Asset) =
      ↑e.held + ↑(along takenBy e calls) := by
  induction calls generalizing e with
  | nil => rfl
  | cons call rest ih =>
      have hcall := e.held_perform call
      have hrest := ih (e.perform call)
      simp only [run_cons, along, ← Multiset.coe_add]
      rw [add_left_comm, hrest, add_left_comm, ← add_assoc, hcall, add_assoc]

theorem pending_run (e : Engine σ π γ) (calls : List (Call σ π)) :
    (e.run calls).ensemble.queue.pending.length + (along freedBy e calls).sum +
          (along droppedBy e calls).sum =
        e.ensemble.queue.pending.length + (along handedBy e calls).length ∧
      (e.run calls).ensemble.queue.capacity = e.ensemble.queue.capacity ∧
      (e.ensemble.queue.pending.length ≤ e.ensemble.queue.capacity →
        (e.run calls).ensemble.queue.pending.length ≤ e.ensemble.queue.capacity) := by
  induction calls generalizing e with
  | nil => exact ⟨rfl, rfl, id⟩
  | cons call rest ih =>
      obtain ⟨hsum, hcapacity, hpending⟩ := e.pending_perform call
      obtain ⟨ihsum, ihcapacity, ihpending⟩ := ih (e.perform call)
      refine ⟨?_, ihcapacity.trans hcapacity, ?_⟩
      · simp only [run_cons, along, List.sum_append, List.length_append]
        omega
      · intro h
        exact hcapacity ▸ ihpending (hcapacity ▸ hpending h)

theorem serials_run (e : Engine σ π γ) (calls : List (Call σ π)) :
    e.ensemble.pool.nextSerial ≤ (e.run calls).ensemble.pool.nextSerial ∧
      (along takenBy e calls).filterMap Asset.serial? =
        List.range' e.ensemble.pool.nextSerial
          ((e.run calls).ensemble.pool.nextSerial - e.ensemble.pool.nextSerial) := by
  induction calls generalizing e with
  | nil => simp [run, along]
  | cons call rest ih =>
      obtain ⟨hle, hserials⟩ := e.ensemble.pool.serials_along (e.poolCalls call)
      obtain ⟨ihle, ihserials⟩ := ih (e.perform call)
      have hpool : (e.perform call).ensemble.pool = e.ensemble.pool.run (e.poolCalls call) :=
        congrArg Ensemble.pool (e.perform_ensemble call)
      rw [← hpool] at hle hserials
      refine ⟨hle.trans ihle, ?_⟩
      rw [along, List.filterMap_append, serials_takenBy, hserials, ihserials, run_cons]
      obtain ⟨n, hn⟩ := Nat.exists_eq_add_of_le hle
      obtain ⟨m, hm⟩ := Nat.exists_eq_add_of_le ihle
      rw [hm, hn, Nat.add_sub_cancel_left, Nat.add_sub_cancel_left, Nat.add_assoc,
        Nat.add_sub_cancel_left, List.range'_append_1]

theorem ids_run (e : Engine σ π γ) (calls : List (Call σ π)) :
    e.nextConvolver ≤ (e.run calls).nextConvolver ∧
      ((along takenBy e calls).filterMap Asset.convolver? ++ (e.run calls).waitingIds).Sublist
        (e.waitingIds ++
          List.range' e.nextConvolver ((e.run calls).nextConvolver - e.nextConvolver)) := by
  induction calls generalizing e with
  | nil => exact ⟨Nat.le_refl _, by simp [run, along]⟩
  | cons call rest ih =>
      obtain ⟨hle, hids⟩ := e.ids_perform call
      obtain ⟨ihle, ihids⟩ := ih (e.perform call)
      refine ⟨hle.trans ihle, ?_⟩
      rw [along, List.filterMap_append, run_cons, List.append_assoc]
      obtain ⟨n, hn⟩ := Nat.exists_eq_add_of_le hle
      obtain ⟨m, hm⟩ := Nat.exists_eq_add_of_le ihle
      rw [hn, Nat.add_sub_cancel_left] at hids
      rw [hm, hn, Nat.add_sub_cancel_left] at ihids
      rw [hm, hn, Nat.add_assoc, Nat.add_sub_cancel_left, ← List.range'_append_1]
      refine ((List.Sublist.refl _).append ihids).trans ?_
      rw [← List.append_assoc, ← List.append_assoc]
      -- What waits after the first call is taken by later ones.
      exact hids.append (List.Sublist.refl _)

omit [Precision σ π] [Transform σ γ] in
theorem held_create (s : EngineSetup) : (create s : Engine σ π γ).held = [] := by
  have hsounding : (create s : Engine σ π γ).ensemble.pool.sounding = [] :=
    VoicePool.sounding_empty ..
  rw [held, hsounding]
  rfl

/-- Along every run from a new engine, and after any events inside the next
block, what voices, layers and the reverb have taken is what they hold together
with what was handed over.  Each start takes a sound under a serial number of
its own, and no convolver is taken twice.  What was handed over has been freed,
waits in the queue, which never overfills, or was dropped; and whatever the
queue holds, it is given exactly what the books say, in order. -/
theorem handed_over_once (s : EngineSetup) (calls : List (Call σ π)) :
    let start : Engine σ π γ := create s
    let e := start.run calls
    (↑(along takenBy start calls) : Multiset Asset) = ↑e.held + ↑(along handedBy start calls) ∧
      (∀ events, (↑(along takenBy start calls ++ e.takenWithin events) : Multiset Asset) =
        ↑(e.midBlock events).held + ↑(along handedBy start calls ++ e.handedWithin events)) ∧
      (along takenBy start calls).filterMap Asset.serial? =
        List.range e.ensemble.pool.nextSerial ∧
      ((along takenBy start calls).filterMap Asset.convolver?).Nodup ∧
      (along handedBy start calls).length =
        (along freedBy start calls).sum + e.ensemble.queue.pending.length +
          (along droppedBy start calls).sum ∧
      e.ensemble.queue.pending.length ≤ e.ensemble.queue.capacity ∧
      e.ensemble.queue.capacity = max s.retireCapacity 1 ∧
      (∀ call, call ≠ .collect → ∃ items,
        items.map Retired.item = (e.handedBy call).map Asset.item ∧
          ∀ q, ((e.withQueue q).perform call).ensemble.queue = q.retireAll items) ∧
      ∀ events, ∃ items, items.map Retired.item = (e.handedWithin events).map Asset.item ∧
        ∀ q, ((e.withQueue q).midBlock events).ensemble.queue = q.retireAll items := by
  intro start e
  have hheld := start.held_run calls
  rw [held_create, Multiset.coe_nil, zero_add] at hheld
  obtain ⟨hsum, hcapacity, hpending⟩ := start.pending_run calls
  obtain ⟨-, hserials⟩ := start.serials_run calls
  obtain ⟨-, hids⟩ := start.ids_run calls
  refine ⟨hheld.symm, ?_, ?_, ?_, ?_, ?_, hcapacity, fun call hcall => e.handed_perform hcall,
    e.handed_midBlock⟩
  · intro events
    rw [← Multiset.coe_add, ← Multiset.coe_add, ← hheld, add_right_comm, ← e.held_midBlock events,
      add_right_comm, add_assoc]
  · rw [hserials, List.range_eq_range']
    rfl
  · exact (List.nodup_range' ..).sublist ((List.sublist_append_left _ _).trans hids)
  · have hempty : start.ensemble.queue.pending.length = 0 := rfl
    rw [hempty, Nat.zero_add] at hsum
    exact hsum.symm.trans (congrArg (· + _) (Nat.add_comm _ _))
  · exact hcapacity ▸ hpending (Nat.zero_le _)

end Engine

end Multisample
