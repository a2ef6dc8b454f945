import Mathlib.Data.List.DropRight
import Mathlib.Data.List.TakeWhile
import Multisample.Proofs.Engine.Calls
import Multisample.Proofs.Numeric.Exact

/-!
# Notes that layers remember

A layer counts its notes, for the round robin, and keeps the velocity of each
key.  Both are read off the history of the layer: the instruments that it picked
up and the notes that it was given, whatever came of them.  So the round robin
of an instrument is where the number of notes since it was picked up says.
-/

namespace Multisample

variable {σ π γ : Type}

/-! ## Histories -/

/-- What a layer goes through that it remembers; of a note also whether there
was an instrument to play it. -/
inductive LayerNews where
  | pickedUp
  | note (key velocity : ℕ) (installed : Bool)
deriving DecidableEq

namespace LayerNews

/-- The notes since an instrument was picked up last. -/
def notesSince (news : List LayerNews) : ℕ :=
  (news.rtakeWhile (· ≠ .pickedUp)).length

/-- The velocity of a note for this key that an instrument could play. -/
def velocityOn? (key : ℕ) : LayerNews → Option ℕ
  | .note k velocity true => if k = key then some velocity else none
  | _ => none

/-- The velocity of the last playable note on a key, 0 without one. -/
def lastVelocity (news : List LayerNews) (key : ℕ) : ℕ :=
  (news.filterMap (velocityOn? key)).getLastD 0

@[simp] theorem notesSince_pickedUp (news : List LayerNews) :
    notesSince (news ++ [.pickedUp]) = 0 := by
  simp [notesSince]

@[simp] theorem notesSince_note (news : List LayerNews) (key velocity : ℕ) (installed : Bool) :
    notesSince (news ++ [.note key velocity installed]) = notesSince news + 1 := by
  simp [notesSince]

@[simp] theorem lastVelocity_pickedUp (news : List LayerNews) (key : ℕ) :
    lastVelocity (news ++ [.pickedUp]) key = lastVelocity news key := by
  simp [lastVelocity, velocityOn?]

theorem lastVelocity_note (news : List LayerNews) (k velocity : ℕ) (installed : Bool) (key : ℕ) :
    lastVelocity (news ++ [.note k velocity installed]) key =
      if k = key ∧ installed = true then velocity else lastVelocity news key := by
  cases installed <;> by_cases h : k = key <;> simp [lastVelocity, velocityOn?, h]

end LayerNews

open LayerNews

/-- A note-on has one of the keys, and a velocity. -/
theorem MidiEvent.noteOn_bounds {event : MidiEvent} {channel key velocity : ℕ}
    (h : event.message? = some (.noteOn channel key velocity)) :
    key < 128 ∧ 0 < velocity ∧ velocity < 128 := by
  unfold message? at h
  split at h
  · cases h
  rename_i first rest _
  have hdata : ∀ value ∈ (rest.takeWhile (· < 128)).map UInt8.toNat, value < 128 := by
    intro value hvalue
    obtain ⟨byte, hbyte, rfl⟩ := List.mem_map.mp hvalue
    have hlt := List.mem_takeWhile_imp hbyte
    exact UInt8.lt_iff_toNat_lt.mp (of_decide_eq_true hlt)
  dsimp only at h
  split at h
  · cases h
  · rename_i heq
    rw [heq] at hdata
    split at h
    · cases h
    · rename_i hvelocity
      cases h
      exact ⟨hdata _ (by simp), Nat.pos_of_ne_zero hvelocity, hdata _ (by simp)⟩
  · cases h
  · cases h

namespace Layer

/-- What an event is to a layer. -/
def newsOf (l : Layer σ) (event : MidiEvent) : List LayerNews :=
  match event.message? with
  | some (.noteOn channel key velocity) =>
      if l.controls.accepts channel then [.note key velocity l.instrument.isSome] else []
  | _ => []

/-- What a block is to a layer: it may pick up an instrument, and under the
controls that it has then it is given notes. -/
def blockNews (l : Layer σ) (events : List MidiEvent) : List LayerNews :=
  (if l.isStale then [.pickedUp] else []) ++ events.flatMap l.synced.newsOf

/-- A layer that counts the notes since it picked up its instrument, and has the
velocities of the last ones. -/
structure Recalls (news : List LayerNews) (l : Layer σ) : Prop where
  counter : l.instrument.isSome → l.counter = notesSince news % 2 ^ 32
  keys : l.velocities.size = 128
  velocity : ∀ key < 128, l.velocities.getD key 0 = lastVelocity news key

theorem Recalls.ofIndex [Elementary σ] (index : ℕ) : (ofIndex index : Layer σ).Recalls [] where
  counter h := by simp [Layer.ofIndex] at h
  keys := by simp [Layer.ofIndex]
  velocity key hkey := by simp [Layer.ofIndex, lastVelocity, hkey]

variable {news : List LayerNews} {l : Layer σ}

/-- Only the instrument and the two memories matter. -/
theorem Recalls.congr {other : Layer σ} (h : l.Recalls news)
    (hinstrument : other.instrument = l.instrument) (hcounter : other.counter = l.counter)
    (hvelocities : other.velocities = l.velocities) : other.Recalls news where
  counter := by rw [hinstrument, hcounter]; exact h.counter
  keys := by rw [hvelocities]; exact h.keys
  velocity := by rw [hvelocities]; exact h.velocity

theorem Recalls.synced (h : l.Recalls news) :
    l.synced.Recalls (news ++ if l.isStale then [.pickedUp] else []) := by
  unfold Layer.synced
  split
  · refine ⟨fun _ => ?_, h.keys, fun key hkey => ?_⟩
    · rw [notesSince_pickedUp]
      rfl
    · rw [lastVelocity_pickedUp]
      exact h.velocity key hkey
  · rwa [List.append_nil]

theorem Recalls.noted (h : l.Recalls news) {key : ℕ} (hkey : key < 128) (velocity : ℕ) :
    (l.noted key velocity).Recalls (news ++ [.note key velocity l.instrument.isSome]) := by
  unfold Layer.noted
  split
  · -- The note is not counted, but an instrument that comes later is picked up first.
    rename_i hnone
    refine ⟨fun hsome => ?_, h.keys, fun k hk => ?_⟩
    · simp [hnone] at hsome
    · rw [lastVelocity_note, hnone, if_neg (by simp)]
      exact h.velocity k hk
  · rename_i i hsome
    have hinstalled : l.instrument.isSome = true := by rw [hsome]; rfl
    refine ⟨fun _ => ?_, by simp [h.keys], fun k hk => ?_⟩
    · rw [notesSince_note]
      show (l.counter + 1) % 2 ^ 32 = _
      rw [h.counter hinstalled, Nat.mod_add_mod]
    · rw [lastVelocity_note, hinstalled, Nat.mod_eq_of_lt hkey]
      have hvelocity := h.velocity k hk
      rw [Array.getD_eq_getD_getElem?] at hvelocity ⊢
      rw [Array.getElem?_setIfInBounds, h.keys, if_pos hkey]
      by_cases hsame : key = k
      · rw [if_pos hsame, if_pos ⟨hsame, rfl⟩]
        rfl
      · rw [if_neg hsame, if_neg fun heq => hsame heq.1]
        exact hvelocity

/-- A layer after an event. -/
def hears (l : Layer σ) (event : MidiEvent) : Layer σ :=
  event.message?.elim l l.heard

theorem hears_keeps (l : Layer σ) (event : MidiEvent) :
    (l.hears event).controls = l.controls ∧ (l.hears event).instrument = l.instrument := by
  unfold hears
  cases event.message? with
  | none => exact ⟨rfl, rfl⟩
  | some message => exact (l.heard_keeps message).2

/-- An event that a layer hears is a note to be counted, or nothing to remember. -/
theorem Recalls.hears (h : l.Recalls news) (event : MidiEvent) :
    (l.hears event).Recalls (news ++ l.newsOf event) := by
  unfold Layer.hears newsOf
  cases hmessage : event.message? with
  | none => rwa [List.append_nil]
  | some message =>
      rw [Option.elim_some]
      unfold heard
      cases message with
      | noteOn channel key velocity =>
          dsimp only
          split
          · exact h.noted (MidiEvent.noteOn_bounds hmessage).1 velocity
          · rwa [List.append_nil]
      | noteOff channel key => rwa [List.append_nil]
      | controller channel number => rwa [List.append_nil]

theorem newsOf_congr {other : Layer σ} (hcontrols : other.controls = l.controls)
    (hinstrument : other.instrument = l.instrument) (event : MidiEvent) :
    other.newsOf event = l.newsOf event := by
  unfold newsOf
  rw [hcontrols, hinstrument]

theorem Recalls.foldl_hears (h : l.Recalls news) (events : List MidiEvent) :
    (events.foldl Layer.hears l).Recalls (news ++ events.flatMap l.newsOf) := by
  induction events generalizing l news with
  | nil => simpa using h
  | cons event rest ih =>
      obtain ⟨hcontrols, hinstrument⟩ := l.hears_keeps event
      have hrest := ih (h.hears event)
      -- An event changes neither the channels nor the instrument: the rest is the same news.
      have hsame : (l.hears event).newsOf = l.newsOf :=
        funext (newsOf_congr hcontrols hinstrument)
      rwa [hsame, List.append_assoc, ← List.flatMap_cons] at hrest

/-- A layer inside a block, after some of its events. -/
def within (events : List MidiEvent) (l : Layer σ) : Layer σ :=
  events.foldl hears l.synced

theorem Recalls.within (h : l.Recalls news) (events : List MidiEvent) :
    (l.within events).Recalls (news ++ l.blockNews events) := by
  rw [blockNews, ← List.append_assoc]
  exact h.synced.foldl_hears events

/-- A note starts the first regions that answer it at the turn that the counter
has come to. -/
theorem noteOn_triggers [Elementary σ] [Elementary π] [Precision σ π] {i : LoadedInstrument σ}
    (hi : l.instrument = some i) (key velocity channel : ℕ) (e : Ensemble σ π γ) :
    let hits := Selection.select i.instrument (l.event .noteOn key velocity)
    (l.noteOn key velocity channel e).2 = l.startVoices i key channel
        (velocityGain velocity l.controls.velocityAmount) false e hits ∧
      hits.map Triggered.region = (Selection.answering i.instrument .noteOn key
        (Selection.percent velocity) l.controls.timbre
        (l.counter % (i.instrument.maxRoundRobin + 1))).take 32 := by
  refine ⟨?_, Selection.select_regions i.instrument _⟩
  unfold noteOn
  rw [hi]

end Layer

/-! ## Runs -/

namespace Engine

variable [Elementary σ] [Elementary π] [Precision σ π]

omit [Elementary σ] [Elementary π] [Precision σ π] in
theorem foldl_heardBy (layers : List (Layer σ)) (events : List MidiEvent) :
    events.foldl heardBy layers = layers.map fun l => events.foldl Layer.hears l := by
  have hone : ∀ (layers : List (Layer σ)) event,
      heardBy layers event = layers.map fun l => l.hears event := by
    intro layers event
    unfold heardBy Layer.hears
    cases event.message? with
    | none => exact (List.map_id _).symm
    | some message => rfl
  induction events generalizing layers with
  | nil => exact (List.map_id _).symm
  | cons event rest ih =>
      rw [List.foldl_cons, ih, hone, List.map_map]
      rfl

omit [Elementary σ] [Elementary π] [Precision σ π] in
theorem blockLayers_eq (e : Engine σ π γ) (events : List MidiEvent) :
    e.blockLayers events = e.layers.map (Layer.within events) := by
  rw [blockLayers, foldl_heardBy, List.map_map]
  rfl

variable [Transform σ γ]

/-- What a block is to the layer in a place. -/
def blockNews (e : Engine σ π γ) (index : ℕ) (events : List MidiEvent) : List LayerNews :=
  (e.layers[index]?).elim [] fun l => l.blockNews events

/-- What a call is to the layer in a place. -/
def callNews (e : Engine σ π γ) (index : ℕ) : Call σ π → List LayerNews
  | .process b => if (e.refusal? b).isNone then e.blockNews index b.midi else []
  | _ => []

/-- What a run of calls is to the layer in a place. -/
def history (e : Engine σ π γ) (index : ℕ) : List (Call σ π) → List LayerNews
  | [] => []
  | call :: rest => e.callNews index call ++ (e.perform call).history index rest

/-- The layer in a place, if there is one, recalls what has happened to it. -/
def RecallsAt (e : Engine σ π γ) (index : ℕ) (news : List LayerNews) : Prop :=
  ∀ l, e.layers[index]? = some l → l.Recalls news

/-- Changes to what layers are asked for leave their memories alone. -/
theorem layers_request (e : Engine σ π γ) (r : Request σ) (index : ℕ) :
    ∃ f : LayerControls σ → LayerControls σ,
      (e.request r).layers[index]? = (e.layers[index]?).map fun l =>
        { l with controls := f l.controls } := by
  have hsame : (e.request r).layers = e.layers → ∃ f : LayerControls σ → LayerControls σ,
      (e.request r).layers[index]? = (e.layers[index]?).map fun l =>
        { l with controls := f l.controls } := by
    intro h
    rw [h]
    exact ⟨id, Option.map_id'.symm⟩
  cases r with
  | layer place change =>
      rw [request, modifyLayer]
      split
      · refine ⟨if place = index then change.apply else id, ?_⟩
        rw [Except.toOption, Option.getD_some, List.getElem?_modify]
        split <;> rfl
      · exact ⟨id, Option.map_id'.symm⟩
  | param kind place value =>
      apply hsame
      rw [request, setParam]
      split <;> rfl
  | response response =>
      apply hsame
      rw [request, setResponse]
      split <;> rfl
  | order kinds =>
      apply hsame
      rw [request, setOrder]
      split <;> rfl
  | _ => exact hsame rfl

theorem RecallsAt.perform {e : Engine σ π γ} {index : ℕ} {news : List LayerNews}
    (h : e.RecallsAt index news) (call : Call σ π) :
    (e.perform call).RecallsAt index (news ++ e.callNews index call) := by
  intro l hl
  cases call with
  | process b =>
      by_cases hrefusal : (e.refusal? b).isNone = true
      · rw [callNews, if_pos hrefusal]
        rw [layers_process e hrefusal, blockLayers_eq, List.map_map, List.getElem?_map] at hl
        obtain ⟨before, hbefore, rfl⟩ := Option.map_eq_some_iff.mp hl
        rw [blockNews, hbefore]
        exact ((h before hbefore).within b.midi).congr rfl rfl rfl
      · rw [callNews, if_neg hrefusal, List.append_nil]
        rw [perform_process, if_neg hrefusal] at hl
        exact h l hl
  | rate sampleRate =>
      show l.Recalls (news ++ [])
      rw [List.append_nil]
      refine h l ?_
      rw [← hl, Engine.perform]
      by_cases hrate : sampleRate = e.sampleRate
      · rw [setRate, if_pos hrate]
      · rw [setRate_eq e hrate]
  | collect =>
      show l.Recalls (news ++ [])
      rw [List.append_nil]
      exact h l hl
  | request r =>
      show l.Recalls (news ++ [])
      rw [List.append_nil]
      obtain ⟨f, hf⟩ := e.layers_request r index
      rw [Engine.perform, hf] at hl
      obtain ⟨before, hbefore, rfl⟩ := Option.map_eq_some_iff.mp hl
      exact (h before hbefore).congr rfl rfl rfl

theorem RecallsAt.run {e : Engine σ π γ} {index : ℕ} {news : List LayerNews}
    (h : e.RecallsAt index news) (calls : List (Call σ π)) :
    (e.run calls).RecallsAt index (news ++ e.history index calls) := by
  induction calls generalizing e news with
  | nil => rwa [history, List.append_nil]
  | cons call rest ih =>
      rw [history, ← List.append_assoc]
      exact ih (h.perform call)

theorem RecallsAt.midBlock {e : Engine σ π γ} {index : ℕ} {news : List LayerNews}
    (h : e.RecallsAt index news) (events : List MidiEvent) :
    (e.midBlock events).RecallsAt index (news ++ e.blockNews index events) := by
  intro l hl
  have hlayers : (e.midBlock events).layers = e.blockLayers events := by rw [midBlock_eq]
  rw [hlayers, blockLayers_eq, List.getElem?_map] at hl
  obtain ⟨before, hbefore, rfl⟩ := Option.map_eq_some_iff.mp hl
  rw [blockNews, hbefore]
  exact (h before hbefore).within events

omit [Transform σ γ] [Precision σ π] in
theorem recallsAt_create (s : EngineSetup) (index : ℕ) :
    (create s : Engine σ π γ).RecallsAt index [] := by
  intro l hl
  rw [create, List.getElem?_map] at hl
  obtain ⟨n, -, rfl⟩ := Option.map_eq_some_iff.mp hl
  exact Layer.Recalls.ofIndex n

/-- After every run, and inside its next block, a layer counts the notes since
it picked up its instrument and has the velocities of the last ones.  So when
`n` notes came before, a note triggers the first regions whose ranges it meets
and whose turn is `n`, round by round; each index that a region of a prepared
instrument has is a turn, and comes up once in each round. -/
theorem round_robin_of_notes (s : EngineSetup) (calls : List (Call σ π)) (index : ℕ)
    (events : List MidiEvent) :
    let start : Engine σ π γ := create s
    let past := start.history index calls
    let news := past ++ (start.run calls).blockNews index events
    (start.run calls).RecallsAt index past ∧
      ((start.run calls).midBlock events).RecallsAt index news ∧
      ∀ l i j, ((start.run calls).midBlock events).layers[index]? = some l →
        l.instrument = some i → i.instrument = Instrument.prepare j →
        let n := notesSince news
        let rounds := i.instrument.maxRoundRobin + 1
        (n < 2 ^ 32 → ∀ key velocity channel (e : Ensemble σ π γ),
          let hits := Selection.select i.instrument (l.event .noteOn key velocity)
          (l.noteOn key velocity channel e).2 = l.startVoices i key channel
              (velocityGain velocity l.controls.velocityAmount) false e hits ∧
            hits.map Triggered.region = (Selection.answering i.instrument .noteOn key
              (Selection.percent velocity) l.controls.timbre (n % rounds)).take 32) ∧
          (∀ r ∈ i.instrument.regions, ∀ turn ∈ r.trigger.roundRobin, turn < rounds) ∧
          ∀ first, first + rounds ≤ 2 ^ 32 → ∀ turn < rounds,
            ∃! k, (first ≤ k ∧ k < first + rounds) ∧ k % 2 ^ 32 % rounds = turn := by
  intro start past news
  have hpast : (start.run calls).RecallsAt index past :=
    (recallsAt_create s index).run calls
  have hnews : ((start.run calls).midBlock events).RecallsAt index news := hpast.midBlock events
  refine ⟨hpast, hnews, ?_⟩
  intro l i j hl hi hj n rounds
  refine ⟨fun hn key velocity channel e => ?_, fun r hr turn hturn => ?_,
    fun first hfirst turn hturn => ?_⟩
  · have hcounter : l.counter = n := by
      rw [(hnews l hl).counter (Option.isSome_of_eq_some hi)]
      exact Nat.mod_eq_of_lt hn
    exact hcounter ▸ l.noteOn_triggers hi key velocity channel e
  · rw [hj] at hr
    exact Nat.lt_succ_of_le (hj ▸ Instrument.roundRobin_le_of_prepare hr hturn)
  · have hcount : ∀ m, m < first + rounds → m % 2 ^ 32 = m := fun m hm =>
      Nat.mod_eq_of_lt (hm.trans_le hfirst)
    obtain ⟨k, ⟨hk, hkturn⟩, hunique⟩ := Selection.existsUnique_turn hturn first
    refine ⟨k, ⟨hk, by rw [hcount k hk.2, hkturn]⟩, fun m ⟨hm, hmturn⟩ => ?_⟩
    rw [hcount m hm.2] at hmturn
    exact hunique m ⟨hm, hmturn⟩

/-! ## Two regions that take turns -/

/-- Two regions on the same keys, one for each turn. -/
def duet : Instrument :=
  { name := "Duet"
    regions := [{ trigger := { roundRobin := some 0 } }, { trigger := { roundRobin := some 1 } }] }

noncomputable def duo : LoadedInstrument ℝ where
  id := 0
  library := ⟨{}, "duo.lua", [], []⟩
  instrument := duet.prepare
  regions := [none, none]

def duoSetup : EngineSetup :=
  ⟨1000, 1, ⟨0⟩, ⟨0⟩, 1⟩

/-- A block with one note on the first channel. -/
noncomputable def duoBlock : BlockRequest ℝ :=
  ⟨0, 1000, Scalar.ofNat 120, [.noteOn 0 0 60 127], 0⟩

/-- The first layer gets the duo and is given a note in each of two blocks;
the third note will be the turn of the first region again. -/
theorem round_robin_of_notes_duo :
    let calls : List (Call ℝ ℝ) := [.request (.layer 0 (.instrument (some duo))), .process duoBlock]
    let events := [MidiEvent.noteOn 0 0 60 100]
    let start : Engine ℝ ℝ (Fin 256 → ℝ) := create duoSetup
    let news := start.history 0 calls ++ (start.run calls).blockNews 0 events
    notesSince news = 2 ∧ (2 : ℕ) < 2 ^ 32 ∧ ∃ l,
      ((start.run calls).midBlock events).layers[0]? = some l ∧ l.instrument = some duo ∧
        duo.instrument = duet.prepare ∧ l.counter = 2 ∧ l.velocities.getD 60 0 = 100 ∧
        (Selection.select duo.instrument (l.event .noteOn 60 90) : List (Triggered ℝ)).map
            Triggered.region =
          (Selection.answering duo.instrument .noteOn 60 (Selection.percent 90)
            l.controls.timbre 0).take 32 := by
  intro calls events start news
  let set := start.perform (.request (.layer 0 (.instrument (some duo))))
  let played := set.perform (.process duoBlock)
  have hplayed : played.layers = (set.blockLayers duoBlock.midi).map Layer.settled :=
    layers_process set rfl
  have hrun : start.run calls = played := by
    simp only [played, set, run, calls, List.foldl_cons, List.foldl_nil]
  have hsecond : played.blockNews 0 events = [.note 60 100 true] := by
    rw [Engine.blockNews, hplayed]
    rfl
  have hnews : start.history 0 calls ++ (start.run calls).blockNews 0 events =
      [.pickedUp, .note 60 127 true, .note 60 100 true] := by
    rw [hrun, hsecond]
    rfl
  obtain ⟨l, hl, hinstrument⟩ : ∃ l, (played.midBlock events).layers[0]? = some l ∧
      l.instrument = some duo := by
    have hlayers : (played.midBlock events).layers = played.blockLayers events := by
      rw [midBlock_eq]
    rw [hlayers, blockLayers, hplayed]
    exact ⟨_, rfl, rfl⟩
  obtain ⟨-, hrecalls, hturns⟩ := round_robin_of_notes (γ := Fin 256 → ℝ) duoSetup calls 0 events
  rw [hnews, hrun] at hrecalls hturns
  have hsmall : (2 : ℕ) < 2 ^ 32 := by norm_num
  have hmemory := hrecalls l hl
  have hcounter : l.counter = 2 := hmemory.counter (Option.isSome_of_eq_some hinstrument)
  have hvelocity : l.velocities.getD 60 0 = 100 := hmemory.velocity 60 (by decide)
  have hhits := ((hturns l duo duet hl hinstrument rfl).1 hsmall 60 90 0
    (played.midBlock events).ensemble).2
  rw [hrun]
  exact ⟨congrArg notesSince hnews, hsmall, l, hl, hinstrument, rfl, hcounter, hvelocity, hhits⟩

end Engine

end Multisample
