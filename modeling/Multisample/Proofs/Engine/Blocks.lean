import Multisample.Proofs.Engine.Reactions

/-!
# The stages of a block

A block puts waiting convolvers into the reverb, lets the layers pick up their
instruments, passes events on, renders and ends.  For each stage it is said
here which calls reach the pool, what the retire queue is given, and what
becomes of the layers.
-/

namespace Multisample

variable {σ π γ : Type}

/-- The things that are replaced when new ones, or none, take one place in a
row. -/
def displaced {α : Type} : Option α → List (Option α) → List α
  | _, [] => []
  | current, next :: rest => current.toList ++ displaced next rest

theorem displaced_map {α β : Type} (f : α → β) (current : Option α) (row : List (Option α)) :
    (displaced current row).map f = displaced (current.map f) (row.map (Option.map f)) := by
  induction row generalizing current with
  | nil => rfl
  | cons next rest ih => simp [displaced, ih, Option.toList_map]

theorem ramp_length [Scalar σ] (start target : σ) (frames : ℕ) :
    (ramp start target frames).length = frames := by
  unfold ramp
  generalize (target - start) / Scalar.ofNat (max frames 1) = step
  induction frames generalizing start with
  | zero => rfl
  | succ frames ih => exact congrArg Nat.succ (ih _)

/-! ## Layers -/

namespace Layer

/-- How a layer parts from the voices of an instrument that it replaces. -/
def farewell (l : Layer σ) : List (VoicePool.Call σ π) :=
  if l.isStale then [.releaseAll (some l.index)] else []

/-- The instrument that a layer replaces when a block begins. -/
def replaced (l : Layer σ) : List (LoadedInstrument σ) :=
  if l.isStale then l.instrument.toList else []

/-- A layer with the instrument that was set for it. -/
def synced (l : Layer σ) : Layer σ :=
  if l.isStale then { l with instrument := l.controls.instrument, counter := 0 } else l

@[simp] theorem synced_index (l : Layer σ) : l.synced.index = l.index := by
  unfold synced
  split <;> rfl

/-- A layer with its gains at the end of a block. -/
def settled [Elementary σ] (l : Layer σ) : Layer σ :=
  { l with gains := l.targetGains }

variable [Elementary σ] [Elementary π] [Precision σ π]

theorem sync_eq (e : Ensemble σ π γ) (l : Layer σ) :
    sync e l = (⟨e.pool.run l.farewell, e.queue.retireAll (l.replaced.map .instrument)⟩,
      l.synced) := by
  unfold sync farewell replaced synced
  split
  · cases l.instrument <;> rfl
  · rfl

/-- A layer without voices leaves the pool as it is, just as rendering it would. -/
theorem render_eq (l : Layer σ) (rate : ℕ) (pool : VoicePool σ π) (mix : List (Frame σ)) :
    (l.render rate pool mix).1 = l.settled ∧
      (l.render rate pool mix).2.1 =
        pool.perform (.render l.index rate (List.replicate mix.length Frame.silence)) ∧
      (l.render rate pool mix).2.2.length = mix.length := by
  rw [← List.map_const', VoicePool.perform]
  unfold render
  dsimp only
  split
  · rename_i h
    exact ⟨rfl, (VoicePool.renderLayer_fst_of_inactive h _ _).symm, rfl⟩
  · refine ⟨rfl, rfl, ?_⟩
    simp [(pool.renderLayer_spec _ _ _).2, ramp_length]

end Layer

/-! ## Stages -/

namespace Engine

variable [Elementary σ] [Elementary π] [Precision σ π]

theorem syncLayers_eq (e : Engine σ π γ) : e.syncLayers = { e with
    ensemble := ⟨e.ensemble.pool.run (e.layers.flatMap Layer.farewell),
      e.ensemble.queue.retireAll ((e.layers.flatMap Layer.replaced).map .instrument)⟩
    layers := e.layers.map Layer.synced } := by
  have hpool := runOver_view Layer.sync Ensemble.pool VoicePool.perform Layer.farewell
    Layer.synced (fun e l => ⟨congrArg (fun r => r.1.pool) (l.sync_eq e),
      congrArg Prod.snd (l.sync_eq e)⟩) e.ensemble e.layers
  have hqueue := runOver_view Layer.sync Ensemble.queue RetireQueue.retire
    (fun l => l.replaced.map .instrument) Layer.synced
    (fun e l => ⟨congrArg (fun r => r.1.queue) (l.sync_eq e),
      congrArg Prod.snd (l.sync_eq e)⟩) e.ensemble e.layers
  rw [List.map_flatMap, VoicePool.run, RetireQueue.retireAll, ← hpool.1, ← hqueue.1, ← hpool.2]
  rfl

/-- The calls by which layers render a block. -/
def renders (layers : List (Layer σ)) (rate frames : ℕ) : List (VoicePool.Call σ π) :=
  layers.map fun l => .render l.index rate (List.replicate frames Frame.silence)

theorem renderLayers_eq (e : Engine σ π γ) (frames : ℕ) : (e.renderLayers frames).1 = { e with
    ensemble := { e.ensemble with
      pool := e.ensemble.pool.run (renders e.layers e.sampleRate frames) }
    layers := e.layers.map Layer.settled } := by
  have key : ∀ (layers : List (Layer σ)) (pool : VoicePool σ π) (mix : List (Frame σ)),
      mix.length = frames →
        let rendered := runOver (fun (state : VoicePool σ π × List (Frame σ)) (l : Layer σ) =>
          (((l.render e.sampleRate state.1 state.2).2.1,
            (l.render e.sampleRate state.1 state.2).2.2),
            (l.render e.sampleRate state.1 state.2).1)) (pool, mix) layers
        rendered.1.1 = pool.run (renders layers e.sampleRate frames) ∧
          rendered.2 = layers.map Layer.settled := by
    -- The mix goes through the layers as well, but the pool sees only its length.
    intro layers
    induction layers with
    | nil => exact fun _ _ _ => ⟨rfl, rfl⟩
    | cons l rest ih =>
        intro pool mix hlen
        obtain ⟨hl, hpool, hmix⟩ := l.render_eq e.sampleRate pool mix
        obtain ⟨ihpool, ihlayers⟩ := ih _ _ (hmix.trans hlen)
        refine ⟨?_, ?_⟩
        · rw [runOver, renders, List.map_cons, VoicePool.run, List.foldl_cons, ← hlen, ← hpool, hlen]
          exact ihpool
        · rw [runOver, List.map_cons, ← hl]
          exact congrArg (List.cons _) ihlayers
  obtain ⟨hpool, hlayers⟩ := key e.layers e.ensemble.pool (List.replicate frames Frame.silence)
    List.length_replicate
  rw [← hpool, ← hlayers]
  rfl

variable [Transform σ γ]

theorem installConvolver_eq (e : Engine σ π γ) (next : Option (Convolver σ γ)) :
    e.installConvolver next = { e with
      chain := e.chain.perform (.convolver next)
      ensemble := { e.ensemble with
        queue := e.ensemble.queue.retireAll (e.chain.convolver?.toList.map .convolver) } } := by
  unfold installConvolver EffectChain.swapConvolver EffectChain.convolver?
  dsimp only
  cases (e.chain.slot .convolution).effect.convolver? <;> rfl

theorem foldl_installConvolver (e : Engine σ π γ) (row : List (Option (Convolver σ γ))) :
    row.foldl installConvolver e = { e with
      chain := e.chain.run (row.map .convolver)
      ensemble := { e.ensemble with
        queue := e.ensemble.queue.retireAll
          ((displaced e.chain.convolver? row).map .convolver) } } := by
  induction row generalizing e with
  | nil => rfl
  | cons next rest ih =>
      rw [List.foldl_cons, ih, installConvolver_eq, displaced, List.map_append,
        RetireQueue.retireAll_append, EffectChain.convolver?_perform_convolver]
      rfl

omit [Elementary σ] [Elementary π] [Precision σ π] [Transform σ γ] in
theorem applyOrder_eq (e : Engine σ π γ) : ∃ order, e.applyOrder = { e with
    chain := { e.chain with order }
    appliedOrder := e.mix.order } := by
  unfold applyOrder
  split
  · rename_i h
    exact ⟨e.chain.order, h ▸ rfl⟩
  · cases EffectOrder.unpack? e.mix.order with
    | none => exact ⟨e.chain.order, rfl⟩
    | some order => exact ⟨order, rfl⟩

/-- The calls that bring an effect what was set for it. -/
def effectCalls (mix : MixControls σ) (kind : EffectKind) : List (EffectChain.Call σ π γ) :=
  .enable kind (mix.enabled.getD kind.index false) ::
    (mix.params.getD kind.index []).zipIdx.map fun (value, index) => .param kind index value

theorem applyEffect_eq (mix : MixControls σ) (chain : EffectChain σ π γ) (kind : EffectKind) :
    applyEffect mix chain kind = chain.run (effectCalls mix kind) := by
  unfold applyEffect effectCalls EffectChain.run
  rw [List.foldl_cons, List.foldl_map]
  rfl

theorem foldl_applyEffect (mix : MixControls σ) (chain : EffectChain σ π γ)
    (kinds : List EffectKind) :
    kinds.foldl (applyEffect mix) chain = chain.run (kinds.flatMap (effectCalls mix)) := by
  rw [EffectChain.run, List.foldl_flatMap]
  exact List.foldl_ext _ _ _ fun chain kind _ => applyEffect_eq mix chain kind

/-- The chain of a block before convolvers are exchanged. -/
def tuned (e : Engine σ π γ) : EffectChain σ π γ :=
  e.applyOrder.chain.run (EffectKind.all.flatMap (effectCalls e.mix))

theorem blueprint?_tuned (e : Engine σ π γ) : e.tuned.blueprint? = e.chain.blueprint? := by
  obtain ⟨order, horder⟩ := e.applyOrder_eq
  have hcalls : ∀ call ∈ EffectKind.all.flatMap (effectCalls (π := π) (γ := γ) e.mix),
      ∀ c : EffectChain σ π γ, (c.perform call).blueprint? = c.blueprint? := by
    intro call hcall c
    obtain ⟨kind, -, hcall⟩ := List.mem_flatMap.mp hcall
    rcases List.mem_cons.mp hcall with rfl | hcall
    · exact c.blueprint?_perform _
    · obtain ⟨⟨value, index⟩, -, rfl⟩ := List.mem_map.mp hcall
      exact c.blueprint?_perform _
  rw [tuned, EffectChain.run_keeps hcalls, horder]
  rfl

theorem applyControls_eq (e : Engine σ π γ) : e.applyControls = { e with
    waiting := []
    chain := e.tuned.run (e.waiting.map .convolver)
    appliedOrder := e.mix.order
    ensemble := { e.ensemble with
      queue := e.ensemble.queue.retireAll
        ((displaced e.tuned.convolver? e.waiting).map .convolver) } } := by
  obtain ⟨order, horder⟩ := e.applyOrder_eq
  unfold applyControls tuned
  dsimp only
  rw [foldl_installConvolver, foldl_applyEffect, horder]

theorem blueprint?_applyControls (e : Engine σ π γ) : e.applyControls.chain.blueprint? =
    (e.waiting.getLastD e.chain.convolver?).map Convolver.blueprint := by
  have htuned : e.tuned.blueprint? = e.chain.convolver?.map Convolver.blueprint :=
    e.blueprint?_tuned
  rw [applyControls_eq, ← List.getLastD_map (f := Option.map Convolver.blueprint), ← htuned]
  exact EffectChain.blueprint?_run_convolvers _ _

end Engine

end Multisample
