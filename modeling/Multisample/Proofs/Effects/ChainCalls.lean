import Mathlib.Data.List.Nodup
import Multisample.Effects.Chain

/-!
# Calls to the effect chain

Everything that can be asked of a chain is one of seven calls.  The lemmas here
follow a single slot through them: only a block moves its fade, every block
passes through the slot exactly once, and the length of a block never changes.
-/

namespace Multisample

/-! ## Blocks keep their length -/

@[simp] theorem runOver_length {s α β : Type} (step : s → α → s × β) (state : s)
    (xs : List α) : (runOver step state xs).2.length = xs.length := by
  induction xs generalizing state with
  | nil => rfl
  | cons x xs ih => simp [runOver, ih]

theorem EffectKind.index_injective : Function.Injective EffectKind.index := by
  intro a b h
  cases a <;> cases b <;> first | rfl | exact absurd h (by decide)

/-! ## Orders name every effect once -/

theorem EffectKind.mem_all (kind : EffectKind) : kind ∈ all := by
  cases kind <;> decide

namespace EffectOrder

theorem mem_kinds (order : EffectOrder) (kind : EffectKind) : kind ∈ order.kinds :=
  order.complete.mem_iff.mpr kind.mem_all

theorem nodup_kinds (order : EffectOrder) : order.kinds.Nodup :=
  order.complete.nodup_iff.mpr (by decide)

end EffectOrder

variable {σ π γ : Type} [Elementary σ] [Elementary π] [Precision σ π] [Transform σ γ]

theorem Effect.process_length (p : ParamValues σ) (ctx : BlockContext π) (e : Effect σ π γ)
    (block : List (Frame σ)) : (e.process p ctx block).2.length = block.length := by
  cases e with
  | convolution c => cases c <;> simp [Effect.process, Effect.runWrapped]
  | _ => simp [Effect.process, Effect.runWrapped]

namespace ChainSlot

/-- The slot with its parameters one block closer to their targets. -/
def advanced (s : ChainSlot σ π γ) (frames : ℕ) : ChainSlot σ π γ :=
  { s with params := s.params.map (ParamState.advance frames) }

/-- What the effect of a slot makes of a block. -/
def processed (s : ChainSlot σ π γ) (ctx : BlockContext π) (block : List (Frame σ)) :
    List (Frame σ) :=
  (s.effect.process (s.advanced block.length).values ctx block).2

theorem processed_length (s : ChainSlot σ π γ) (ctx : BlockContext π)
    (block : List (Frame σ)) : (s.processed ctx block).length = block.length :=
  Effect.process_length ..

theorem process_length (step : σ) (ctx : BlockContext π) (s : ChainSlot σ π γ)
    (block : List (Frame σ)) : (s.process step ctx block).2.length = block.length := by
  unfold process
  split
  · rfl
  · dsimp only
    split
    · exact s.processed_length ctx block
    · have h := s.processed_length ctx block
      simp only [processed, advanced] at h
      simp [crossfade, h]

end ChainSlot

namespace EffectChain

/-! ## Reading and writing slots -/

section slots

variable {c : EffectChain σ π γ} {kind other : EffectKind} {s : ChainSlot σ π γ}

omit [Elementary σ] [Elementary π] [Precision σ π] [Transform σ γ]

theorem slot_eq_getElem :
    c.slot kind = c.slots[(⟨kind.index, kind.index_lt⟩ : Fin EffectKind.all.length)] := rfl

@[simp] theorem slot_setSlot_self : (c.setSlot kind s).slot kind = s := by
  simp [slot_eq_getElem, setSlot]

theorem slot_setSlot_of_ne (h : kind ≠ other) : (c.setSlot kind s).slot other = c.slot other := by
  have hi : kind.index ≠ other.index := fun hi => h (EffectKind.index_injective hi)
  simp [slot_eq_getElem, setSlot, Vector.getElem_set_ne, hi]

@[simp] theorem fadeStep_setSlot : (c.setSlot kind s).fadeStep = c.fadeStep := rfl

/-- A change of one slot is seen in that slot only. -/
theorem slot_modifySlot (f : ChainSlot σ π γ → ChainSlot σ π γ) :
    (c.modifySlot kind f).slot other = if kind = other then f (c.slot other) else c.slot other := by
  by_cases h : kind = other
  · subst h
    simp [modifySlot]
  · rw [if_neg h]
    exact slot_setSlot_of_ne h

theorem slot_map (f : ChainSlot σ π γ → ChainSlot σ π γ) (order : EffectOrder) (step : σ)
    (kind : EffectKind) : slot ⟨c.slots.map f, order, step⟩ kind = f (c.slot kind) := by
  simp [slot_eq_getElem]

end slots

/-! ## One slot during a block -/

@[simp] theorem fadeStep_processSlots (ctx : BlockContext π) (kinds : List EffectKind)
    (c : EffectChain σ π γ) (block : List (Frame σ)) :
    (processSlots ctx kinds c block).1.fadeStep = c.fadeStep := by
  induction kinds generalizing c block with
  | nil => rfl
  | cons kind rest ih => simp [processSlots, ih]

@[simp] theorem order_processSlots (ctx : BlockContext π) (kinds : List EffectKind)
    (c : EffectChain σ π γ) (block : List (Frame σ)) :
    (processSlots ctx kinds c block).1.order = c.order := by
  induction kinds generalizing c block with
  | nil => rfl
  | cons kind rest ih => simp [processSlots, ih, setSlot]

/-- A slot that is not visited stays as it is. -/
theorem slot_processSlots_of_notMem (ctx : BlockContext π) {kind : EffectKind} :
    ∀ {kinds : List EffectKind} (c : EffectChain σ π γ) (block : List (Frame σ)),
      kind ∉ kinds → (processSlots ctx kinds c block).1.slot kind = c.slot kind
  | [], _, _, _ => rfl
  | first :: rest, c, block, h => by
      have hne : first ≠ kind := fun e => h (e ▸ List.mem_cons_self)
      have hrest : kind ∉ rest := fun hm => h (List.mem_cons_of_mem _ hm)
      simp only [processSlots]
      rw [slot_processSlots_of_notMem ctx _ _ hrest, slot_setSlot_of_ne hne]

/-- A slot that is visited once has processed one block of the same length. -/
theorem slot_processSlots (ctx : BlockContext π) {kind : EffectKind} :
    ∀ {kinds : List EffectKind} (c : EffectChain σ π γ) (block : List (Frame σ)),
      kinds.Nodup → kind ∈ kinds → ∃ input : List (Frame σ), input.length = block.length ∧
        (processSlots ctx kinds c block).1.slot kind =
          ((c.slot kind).process c.fadeStep ctx input).1
  | [], _, _, _, h => absurd h (by simp)
  | first :: rest, c, block, hnd, h => by
      obtain ⟨hfirst, hrest⟩ := List.nodup_cons.mp hnd
      simp only [processSlots]
      by_cases hk : first = kind
      -- it is this slot's turn, and no later one is this slot again
      · subst hk
        refine ⟨block, rfl, ?_⟩
        rw [slot_processSlots_of_notMem ctx _ _ hfirst, slot_setSlot_self]
      · have hm : kind ∈ rest := (List.mem_cons.mp h).resolve_left fun e => hk e.symm
        obtain ⟨input, hlen, heq⟩ := slot_processSlots ctx
          (c.setSlot first ((c.slot first).process c.fadeStep ctx block).1)
          ((c.slot first).process c.fadeStep ctx block).2 hrest hm
        refine ⟨input, hlen.trans (ChainSlot.process_length ..), ?_⟩
        rw [heq, slot_setSlot_of_ne hk, fadeStep_setSlot]

/-- A block passes through every slot once. -/
theorem slot_process (ctx : BlockContext π) (c : EffectChain σ π γ) (block : List (Frame σ))
    (kind : EffectKind) : ∃ input : List (Frame σ), input.length = block.length ∧
      (c.process ctx block).1.slot kind = ((c.slot kind).process c.fadeStep ctx input).1 :=
  slot_processSlots ctx c block c.order.nodup_kinds (c.order.mem_kinds kind)

theorem processSlots_length (ctx : BlockContext π) (kinds : List EffectKind)
    (c : EffectChain σ π γ) (block : List (Frame σ)) :
    (processSlots ctx kinds c block).2.length = block.length := by
  induction kinds generalizing c block with
  | nil => rfl
  | cons kind rest ih => exact (ih _ _).trans (ChainSlot.process_length ..)

theorem process_length (ctx : BlockContext π) (c : EffectChain σ π γ) (block : List (Frame σ)) :
    (c.process ctx block).2.length = block.length :=
  processSlots_length ctx _ c block

/-! ## Calls -/

/-- What can be asked of a chain. -/
inductive Call (σ π γ : Type) where
  | process (ctx : BlockContext π) (block : List (Frame σ))
  | enable (kind : EffectKind) (on : Bool)
  | param (kind : EffectKind) (index : ℕ) (value : σ)
  | order (kinds : List EffectKind)
  | rate (sampleRate : σ)
  | reset
  | convolver (next : Option (Convolver σ γ))

/-- The chain after a call; one that is refused changes nothing. -/
def perform (c : EffectChain σ π γ) : Call σ π γ → EffectChain σ π γ
  | .process ctx block => (c.process ctx block).1
  | .enable kind on => c.setEnabled kind on
  | .param kind index value => (c.setParam kind index value).toOption.getD c
  | .order kinds => (c.setOrder kinds).toOption.getD c
  | .rate sampleRate => c.setRate sampleRate
  | .reset => c.reset
  | .convolver next => (c.swapConvolver next).1

def run (c : EffectChain σ π γ) (calls : List (Call σ π γ)) : EffectChain σ π γ :=
  calls.foldl perform c

/-- A chain that was put into another order. -/
def inOrder (c : EffectChain σ π γ) (order : EffectOrder) : EffectChain σ π γ :=
  { c with order }

omit [Elementary σ] [Elementary π] [Precision σ π] [Transform σ γ] in
theorem setOrder_eq (c : EffectChain σ π γ) (kinds : List EffectKind) :
    c.setOrder kinds = if h : kinds.Perm EffectKind.all then .ok (c.inOrder ⟨kinds, h⟩)
      else .error .invalidEffectOrder := by
  rw [setOrder, EffectOrder.ofList?]
  by_cases h : kinds.Perm EffectKind.all
  · rw [dif_pos (EffectOrder.isPermutation_iff.mpr h), dif_pos h]
    rfl
  · rw [dif_neg (fun hp => h (EffectOrder.isPermutation_iff.mp hp)), dif_neg h]

theorem perform_order (c : EffectChain σ π γ) (order : EffectOrder) :
    c.perform (.order order.kinds) = c.inOrder order := by
  rw [perform, setOrder_eq, dif_pos order.complete]
  rfl

/-- Only a call for another order changes the order. -/
theorem order_perform (c : EffectChain σ π γ) (call : Call σ π γ) :
    (c.perform call).order = match call with
      | .order kinds => (EffectOrder.ofList? kinds).getD c.order
      | _ => c.order := by
  cases call with
  | process ctx block => exact order_processSlots ..
  | param kind index value =>
      rw [perform, setParam]
      split <;> rfl
  | order kinds =>
      rw [perform, setOrder]
      dsimp only
      cases EffectOrder.ofList? kinds <;> rfl
  | _ => rfl

/-- What none of the calls changes, all of them together do not. -/
theorem run_keeps {α : Type} {view : EffectChain σ π γ → α} {calls : List (Call σ π γ)}
    (h : ∀ call ∈ calls, ∀ c : EffectChain σ π γ, view (c.perform call) = view c)
    (c : EffectChain σ π γ) : view (c.run calls) = view c := by
  induction calls generalizing c with
  | nil => rfl
  | cons call rest ih =>
      rw [run, List.foldl_cons, ← run, ih fun other hother => h other (List.mem_cons_of_mem _ hother),
        h call List.mem_cons_self]

end EffectChain

/-! ## The convolver in its place -/

/-- What a convolver was built with, apart from the signal that runs through it. -/
structure Blueprint (γ : Type) where
  id : ℕ
  rate : ℕ
  left : List γ
  right : List γ

def Convolver.blueprint (c : Convolver σ γ) : Blueprint γ :=
  ⟨c.id, c.rate, c.left.response, c.right.response⟩

namespace Effect

def blueprint? (e : Effect σ π γ) : Option (Blueprint γ) :=
  e.convolver?.map Convolver.blueprint

theorem blueprint_runOver_step (mix : Frame σ → Frame σ → Frame σ) (c : Convolver σ γ)
    (block : List (Frame σ)) :
    (runOver (fun c x => ((c.step x).1, mix x (c.step x).2)) c block).1.blueprint =
      c.blueprint := by
  induction block generalizing c with
  | nil => rfl
  | cons x rest ih =>
      rw [runOver, ih]
      simp only [Convolver.step]
      split <;> rfl

theorem blueprint?_process (p : ParamValues σ) (ctx : BlockContext π) (e : Effect σ π γ)
    (block : List (Frame σ)) : (e.process p ctx block).1.blueprint? = e.blueprint? := by
  cases e with
  | convolution c =>
      cases c with
      | none => rfl
      | some c =>
          exact congrArg some (blueprint_runOver_step (fun x wet => x.mix wet (p.at 0)) c block)
  | _ => rfl

omit [Precision σ π] in
theorem blueprint?_reset (e : Effect σ π γ) : e.reset.blueprint? = e.blueprint? := by
  cases e with
  | convolution c => cases c <;> rfl
  | _ => rfl

omit [Precision σ π] [Transform σ γ] in
theorem blueprint?_setRate (sampleRate : σ) (e : Effect σ π γ) :
    (e.setRate sampleRate).blueprint? = none := by
  cases e <;> rfl

end Effect

theorem ChainSlot.blueprint?_process (step : σ) (ctx : BlockContext π) (s : ChainSlot σ π γ)
    (block : List (Frame σ)) :
    (s.process step ctx block).1.effect.blueprint? = s.effect.blueprint? := by
  unfold process
  split
  · rfl
  · dsimp only
    split
    · exact Effect.blueprint?_process ..
    · dsimp only
      split
      · exact (Effect.blueprint?_reset _).trans (Effect.blueprint?_process ..)
      · exact Effect.blueprint?_process ..

namespace EffectChain

def convolver? (c : EffectChain σ π γ) : Option (Convolver σ γ) :=
  (c.slot .convolution).effect.convolver?

/-- Which convolver the reverb of a chain works with. -/
def installed (c : EffectChain σ π γ) : Option ℕ :=
  c.convolver?.map fun c => c.id

def blueprint? (c : EffectChain σ π γ) : Option (Blueprint γ) :=
  c.convolver?.map Convolver.blueprint

omit [Elementary σ] [Elementary π] [Precision σ π] [Transform σ γ] in
theorem installed_eq (c : EffectChain σ π γ) : c.installed = c.blueprint?.map Blueprint.id := by
  rw [blueprint?, Option.map_map]
  rfl

theorem convolver?_perform_convolver (c : EffectChain σ π γ) (next : Option (Convolver σ γ)) :
    (c.perform (.convolver next)).convolver? = next := by
  simp only [convolver?, perform, swapConvolver, slot_modifySlot, if_true]
  rfl

/-- Only an exchange puts another convolver in, and a new rate takes it away. -/
theorem blueprint?_perform (c : EffectChain σ π γ) (call : Call σ π γ) :
    (c.perform call).blueprint? = match call with
      | .convolver next => next.map Convolver.blueprint
      | .rate _ => none
      | _ => c.blueprint? := by
  unfold blueprint? convolver?
  cases call with
  | process ctx block =>
      obtain ⟨input, -, heq⟩ := slot_process ctx c block .convolution
      rw [perform, heq]
      exact ChainSlot.blueprint?_process ..
  | enable target on =>
      simp only [perform, setEnabled, slot_modifySlot]
      split <;> rfl
  | param target index value =>
      simp only [perform, setParam]
      split
      · simp only [Except.toOption, Option.getD_some, slot_modifySlot]
        split <;> rfl
      · rfl
  | order kinds =>
      simp only [perform, setOrder]
      split <;> rfl
  | rate sampleRate =>
      simp only [perform, setRate, slot_map]
      exact Effect.blueprint?_setRate ..
  | reset =>
      simp only [perform, reset, slot_map]
      exact Effect.blueprint?_reset _
  | convolver next => exact congrArg (Option.map _) (c.convolver?_perform_convolver next)

theorem blueprint?_run_convolvers (c : EffectChain σ π γ) (row : List (Option (Convolver σ γ))) :
    (c.run (row.map .convolver)).blueprint? =
      (row.map (Option.map Convolver.blueprint)).getLastD c.blueprint? := by
  induction row generalizing c with
  | nil => rfl
  | cons next rest ih =>
      rw [List.map_cons, run, List.foldl_cons, ← run, ih, List.map_cons, List.getLastD_cons,
        blueprint?_perform]

end EffectChain

end Multisample
