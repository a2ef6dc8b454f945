import Multisample.Proofs.Effects.Fade
import Multisample.Proofs.Effects.InPlace

/-!
# Bypassed effects are not there

An effect that is turned off and has faded out leaves its slot, the signal and
the room beside it alone, so a chain comes to the same as the row of the
effects that are heard.  Where the others stand in the order, and what an
earlier block left in the room that all slots share, makes no difference.
-/

namespace Multisample

variable {σ π γ : Type} [Elementary σ] [Elementary π] [Precision σ π] [Transform σ γ]

/-! ## Slots that are heard -/

namespace ChainSlot

/-- Whether a slot is enabled or still fading. -/
def heard (s : ChainSlot σ π γ) : Bool :=
  s.enabled || !Scalar.eq s.wet 0

omit [Elementary π] [Precision σ π] [Transform σ γ] in
theorem rests_eq (s : ChainSlot σ π γ) : s.rests = !s.heard := by
  unfold rests heard
  cases s.enabled <;> simp

theorem process_of_not_heard {s : ChainSlot σ π γ} (h : s.heard = false) (step : σ)
    (ctx : BlockContext π) (block : List (Frame σ)) : s.process step ctx block = (s, block) := by
  have hrests : s.rests = true := by rw [rests_eq, h]; rfl
  rw [process, if_pos hrests]

end ChainSlot

namespace EffectChain

/-- Whether the effect of a kind is enabled or still fading. -/
def heard (c : EffectChain σ π γ) (kind : EffectKind) : Bool :=
  (c.slot kind).heard

/-- A position is never negative, so a slot is still fading while it is above 0. -/
theorem FadesInUnit.heard_iff {π γ : Type} {c : EffectChain ℝ π γ} (h : c.FadesInUnit)
    (kind : EffectKind) :
    c.heard kind = true ↔ (c.slot kind).enabled = true ∨ 0 < (c.slot kind).wet := by
  have hpos : (c.slot kind).wet ≠ 0 ↔ 0 < (c.slot kind).wet :=
    (h.wet_nonneg kind).lt_iff_ne'.symm
  simp [heard, ChainSlot.heard, hpos]

omit [Precision σ π] [Transform σ γ] in
theorem enabled_ofRate (rate : σ) (kind : EffectKind) :
    ((ofRate rate : EffectChain σ π γ).slot kind).enabled = false := by
  cases kind <;> rfl

omit [Elementary σ] [Elementary π] [Precision σ π] [Transform σ γ] in
theorem setSlot_slot (c : EffectChain σ π γ) (kind : EffectKind) :
    c.setSlot kind (c.slot kind) = c := by
  obtain ⟨slots, order, step⟩ := c
  simp [setSlot, slot_eq_getElem]

/-! ## Blocks pass by what is not heard -/

/-- A block through a row of slots comes to the same as a block through those of
them that are heard. -/
theorem processSlots_filter (ctx : BlockContext π) {kinds : List EffectKind}
    (hnodup : kinds.Nodup) (c : EffectChain σ π γ) (block : List (Frame σ)) :
    processSlots ctx kinds c block = processSlots ctx (kinds.filter c.heard) c block := by
  induction kinds generalizing c block with
  | nil => rfl
  | cons kind rest ih =>
      obtain ⟨hnew, hrest⟩ := List.nodup_cons.mp hnodup
      by_cases hheard : c.heard kind = true
      · -- The slot of this kind changes, but those that follow are heard as before.
        have hothers : ∀ s : ChainSlot σ π γ,
            rest.filter (c.setSlot kind s).heard = rest.filter c.heard := by
          intro s
          refine List.filter_congr fun other hother => ?_
          have hne : kind ≠ other := fun heq => hnew (heq ▸ hother)
          rw [heard, heard, slot_setSlot_of_ne hne]
        rw [List.filter_cons_of_pos hheard]
        simp only [processSlots]
        rw [ih hrest, hothers]
      · have hquiet : (c.slot kind).heard = false := Bool.not_eq_true _ ▸ hheard
        rw [List.filter_cons_of_neg hheard, ← ih hrest]
        simp only [processSlots]
        rw [ChainSlot.process_of_not_heard hquiet, setSlot_slot]

/-- The order of the chain itself does not count while a row of slots is processed. -/
theorem processSlots_inOrder (ctx : BlockContext π) (order : EffectOrder)
    (kinds : List EffectKind) (c : EffectChain σ π γ) (block : List (Frame σ)) :
    processSlots ctx kinds (c.inOrder order) block =
      ((processSlots ctx kinds c block).1.inOrder order, (processSlots ctx kinds c block).2) := by
  induction kinds generalizing c block with
  | nil => rfl
  | cons kind rest ih =>
      simp only [processSlots]
      exact ih (c.setSlot kind ((c.slot kind).process c.fadeStep ctx block).1) _

theorem process_inOrder (c : EffectChain σ π γ) (order : EffectOrder) (ctx : BlockContext π)
    (block : List (Frame σ)) :
    (c.inOrder order).process ctx block =
      ((processSlots ctx (order.kinds.filter c.heard) c block).1.inOrder order,
        (processSlots ctx (order.kinds.filter c.heard) c block).2) := by
  show processSlots ctx order.kinds (c.inOrder order) block = _
  rw [processSlots_inOrder, processSlots_filter ctx order.nodup_kinds]

/-- Two orders in which the effects that are heard come in the same row make the
same of a block and leave the same slots. -/
theorem process_alike (c : EffectChain σ π γ) {order order' : EffectOrder}
    (hsame : order.kinds.filter c.heard = order'.kinds.filter c.heard) (ctx : BlockContext π)
    (block : List (Frame σ)) :
    ((c.inOrder order).process ctx block).1.slots = ((c.inOrder order').process ctx block).1.slots ∧
      ((c.inOrder order).process ctx block).2 = ((c.inOrder order').process ctx block).2 := by
  rw [process_inOrder, process_inOrder, hsame]
  exact ⟨rfl, rfl⟩

/-- What is not heard is left alone. -/
theorem slot_process_of_not_heard {c : EffectChain σ π γ} {kind : EffectKind}
    (h : c.heard kind = false) (ctx : BlockContext π) (block : List (Frame σ)) :
    (c.process ctx block).1.slot kind = c.slot kind := by
  have hskipped : kind ∉ c.order.kinds.filter c.heard := by
    intro hmem
    have hheard := (List.mem_filter.mp hmem).2
    rw [h] at hheard
    exact Bool.false_ne_true hheard
  rw [process, processSlots_filter ctx c.order.nodup_kinds]
  exact slot_processSlots_of_notMem ctx c block hskipped

theorem process_of_silent {c : EffectChain σ π γ} (h : ∀ kind, c.heard kind = false)
    (ctx : BlockContext π) (block : List (Frame σ)) : (c.process ctx block).2 = block := by
  have hnone : c.order.kinds.filter c.heard = [] :=
    List.filter_eq_nil_iff.mpr fun kind _ => by simp [h kind]
  rw [process, processSlots_filter ctx c.order.nodup_kinds, hnone]
  rfl

/-- A chain makes the same of every block, and leaves every slot in the same state,
in any two orders that give the effects that are heard the same row.  The others
keep their state, and if none is heard the block comes out as it went in.  All of
this holds in place too, for every buffer, number of frames and content of the
shared room.  Only a list that names every effect once is taken for an order,
and it changes nothing else. -/
theorem bypassed_invisible (c : EffectChain σ π γ) (ctx : BlockContext π)
    {order order' : EffectOrder}
    (hsame : order.kinds.filter c.heard = order'.kinds.filter c.heard) :
    (∀ block, ((c.inOrder order).process ctx block).1.slots =
          ((c.inOrder order').process ctx block).1.slots ∧
        ((c.inOrder order).process ctx block).2 = ((c.inOrder order').process ctx block).2) ∧
      (∀ block kind, c.heard kind = false → (c.process ctx block).1.slot kind = c.slot kind) ∧
      (∀ block, (∀ kind, c.heard kind = false) → (c.process ctx block).2 = block) ∧
      (∀ frames (w w' : Workspace σ), w.buffer = w'.buffer →
        ((c.inOrder order).work ctx frames w).1.slots =
            ((c.inOrder order').work ctx frames w').1.slots ∧
          ((c.inOrder order).work ctx frames w).2.buffer =
            ((c.inOrder order').work ctx frames w').2.buffer) ∧
      (∀ frames w kind, c.heard kind = false → (c.work ctx frames w).1.slot kind = c.slot kind) ∧
      (∀ frames w, (∀ kind, c.heard kind = false) → (c.work ctx frames w).2.buffer = w.buffer) ∧
      ∀ kinds, (∀ h : kinds.Perm EffectKind.all, c.setOrder kinds = .ok (c.inOrder ⟨kinds, h⟩)) ∧
        (¬ kinds.Perm EffectKind.all → c.setOrder kinds = .error .invalidEffectOrder ∧
          c.perform (.order kinds) = c) := by
  refine ⟨fun block => c.process_alike hsame ctx block,
    fun block kind h => slot_process_of_not_heard h ctx block,
    fun block h => process_of_silent h ctx block, ?_, ?_, ?_, ?_⟩
  · intro frames w w' hbuffer
    have hframes : framesWorked frames w' = framesWorked frames w := by
      rw [framesWorked, framesWorked, hbuffer]
    have hblock : w'.block (framesWorked frames w) = w.block (framesWorked frames w) := by
      rw [Workspace.block, Workspace.block, hbuffer]
    obtain ⟨hchain, hout⟩ := (c.inOrder order).work_eq ctx frames w
    obtain ⟨hchain', hout'⟩ := (c.inOrder order').work_eq ctx frames w'
    rw [hframes, hblock] at hchain' hout'
    obtain ⟨hslots, hsignal⟩ := c.process_alike hsame ctx (w.block (framesWorked frames w))
    rw [hchain, hchain', hout, hout', hsignal, hbuffer]
    exact ⟨hslots, rfl⟩
  · intro frames w kind h
    rw [(c.work_eq ctx frames w).1]
    exact slot_process_of_not_heard h ctx _
  · intro frames w h
    rw [(c.work_eq ctx frames w).2, process_of_silent h]
    exact Workspace.overwrite_block (two_mul_framesWorked_le frames w)
  · intro kinds
    refine ⟨fun h => by rw [setOrder_eq, dif_pos h], fun h => ?_⟩
    have hrefused : c.setOrder kinds = .error .invalidEffectOrder := by rw [setOrder_eq, dif_neg h]
    refine ⟨hrefused, ?_⟩
    rw [perform, hrefused]
    rfl

/-- A delay behind a distortion, with the eight effects that are turned off before,
between and behind them, and then all in front. -/
theorem bypassed_invisible_delayed_distortion :
    let c : EffectChain ℝ ℝ (Fin 256 → ℝ) :=
      ((ofRate 48000).setEnabled .distortion true).setEnabled .delay true
    let late : EffectOrder := ⟨[.compressor, .filter, .equalizer, .chorus, .flanger, .phaser,
      .reverb, .convolution, .distortion, .delay], by decide⟩
    EffectOrder.default.kinds.filter c.heard = late.kinds.filter c.heard ∧
      ((c.inOrder .default).process ⟨120⟩ [⟨1, -1⟩]).2 =
        ((c.inOrder late).process ⟨120⟩ [⟨1, -1⟩]).2 := by
  intro c late
  have hheard : ∀ kind, c.heard kind = (kind == .distortion || kind == .delay) := by
    intro kind
    cases kind <;>
      simp [c, heard, ChainSlot.heard, setEnabled, slot_modifySlot, wet_ofRate, enabled_ofRate]
  have hsame : EffectOrder.default.kinds.filter c.heard = late.kinds.filter c.heard := by
    rw [funext hheard]
    decide
  exact ⟨hsame, ((bypassed_invisible c ⟨120⟩ hsame).1 [⟨1, -1⟩]).2⟩

end EffectChain

end Multisample
