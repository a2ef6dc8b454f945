import Multisample.Proofs.Effects.OrderWords
import Multisample.Proofs.Engine.Calls

/-!
# The order that the player sets

The player sets the order of the effects as a list, which travels to the chain
as one word.  The word always holds the list that was accepted last, and a
block that is rendered leaves the chain with it, whatever was set, refused or
rendered before.
-/

namespace Multisample

variable {σ π γ : Type}

namespace Engine

/-- The list that a call sets for the effects; only one that names all of them once counts. -/
def orderSet? : Call σ π → Option (List EffectKind)
  | .request (.order kinds) => if kinds.Perm EffectKind.all then some kinds else none
  | _ => none

/-- The list that was accepted last, or else the default order. -/
def lastOrder (calls : List (Call σ π)) : List EffectKind :=
  (calls.filterMap orderSet?).getLastD EffectKind.all

theorem lastOrder_concat (calls : List (Call σ π)) (call : Call σ π) :
    lastOrder (calls ++ [call]) = (orderSet? call).getD (lastOrder calls) := by
  cases h : orderSet? call <;> simp [lastOrder, h]

theorem setOrder_eq (e : Engine σ π γ) (kinds : List EffectKind) :
    e.setOrder kinds = if kinds.Perm EffectKind.all then
      .ok { e with mix := { e.mix with order := EffectOrder.packed kinds } }
    else .error .invalidEffectOrder := by
  rw [setOrder, EffectOrder.ofList?]
  by_cases h : kinds.Perm EffectKind.all
  · rw [dif_pos (EffectOrder.isPermutation_iff.mpr h), if_pos h]
    rfl
  · rw [dif_neg (fun hp => h (EffectOrder.isPermutation_iff.mp hp)), if_neg h]

variable [Elementary σ] [Elementary π] [Precision σ π] [Transform σ γ]

/-- An engine whose player has set an order; the chain may be behind, but works
with the word that it applied last. -/
structure Orders (kinds : List EffectKind) (e : Engine σ π γ) : Prop where
  complete : kinds.Perm EffectKind.all
  published : e.mix.order = EffectOrder.packed kinds
  applied : EffectOrder.unpack? e.appliedOrder = some e.chain.order

omit [Precision σ π] [Transform σ γ] in
theorem orders_create (s : EngineSetup) :
    (create s : Engine σ π γ).Orders EffectKind.all where
  complete := List.Perm.refl _
  published := rfl
  applied := EffectOrder.unpack?_pack .default

variable {e : Engine σ π γ} {kinds : List EffectKind}

omit [Elementary σ] [Elementary π] [Precision σ π] [Transform σ γ] in
theorem Orders.unpack? (h : e.Orders kinds) :
    EffectOrder.unpack? e.mix.order = some ⟨kinds, h.complete⟩ := by
  rw [h.published]
  exact EffectOrder.unpack?_pack ⟨kinds, h.complete⟩

omit [Elementary σ] [Elementary π] [Precision σ π] [Transform σ γ] in
/-- A word that has not changed is the one that the chain works with already. -/
theorem Orders.applyOrder (h : e.Orders kinds) :
    e.applyOrder.chain.order = ⟨kinds, h.complete⟩ := by
  unfold Engine.applyOrder
  split
  · rename_i hsame
    have happlied := h.applied
    rw [← hsame, h.unpack?] at happlied
    exact (Option.some.inj happlied).symm
  · rw [h.unpack?]

theorem order_tuned (e : Engine σ π γ) : e.tuned.order = e.applyOrder.chain.order := by
  refine EffectChain.run_keeps (fun call hcall c => ?_) _
  obtain ⟨kind, -, hcall⟩ := List.mem_flatMap.mp hcall
  rw [EffectChain.order_perform]
  rcases List.mem_cons.mp hcall with rfl | hcall
  · rfl
  · obtain ⟨⟨value, index⟩, -, rfl⟩ := List.mem_map.mp hcall
    rfl

/-- A rendered block leaves the chain in the order that was set. -/
theorem Orders.chain_rendered (h : e.Orders kinds) {b : BlockRequest π}
    (hnone : (e.refusal? b).isNone) :
    (e.perform (.process b)).chain.order = ⟨kinds, h.complete⟩ := by
  have hrow : (e.tuned.run (e.waiting.map .convolver)).order = e.tuned.order := by
    refine EffectChain.run_keeps (fun call hcall c => ?_) _
    obtain ⟨next, -, rfl⟩ := List.mem_map.mp hcall
    rfl
  rw [perform_process, if_pos hnone, finish_eq, EffectChain.order_perform, midBlock_eq,
    applyControls_eq]
  exact hrow.trans (e.order_tuned.trans h.applyOrder)

theorem Orders.rendered (h : e.Orders kinds) {b : BlockRequest π}
    (hnone : (e.refusal? b).isNone) : (e.perform (.process b)).Orders kinds := by
  have hpublished : (e.perform (.process b)).mix.order = e.mix.order ∧
      (e.perform (.process b)).appliedOrder = e.mix.order := by
    rw [perform_process, if_pos hnone, finish_eq, midBlock_eq, applyControls_eq]
    exact ⟨rfl, rfl⟩
  exact ⟨h.complete, hpublished.1.trans h.published,
    by rw [hpublished.2, h.unpack?, h.chain_rendered hnone]⟩

theorem Orders.perform (h : e.Orders kinds) (call : Call σ π) :
    (e.perform call).Orders ((orderSet? call).getD kinds) := by
  cases call with
  | process b =>
      by_cases hnone : (e.refusal? b).isNone = true
      · exact h.rendered hnone
      · rw [perform_process, if_neg hnone]
        exact h
  | rate sampleRate =>
      rw [Engine.perform]
      by_cases hsame : sampleRate = e.sampleRate
      · rw [setRate, if_pos hsame]
        exact h
      · rw [setRate_eq e hsame]
        exact ⟨h.complete, h.published, h.applied⟩
  | collect => exact ⟨h.complete, h.published, h.applied⟩
  | request r =>
      cases r with
      | order asked =>
          rw [Engine.perform, request, setOrder_eq, orderSet?]
          by_cases hasked : asked.Perm EffectKind.all
          · rw [if_pos hasked, if_pos hasked]
            exact ⟨hasked, rfl, h.applied⟩
          · rw [if_neg hasked, if_neg hasked]
            exact h
      | layer index change =>
          rw [Engine.perform, request, modifyLayer]
          split <;> exact ⟨h.complete, h.published, h.applied⟩
      | param kind index value =>
          rw [Engine.perform, request, setParam]
          split <;> exact ⟨h.complete, h.published, h.applied⟩
      | response response =>
          rw [Engine.perform, request, setResponse]
          split <;> exact ⟨h.complete, h.published, h.applied⟩
      | _ => exact ⟨h.complete, h.published, h.applied⟩

theorem orders_run (s : EngineSetup) (calls : List (Call σ π)) :
    ((create s : Engine σ π γ).run calls).Orders (lastOrder calls) := by
  induction calls using List.reverseRecOn with
  | nil => exact orders_create s
  | append_singleton calls call ih =>
      rw [run_concat, lastOrder_concat]
      exact ih.perform call

/-- After any run the player is told the list that was accepted last, and a
block that is rendered leaves the chain with it; a list is accepted if it names
every effect once, and else nothing changes.  Words give and take exactly such
lists. -/
theorem last_order_arrives (s : EngineSetup) (calls : List (Call σ π)) :
    let e : Engine σ π γ := (create s).run calls
    e.order.kinds = lastOrder calls ∧
      (∀ b later out, e.process b = .ok (later, out) →
        later.chain.order.kinds = lastOrder calls) ∧
      (∀ kinds, (e.setOrder kinds).isOk = true ↔ kinds.Perm EffectKind.all) ∧
      (∀ kinds, ¬ kinds.Perm EffectKind.all → e.setOrder kinds = .error .invalidEffectOrder ∧
        e.perform (.request (.order kinds)) = e) ∧
      (∀ (word : UInt64) (kinds : List EffectKind),
        (EffectOrder.unpack? word).map EffectOrder.kinds = some kinds ↔
          kinds.Perm EffectKind.all ∧ word &&& 0xffffffffff = EffectOrder.packed kinds) ∧
      ∀ kinds, (EffectOrder.isPermutation kinds = true ↔ kinds.Perm EffectKind.all) ∧
        ((EffectOrder.unpack? (EffectOrder.packed kinds)).map EffectOrder.kinds = some kinds ↔
          EffectOrder.isPermutation kinds = true) := by
  intro e
  have horders : e.Orders (lastOrder calls) := orders_run s calls
  refine ⟨?_, fun b later out hb => ?_, fun kinds => ?_, fun kinds hkinds => ?_,
    fun _ _ => EffectOrder.map_unpack?_eq_some_iff,
    fun kinds => ⟨EffectOrder.isPermutation_iff, ?_⟩⟩
  · rw [order, horders.unpack?]
    rfl
  · have hnone : (e.refusal? b).isNone := by
      rw [process] at hb
      split at hb
      · cases hb
      · rename_i hrefusal
        rw [hrefusal]
        rfl
    have hlater : e.perform (.process b) = later := by
      rw [Engine.perform, hb]
      rfl
    rw [← hlater, horders.chain_rendered hnone]
  · rw [setOrder_eq]
    split <;> simp_all [Except.isOk, Except.toBool]
  · have hrefused : e.setOrder kinds = .error .invalidEffectOrder := by
      rw [setOrder_eq, if_neg hkinds]
    refine ⟨hrefused, ?_⟩
    rw [Engine.perform, request, hrefused]
    rfl
  · rw [EffectOrder.map_unpack?_packed_iff, EffectOrder.isPermutation_iff]

end Engine

end Multisample
