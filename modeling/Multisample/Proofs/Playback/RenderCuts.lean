import Multisample.Proofs.Effects.Cuts
import Multisample.Proofs.Playback.PoolRuns

/-!
# Where blocks are cut does not matter to a pool

A voice may finish within a block.  It is passed over for the rest of that block
and adds nothing to later ones, so it is not missed when it is freed between two
blocks.  Every other voice is taken on frame by frame, and it reads no more of a
block than the frame that it adds to.
-/

namespace Multisample

variable {σ π : Type} [Scalar σ] [Scalar π] [Precision σ π]

namespace Voice

theorem after_of_finished {v : Voice σ π} (h : v.isFinished = true) (step : π) (frames : ℕ) :
    v.after step frames = v := by
  cases frames with
  | zero => rfl
  | succ frames => rw [after, if_pos h]

theorem addTo_of_finished {v : Voice σ π} (h : v.isFinished = true) (step : π)
    (block : List (Frame σ)) : addTo step v block = (v, block) := by
  cases block with
  | nil => rfl
  | cons x rest => rw [addTo, if_pos h]

theorem after_add (step : π) (n m : ℕ) (v : Voice σ π) :
    v.after step (n + m) = (v.after step n).after step m := by
  induction n generalizing v with
  | zero => rw [Nat.zero_add, after]
  | succ n ih =>
      rw [Nat.add_right_comm, after, after]
      split
      · rename_i h
        exact (after_of_finished h step m).symm
      · exact ih _

theorem addTo_append (step : π) (v : Voice σ π) (xs ys : List (Frame σ)) :
    (addTo step v (xs ++ ys)).2 =
      (addTo step v xs).2 ++ (addTo step (v.after step xs.length) ys).2 := by
  induction xs generalizing v with
  | nil => rfl
  | cons x xs ih =>
      rw [List.cons_append, addTo, addTo, List.length_cons, after]
      split
      · rename_i h
        rw [addTo_of_finished h, List.cons_append]
      · rw [List.cons_append, ← ih]

/-- A voice taken on by so many frames, if the layer is its own. -/
def rendered (layer rate frames : ℕ) (v : Voice σ π) : Voice σ π :=
  if v.layer == layer then v.after (v.step rate) frames else v

theorem toVoiceStart_after (step : π) (frames : ℕ) (v : Voice σ π) :
    (v.after step frames).toVoiceStart = v.toVoiceStart :=
  congrArg Prod.snd (v.identity_after step frames)

theorem step_after (step : π) (frames rate : ℕ) (v : Voice σ π) :
    (v.after step frames).step rate = v.step rate := by
  simp only [Voice.step, toVoiceStart_after]

theorem rendered_add (layer rate n m : ℕ) (v : Voice σ π) :
    v.rendered layer rate (n + m) = (v.rendered layer rate n).rendered layer rate m := by
  unfold rendered
  by_cases h : (v.layer == layer) = true
  · simp only [h, if_true, toVoiceStart_after, step_after, after_add]
  · simp only [h, Bool.false_eq_true, if_false]

theorem rendered_of_finished {v : Voice σ π} (h : v.isFinished = true) (layer rate frames : ℕ) :
    v.rendered layer rate frames = v := by
  rw [rendered, after_of_finished h, ite_self]

theorem rendered_of_ne {v : Voice σ π} {layer : ℕ} (h : v.layer ≠ layer) (rate frames : ℕ) :
    v.rendered layer rate frames = v := by
  rw [rendered, if_neg (by simpa using h)]

theorem layer_rendered (layer rate frames : ℕ) (v : Voice σ π) :
    (v.rendered layer rate frames).layer = v.layer := by
  unfold rendered
  split
  · rw [toVoiceStart_after]
  · rfl

end Voice

namespace VoicePool

/-! ## Slots -/

/-- A block with what the voice of a slot adds to it. -/
def addSlot (layer rate : ℕ) (block : List (Frame σ)) : Option (Voice σ π) → List (Frame σ)
  | none => block
  | some v => if v.layer == layer then (v.addTo (v.step rate) block).2 else block

theorem renderLayer_snd (p : VoicePool σ π) (layer rate : ℕ) (block : List (Frame σ)) :
    (p.renderLayer layer rate block).2 = p.slots.foldl (addSlot layer rate) block := by
  unfold renderLayer
  refine (List.foldl_hom Prod.snd fun done slot => ?_).symm
  cases slot with
  | none => rfl
  | some v =>
      unfold addSlot
      dsimp only
      split <;> rfl

theorem addSlot_append (layer rate : ℕ) (slot : Option (Voice σ π)) (xs ys : List (Frame σ)) :
    addSlot layer rate (xs ++ ys) slot =
      addSlot layer rate xs slot ++
        addSlot layer rate ys (slot.map (Voice.rendered layer rate xs.length)) := by
  cases slot with
  | none => rfl
  | some v =>
      by_cases h : (v.layer == layer) = true
      · simp only [addSlot, Option.map_some, Voice.rendered, h, if_true, Voice.toVoiceStart_after,
          Voice.step_after, Voice.addTo_append]
      · simp only [addSlot, Option.map_some, Voice.rendered, h, Bool.false_eq_true, if_false]

theorem addSlot_length (layer rate : ℕ) (block : List (Frame σ)) (slot : Option (Voice σ π)) :
    (addSlot layer rate block slot).length = block.length := by
  cases slot with
  | none => rfl
  | some v =>
      unfold addSlot
      dsimp only
      split
      · exact v.addTo_length _ block
      · rfl

theorem addSlots_append (layer rate : ℕ) (slots : List (Option (Voice σ π)))
    (xs ys : List (Frame σ)) :
    slots.foldl (addSlot layer rate) (xs ++ ys) =
      slots.foldl (addSlot layer rate) xs ++
        (slots.map (Option.map (Voice.rendered layer rate xs.length))).foldl (addSlot layer rate)
          ys := by
  induction slots generalizing xs ys with
  | nil => rfl
  | cons slot slots ih =>
      rw [List.foldl_cons, addSlot_append, ih, addSlot_length]
      rfl

omit [Scalar σ] [Scalar π] [Precision σ π] in
theorem mapVoices_mapVoices (p : VoicePool σ π) (f g : Voice σ π → Voice σ π) :
    (p.mapVoices f).mapVoices g = p.mapVoices fun v => g (f v) := by
  simp [mapVoices, Function.comp_def]

theorem renderLayer_rendered (p : VoicePool σ π) (layer rate : ℕ) (block : List (Frame σ)) :
    (p.renderLayer layer rate block).1 = p.mapVoices (Voice.rendered layer rate block.length) :=
  p.renderLayer_fst layer rate block

/-- A layer can be rendered in two parts: the voices come to the same states and
the parts to the same block. -/
theorem cutsAnywhere_renderLayer (layer rate : ℕ) :
    CutsAnywhere fun (p : VoicePool σ π) block => p.renderLayer layer rate block := by
  intro p xs ys
  refine Prod.ext ?_ ?_
  · simp only [renderLayer_rendered, mapVoices_mapVoices, List.length_append]
    exact congrArg p.mapVoices (funext (Voice.rendered_add layer rate xs.length ys.length))
  · simp only [renderLayer_snd, renderLayer_rendered, mapVoices]
    exact addSlots_append layer rate p.slots xs ys

/-! ## Freeing the voices that have finished -/

theorem addSlot_unfinished (layer rate : ℕ) (block : List (Frame σ)) (slot : Option (Voice σ π)) :
    addSlot layer rate block (slot.filter fun v => !v.isFinished) =
      addSlot layer rate block slot := by
  cases slot with
  | none => rfl
  | some v =>
      by_cases h : v.isFinished = true
      · simp [addSlot, Option.filter, h, Voice.addTo_of_finished h]
      · simp [Option.filter, h]

/-- The voices that endBlock frees are not missed. -/
theorem renderLayer_endBlock (p : VoicePool σ π) (layer rate : ℕ) (block : List (Frame σ)) :
    (p.endBlock.1.renderLayer layer rate block).2 = (p.renderLayer layer rate block).2 := by
  simp only [renderLayer_snd, endBlock, free, List.foldl_map, addSlot_unfinished]

theorem endBlock_renderLayer (p : VoicePool σ π) (layer rate : ℕ) (block : List (Frame σ)) :
    (p.endBlock.1.renderLayer layer rate block).1.endBlock.1 =
      (p.renderLayer layer rate block).1.endBlock.1 := by
  simp only [renderLayer_rendered, endBlock, free, mapVoices, List.map_map]
  congr 1
  refine List.map_congr_left fun slot _ => ?_
  cases slot with
  | none => rfl
  | some v =>
      by_cases h : v.isFinished = true
      · simp [Option.filter, h, Voice.rendered_of_finished h]
      · simp [Option.filter, h]

/-! ## Other layers -/

theorem slot_renderLayer_of_ne (p : VoicePool σ π) {layer : ℕ} (rate : ℕ) (block : List (Frame σ))
    (index : ℕ) {v : Voice σ π} (h : v.layer ≠ layer) :
    (p.renderLayer layer rate block).1.slots[index]? = some (some v) ↔
      p.slots[index]? = some (some v) := by
  simp only [renderLayer_rendered, mapVoices, List.getElem?_map, Option.map_eq_some_iff]
  constructor
  · rintro ⟨slot, hslot, w, rfl, rfl⟩
    rw [Voice.layer_rendered] at h
    rw [hslot, Voice.rendered_of_ne h]
  · intro hslot
    exact ⟨some v, hslot, v, rfl, Voice.rendered_of_ne h rate block.length⟩

omit [Scalar σ] [Scalar π] [Precision σ π] in
theorem slot_endBlock (p : VoicePool σ π) (index : ℕ) {v : Voice σ π} (h : v.isFinished = false) :
    p.endBlock.1.slots[index]? = some (some v) ↔ p.slots[index]? = some (some v) := by
  simp only [endBlock, free, List.getElem?_map, Option.map_eq_some_iff, Option.filter_eq_some_iff]
  constructor
  · rintro ⟨slot, hslot, rfl, -⟩
    exact hslot
  · intro hslot
    exact ⟨some v, hslot, rfl, by simp [h]⟩

/-- A layer is rendered in one part, in two, or in two with the finished voices
freed in between.  The same is heard each time, and the same voices go on sounding
in the same states.  The voices of other layers stay as they are. -/
theorem render_cut (p : VoicePool σ π) (layer rate n m : ℕ) :
    let silence (frames : ℕ) : List (Frame σ) := List.replicate frames Frame.silence
    let whole := p.renderLayer layer rate (silence (n + m))
    let first := p.renderLayer layer rate (silence n)
    let second := first.1.renderLayer layer rate (silence m)
    let ended := first.1.endBlock.1.renderLayer layer rate (silence m)
    (whole.2 = first.2 ++ second.2 ∧ whole.2 = first.2 ++ ended.2) ∧
      (whole.1 = second.1 ∧ whole.1.endBlock.1 = ended.1.endBlock.1) ∧
      ∀ (index : ℕ) (v : Voice σ π), v.layer ≠ layer →
        (whole.1.slots[index]? = some (some v) ↔ p.slots[index]? = some (some v)) ∧
        (v.isFinished = false →
          (ended.1.slots[index]? = some (some v) ↔ p.slots[index]? = some (some v))) := by
  intro silence whole first second ended
  have hcut : whole = (second.1, first.2 ++ second.2) := by
    have hsilence : silence (n + m) = silence n ++ silence m := List.replicate_add ..
    calc whole = p.renderLayer layer rate (silence n ++ silence m) := by rw [← hsilence]
      _ = _ := cutsAnywhere_renderLayer layer rate p (silence n) (silence m)
  have hended : ended.2 = second.2 := first.1.renderLayer_endBlock layer rate (silence m)
  have hsounding : ended.1.endBlock.1 = second.1.endBlock.1 :=
    first.1.endBlock_renderLayer layer rate (silence m)
  refine ⟨⟨?_, ?_⟩, ⟨?_, ?_⟩, fun index v hv => ⟨?_, fun h => ?_⟩⟩
  · rw [hcut]
  · rw [hended, hcut]
  · rw [hcut]
  · rw [hsounding, hcut]
  · exact p.slot_renderLayer_of_ne rate _ index hv
  · calc ended.1.slots[index]? = some (some v)
        ↔ first.1.endBlock.1.slots[index]? = some (some v) :=
          slot_renderLayer_of_ne _ rate _ index hv
      _ ↔ first.1.slots[index]? = some (some v) := slot_endBlock _ index h
      _ ↔ p.slots[index]? = some (some v) := p.slot_renderLayer_of_ne rate _ index hv

end VoicePool

end Multisample
