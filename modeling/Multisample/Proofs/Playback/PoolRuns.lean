import Mathlib.Algebra.Order.Group.Multiset
import Multisample.Proofs.Effects.ChainCalls
import Multisample.Proofs.Playback.Pool

/-!
# Runs of a pool

Seven calls reach a pool.  Whatever they do, a voice keeps its serial number
and what it was started with for as long as it sounds: a call either changes
the voices in place, or keeps some and lets the others leave, or lets one voice
enter and at most one leave.
-/

namespace Multisample

variable {σ π : Type}

namespace Voice

/-- What stays the same while a voice sounds. -/
def identity (v : Voice σ π) : ℕ × VoiceStart σ π :=
  (v.serial, v.toVoiceStart)

variable [Scalar σ] [Scalar π] [Precision σ π]

/-- A voice some frames later; once it has finished it stays as it is. -/
def after (step : π) : ℕ → Voice σ π → Voice σ π
  | 0, v => v
  | frames + 1, v => if v.isFinished then v else after step frames (v.next step).1

@[simp] theorem identity_after (step : π) (frames : ℕ) (v : Voice σ π) :
    (v.after step frames).identity = v.identity := by
  induction frames generalizing v with
  | zero => rfl
  | succ frames ih =>
      rw [after]
      split
      · rfl
      · exact ih _

/-- What becomes of a voice does not depend on the block that it is added to. -/
theorem addTo_fst (step : π) (v : Voice σ π) (block : List (Frame σ)) :
    (addTo step v block).1 = v.after step block.length := by
  induction block generalizing v with
  | nil => rfl
  | cons x rest ih =>
      rw [addTo, List.length_cons, after]
      split
      · rfl
      · exact ih _

theorem addTo_length (step : π) (v : Voice σ π) (block : List (Frame σ)) :
    (addTo step v block).2.length = block.length := by
  induction block generalizing v with
  | nil => rfl
  | cons x rest ih =>
      rw [addTo]
      split
      · rfl
      · exact congrArg Nat.succ (ih _)

end Voice

namespace VoicePool

/-- A row that is collected in reverse, while something else is handed on from
step to step. -/
theorem foldl_collect {α β τ : Type} {step : List β × τ → α → List β × τ} {f : α → β}
    {P : τ → Prop}
    (hstep : ∀ done rest x, P rest →
      (step (done, rest) x).1 = f x :: done ∧ P (step (done, rest) x).2) :
    ∀ (xs : List α) (done : List β) (rest : τ), P rest →
      (xs.foldl step (done, rest)).1 = (xs.map f).reverse ++ done ∧
        P (xs.foldl step (done, rest)).2
  | [], _, _, h => ⟨rfl, h⟩
  | x :: xs, done, rest, h => by
      obtain ⟨hdone, hrest⟩ := hstep done rest x h
      rw [List.foldl_cons, List.map_cons, List.reverse_cons, List.append_assoc,
        List.singleton_append, ← hdone]
      exact foldl_collect hstep xs _ _ hrest

variable [Scalar σ] [Scalar π] [Precision σ π]

/-- Rendering a layer takes each of its voices on by the frames of the block,
and the block keeps its length. -/
theorem renderLayer_spec (p : VoicePool σ π) (layer rate : ℕ) (block : List (Frame σ)) :
    (p.renderLayer layer rate block).1 = (p.mapVoices fun v =>
        if v.layer == layer then v.after (v.step rate) block.length else v) ∧
      (p.renderLayer layer rate block).2.length = block.length := by
  unfold renderLayer mapVoices
  dsimp only
  refine And.imp (fun hslots => ?_) id
    (foldl_collect (f := Option.map fun v =>
        if v.layer == layer then v.after (v.step rate) block.length else v)
      (P := fun mixed => mixed.length = block.length)
      (fun done mixed slot hlen => ?_) p.slots [] block rfl)
  · rw [hslots, List.append_nil, List.reverse_reverse]
  -- The block is handed from slot to slot, but only its length matters.
  · cases slot with
    | none => exact ⟨rfl, hlen⟩
    | some v =>
        dsimp only
        rw [Option.map_some]
        split
        · exact ⟨by rw [Voice.addTo_fst, hlen], (v.addTo_length _ mixed).trans hlen⟩
        · exact ⟨rfl, hlen⟩

theorem renderLayer_fst (p : VoicePool σ π) (layer rate : ℕ) (block : List (Frame σ)) :
    (p.renderLayer layer rate block).1 = p.mapVoices fun v =>
      if v.layer == layer then v.after (v.step rate) block.length else v :=
  (p.renderLayer_spec layer rate block).1

theorem renderLayer_fst_of_inactive {p : VoicePool σ π} {layer : ℕ} (h : p.activeIn layer = 0)
    (rate : ℕ) (block : List (Frame σ)) : (p.renderLayer layer rate block).1 = p := by
  have hother : ∀ v, some v ∈ p.slots → (v.layer == layer) = false := by
    intro v hv
    obtain ⟨index, hindex⟩ := List.getElem?_of_mem hv
    by_contra hl
    rw [Bool.not_eq_false] at hl
    refine absurd (List.eq_nil_of_length_eq_zero h) (List.ne_nil_of_mem (a := (v, index)) ?_)
    exact List.mem_filter.mpr ⟨mem_voices.mpr hindex, hl⟩
  rw [renderLayer_fst, mapVoices]
  congr 1
  conv_rhs => rw [← List.map_id p.slots]
  apply List.map_congr_left
  intro slot hslot
  cases slot with
  | none => rfl
  | some v => simp only [Option.map_some, hother v hslot, id, Bool.false_eq_true, if_false]

/-! ## Calls -/

/-- What can be asked of a pool. -/
inductive Call (σ π : Type) where
  | start (v : VoiceStart σ π)
  | release (layer key channel : ℕ)
  | releaseAll (layer : Option ℕ)
  | killAll (layer : Option ℕ)
  | setEnvelope (attackFrames releaseFrames : ℕ)
  | render (layer rate : ℕ) (block : List (Frame σ))
  | endBlock

def perform (p : VoicePool σ π) : Call σ π → VoicePool σ π
  | .start v => (p.start v).pool
  | .release layer key channel => p.release layer key channel
  | .releaseAll layer => p.releaseAll layer
  | .killAll layer => (p.killAll layer).1
  | .setEnvelope attackFrames releaseFrames => p.setEnvelope attackFrames releaseFrames
  | .render layer rate block => (p.renderLayer layer rate block).1
  | .endBlock => p.endBlock.1

def run (p : VoicePool σ π) (calls : List (Call σ π)) : VoicePool σ π :=
  calls.foldl perform p

/-- The sounds that a call gives back. -/
def released (p : VoicePool σ π) : Call σ π → List (Sound σ)
  | .start v => (p.start v).released
  | .killAll layer => (p.killAll layer).2
  | .endBlock => p.endBlock.2
  | _ => []

/-- The voices that a call puts into a slot. -/
def entrants (p : VoicePool σ π) : Call σ π → List (Voice σ π)
  | .start v => if (p.start v).slot.isSome then [p.voiceOf v] else []
  | _ => []

/-- The voices that a call takes out of their slots. -/
def leavers (p : VoicePool σ π) : Call σ π → List (Voice σ π)
  | .start _ => p.evicted
  | .killAll layer => p.sounding.filter fun v => layer.all (· == v.layer)
  | .endBlock => p.sounding.filter Voice.isFinished
  | _ => []

omit [Precision σ π] in
/-- The sounds given back are those of the voices that leave. -/
theorem released_eq (p : VoicePool σ π) (call : Call σ π) :
    p.released call = (p.leavers call).map fun v => v.sound := by
  cases call with
  | start v =>
      obtain ⟨hnone, h⟩ | ⟨front, old, back, index, -, hold, h⟩ := p.start_cases v
      · rw [released, h, leavers, hnone, List.map_nil]
      · rw [released, h, leavers, hold]
  | killAll layer => exact free_sounds ..
  | endBlock => exact free_sounds ..
  | _ => rfl

/-- What a call can do: change the voices in place, let some of them leave, or
put one voice into a slot. -/
theorem perform_cases (p : VoicePool σ π) (call : Call σ π) :
    (∃ f : Voice σ π → Voice σ π, (∀ v, (f v).identity = v.identity) ∧
        (p.perform call).sounding = p.sounding.map f ∧
        (p.perform call).nextSerial = p.nextSerial ∧ p.entrants call = [] ∧ p.leavers call = []) ∨
      (∃ test : Voice σ π → Bool, (p.perform call).sounding = p.sounding.filter (fun v => !test v) ∧
        (p.perform call).nextSerial = p.nextSerial ∧ p.entrants call = [] ∧
        p.leavers call = p.sounding.filter test) ∨
      ∃ v front old back, call = .start v ∧ p.sounding = front ++ old ++ back ∧
        (p.perform call).sounding = front ++ p.voiceOf v :: back ∧
        (p.perform call).nextSerial = p.nextSerial + 1 ∧ p.entrants call = [p.voiceOf v] ∧
        p.leavers call = old := by
  cases call with
  | start v =>
      obtain ⟨hnone, h⟩ | ⟨front, old, back, index, hslots, hold, h⟩ := p.start_cases v
      · refine Or.inl ⟨id, fun _ => rfl, ?_, ?_, ?_, hnone⟩ <;> simp [perform, entrants, h]
      · refine Or.inr (Or.inr ⟨v, front.filterMap id, old.toList, back.filterMap id, rfl, ?_, ?_, ?_,
          ?_, hold⟩)
        · cases old <;> simp [sounding, hslots]
        · simp [perform, h, sounding]
        · simp [perform, h]
        · simp [entrants, h]
  | release layer key channel =>
      refine Or.inl ⟨_, ?_, sounding_mapVoices .., rfl, rfl, rfl⟩
      intro v
      split <;> rfl
  | releaseAll layer =>
      refine Or.inl ⟨_, ?_, sounding_mapVoices .., rfl, rfl, rfl⟩
      intro v
      split <;> rfl
  | killAll layer => exact Or.inr (Or.inl ⟨_, sounding_free .., rfl, rfl, rfl⟩)
  | setEnvelope attackFrames releaseFrames =>
      exact Or.inl ⟨id, fun _ => rfl, (List.map_id _).symm, rfl, rfl, rfl⟩
  | render layer rate block =>
      have h : p.perform (.render layer rate block) = p.mapVoices fun v =>
          if v.layer == layer then v.after (v.step rate) block.length else v :=
        p.renderLayer_fst layer rate block
      refine Or.inl ⟨_, ?_, h ▸ sounding_mapVoices .., h ▸ rfl, rfl, rfl⟩
      intro v
      split
      · exact v.identity_after _ _
      · rfl
  | endBlock => exact Or.inr (Or.inl ⟨_, sounding_free .., rfl, rfl, rfl⟩)

/-! ## Voices along a run -/

/-- What each call of a run contributes, read off the pool that the call finds. -/
def along {α : Type} (f : VoicePool σ π → Call σ π → List α) :
    VoicePool σ π → List (Call σ π) → List α
  | _, [] => []
  | p, call :: rest => f p call ++ along f (p.perform call) rest

theorem run_append (p : VoicePool σ π) (calls more : List (Call σ π)) :
    p.run (calls ++ more) = (p.run calls).run more :=
  List.foldl_append

theorem along_append {α : Type} (f : VoicePool σ π → Call σ π → List α) (p : VoicePool σ π)
    (calls more : List (Call σ π)) :
    along f p (calls ++ more) = along f p calls ++ along f (p.run calls) more := by
  induction calls generalizing p with
  | nil => rfl
  | cons call rest ih =>
      rw [List.cons_append, along, along, ih, List.append_assoc]
      rfl

theorem along_map {α β : Type} (f : VoicePool σ π → Call σ π → List α) (g : α → β)
    (p : VoicePool σ π) (calls : List (Call σ π)) :
    (along f p calls).map g = along (fun p call => (f p call).map g) p calls := by
  induction calls generalizing p with
  | nil => rfl
  | cons call rest ih => rw [along, along, List.map_append, ih]

theorem along_eq_nil {α : Type} {f : VoicePool σ π → Call σ π → List α} {calls : List (Call σ π)}
    (h : ∀ call ∈ calls, ∀ p, f p call = []) (p : VoicePool σ π) : along f p calls = [] := by
  induction calls generalizing p with
  | nil => rfl
  | cons call rest ih =>
      rw [along, h call List.mem_cons_self,
        ih (fun other hother => h other (List.mem_cons_of_mem _ hother)), List.append_nil]

theorem along_released (p : VoicePool σ π) (calls : List (Call σ π)) :
    along released p calls = (along leavers p calls).map fun v => v.sound := by
  rw [along_map]
  congr 1
  funext p call
  exact p.released_eq call

omit [Scalar σ] [Scalar π] [Precision σ π] in
def identities (voices : List (Voice σ π)) : Multiset (ℕ × VoiceStart σ π) :=
  ↑(voices.map Voice.identity)

/-- No call loses a voice or counts one twice. -/
theorem perform_conserves (p : VoicePool σ π) (call : Call σ π) :
    identities (p.perform call).sounding + identities (p.leavers call) =
      identities p.sounding + identities (p.entrants call) := by
  obtain ⟨f, hf, hs, -, he, hl⟩ | ⟨test, hs, -, he, hl⟩ |
    ⟨v, front, old, back, -, hp, hs, -, he, hl⟩ := p.perform_cases call
  · simp [identities, hs, he, hl, Function.comp_def, hf]
  · rw [hs, he, hl]
    simp only [identities, Multiset.coe_add, ← List.map_append, List.append_nil, Multiset.coe_eq_coe]
    exact (List.perm_append_comm.trans (List.filter_append_perm test p.sounding)).map _
  · rw [hs, he, hl, hp]
    simp only [identities, Multiset.coe_add, ← List.map_append, Multiset.coe_eq_coe]
    refine List.Perm.map _ ?_
    have hold : (back ++ old).Perm (old ++ back) := List.perm_append_comm
    have hback : (p.voiceOf v :: back ++ old).Perm (old ++ back ++ [p.voiceOf v]) :=
      (hold.cons _).trans (List.perm_append_singleton _ _).symm
    simpa [List.append_assoc] using hback.append_left front

theorem run_conserves (p : VoicePool σ π) (calls : List (Call σ π)) :
    identities (p.run calls).sounding + identities (along leavers p calls) =
      identities p.sounding + identities (along entrants p calls) := by
  induction calls generalizing p with
  | nil => rfl
  | cons call rest ih =>
      have hcall := p.perform_conserves call
      have hrest := ih (p.perform call)
      simp only [along, identities, List.map_append, ← Multiset.coe_add] at *
      rw [run, List.foldl_cons, ← run]
      -- The voices between the first call and the rest stand on both sides.
      rw [add_left_comm, hrest, ← add_assoc, add_comm (Multiset.ofList _), hcall, add_assoc]

/-- A voice of a later pool sounded from the beginning or entered on the way. -/
theorem mem_run {p : VoicePool σ π} {calls : List (Call σ π)} {v : Voice σ π}
    (h : v ∈ (p.run calls).sounding) :
    ∃ w ∈ p.sounding ++ along entrants p calls, w.identity = v.identity := by
  have hmem : v.identity ∈ identities p.sounding + identities (along entrants p calls) := by
    rw [← run_conserves]
    exact Multiset.mem_add.mpr (Or.inl (List.mem_map_of_mem h))
  rw [identities, identities, Multiset.coe_add, ← List.map_append] at hmem
  exact List.mem_map.mp hmem

/-- Only starts let voices in. -/
theorem mem_entrants {p : VoicePool σ π} {calls : List (Call σ π)} {v : Voice σ π}
    (h : v ∈ along entrants p calls) : .start v.toVoiceStart ∈ calls := by
  induction calls generalizing p with
  | nil => exact absurd h List.not_mem_nil
  | cons call rest ih =>
      rcases List.mem_append.mp h with hv | hv
      · cases call with
        | start s =>
            rw [entrants] at hv
            split at hv
            · rw [List.mem_singleton.mp hv]
              exact List.mem_cons_self
            · exact absurd hv List.not_mem_nil
        | _ => exact absurd hv List.not_mem_nil
      · exact List.mem_cons_of_mem _ (ih hv)

/-! ## Serial numbers -/

/-- No two voices of a pool have one serial number, and the next one is free. -/
structure Numbered (p : VoicePool σ π) : Prop where
  nodup : (p.sounding.map fun v => v.serial).Nodup
  lt : ∀ v ∈ p.sounding, v.serial < p.nextSerial

omit [Scalar σ] [Scalar π] [Precision σ π] in
theorem numbered_empty (capacity attackFrames releaseFrames : ℕ) :
    (empty capacity attackFrames releaseFrames : VoicePool σ π).Numbered where
  nodup := by simp
  lt := by simp

theorem Numbered.perform {p : VoicePool σ π} (h : p.Numbered) (call : Call σ π) :
    (p.perform call).Numbered := by
  obtain ⟨f, hf, hs, hn, -⟩ | ⟨test, hs, hn, -⟩ |
    ⟨v, front, old, back, -, hp, hs, hn, -⟩ := p.perform_cases call
  · have hserial : ∀ v, (f v).serial = v.serial := fun v => congrArg Prod.fst (hf v)
    refine ⟨?_, ?_⟩
    · simpa only [hs, List.map_map, Function.comp_def, hserial] using h.nodup
    · rw [hs, hn]
      intro v hv
      obtain ⟨w, hw, rfl⟩ := List.mem_map.mp hv
      exact (hserial w).symm ▸ h.lt w hw
  · refine ⟨?_, ?_⟩
    · rw [hs]
      exact h.nodup.sublist (List.filter_sublist.map _)
    · rw [hs, hn]
      exact fun v hv => h.lt v (List.mem_of_mem_filter hv)
  -- The new voice gets a number that is above those of all others.
  · have hnodup := h.nodup
    have hlt := h.lt
    rw [hp] at hnodup hlt
    have hsub : (front ++ back).Sublist (front ++ old ++ back) := by
      rw [List.append_assoc]
      exact (List.sublist_append_right old back).append_left front
    have hold : ∀ w ∈ front ++ back, w.serial < p.nextSerial := fun w hw =>
      hlt w (hsub.subset hw)
    have hperm : (front ++ p.voiceOf v :: back).Perm (p.voiceOf v :: (front ++ back)) :=
      List.perm_middle
    refine ⟨?_, ?_⟩
    · rw [hs, (hperm.map _).nodup_iff, List.map_cons, List.nodup_cons]
      refine ⟨?_, hnodup.sublist (hsub.map _)⟩
      intro hmem
      obtain ⟨w, hw, heq⟩ := List.mem_map.mp hmem
      exact absurd heq (hold w hw).ne
    · rw [hs, hn]
      intro w hw
      rcases List.mem_cons.mp (hperm.mem_iff.mp hw) with rfl | hw
      · exact Nat.lt_succ_self _
      · exact Nat.lt_succ_of_lt (hold w hw)

theorem Numbered.run {p : VoicePool σ π} (h : p.Numbered) (calls : List (Call σ π)) :
    (p.run calls).Numbered := by
  induction calls generalizing p with
  | nil => exact h
  | cons call rest ih => exact ih (h.perform call)

/-- The voices that enter are numbered one after the other. -/
theorem serials_along (p : VoicePool σ π) (calls : List (Call σ π)) :
    p.nextSerial ≤ (p.run calls).nextSerial ∧
      (along entrants p calls).map (fun v => v.serial) =
        List.range' p.nextSerial ((p.run calls).nextSerial - p.nextSerial) := by
  induction calls generalizing p with
  | nil => simp [run, along]
  | cons call rest ih =>
      obtain ⟨hle, heq⟩ := ih (p.perform call)
      rw [run, List.foldl_cons, ← run, along, List.map_append, heq]
      obtain ⟨f, -, -, hn, he, -⟩ | ⟨test, -, hn, he, -⟩ |
        ⟨v, front, old, back, -, -, -, hn, he, -⟩ := p.perform_cases call
      · simpa [he, hn] using hle
      · simpa [he, hn] using hle
      · rw [hn] at hle ⊢
        refine ⟨Nat.le_of_succ_le hle, ?_⟩
        have hcount : (run (p.perform call) rest).nextSerial - p.nextSerial =
            (run (p.perform call) rest).nextSerial - (p.nextSerial + 1) + 1 := by omega
        rw [he, hcount, List.range'_succ]
        rfl

end VoicePool

end Multisample
