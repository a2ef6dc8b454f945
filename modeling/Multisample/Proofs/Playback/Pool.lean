import Mathlib.Data.List.Basic
import Multisample.Playback.VoicePool

/-!
# The voices of a pool

A pool is seen through the list of its sounding voices.  Of the operations one
starts a voice, in a free slot or in the place of one other voice; every other
changes the voices one by one or keeps those that pass a test.  The pools that
can arise are the ones that runs of these operations reach.
-/

namespace Multisample

variable {σ π : Type}

/-- The key of the voice has not been let go of. -/
def Voice.Holds (v : Voice σ π) : Prop :=
  v.envelope.stage = .attack ∨ v.envelope.stage = .sustain

namespace VoicePool

/-- The sounding voices, slot by slot. -/
def sounding (p : VoicePool σ π) : List (Voice σ π) :=
  p.slots.filterMap id

theorem mem_sounding {p : VoicePool σ π} {v : Voice σ π} :
    v ∈ p.sounding ↔ some v ∈ p.slots := by
  simp [sounding, List.mem_filterMap]

theorem mem_voices {p : VoicePool σ π} {v : Voice σ π} {index : ℕ} :
    (v, index) ∈ p.voices ↔ p.slots[index]? = some (some v) := by
  simp only [voices, List.mem_filterMap, Prod.exists, List.mem_zipIdx_iff_getElem?]
  constructor
  · rintro ⟨slot, i, hslot, hv⟩
    obtain ⟨w, rfl, hw⟩ := Option.map_eq_some_iff.mp hv
    obtain ⟨rfl, rfl⟩ := Prod.mk.inj hw
    exact hslot
  · intro h
    exact ⟨some v, index, h, rfl⟩

theorem voices_map_fst (p : VoicePool σ π) : p.voices.map Prod.fst = p.sounding := by
  have key : ∀ (slots : List (Option (Voice σ π))) (k : ℕ),
      ((slots.zipIdx k).filterMap fun s => s.1.map (·, s.2)).map Prod.fst =
        slots.filterMap id := by
    intro slots
    induction slots with
    | nil => intro k; rfl
    | cons slot slots ih =>
        intro k
        cases slot <;> simp [List.zipIdx_cons, ih]
  exact key p.slots 0

/-! ## Changing and freeing voices -/

@[simp] theorem sounding_mapVoices (p : VoicePool σ π) (f : Voice σ π → Voice σ π) :
    (p.mapVoices f).sounding = p.sounding.map f := by
  simp only [sounding, mapVoices, List.filterMap_map, List.map_filterMap]
  rfl

@[simp] theorem sounding_free (p : VoicePool σ π) (test : Voice σ π → Bool) :
    (p.free test).1.sounding = p.sounding.filter fun v => !test v := by
  simp only [sounding, free]
  induction p.slots with
  | nil => rfl
  | cons slot slots ih =>
      cases slot with
      | none => simpa using ih
      | some v =>
          cases h : test v
          · simpa [h, Option.filter] using ih
          · simpa [h, Option.filter] using ih

theorem free_sounds (p : VoicePool σ π) (test : Voice σ π → Bool) :
    (p.free test).2 = (p.sounding.filter test).map fun v => v.sound := by
  rw [← voices_map_fst, List.filter_map, List.map_map]
  rfl

@[simp] theorem sounding_empty (capacity attack release : ℕ) :
    (empty capacity attack release : VoicePool σ π).sounding = [] := by
  simp [sounding, empty]

/-! ## Starting a voice -/

section start

variable [Scalar σ] [Scalar π]

/-- The voice that a pool makes of a start. -/
def voiceOf (p : VoicePool σ π) (v : VoiceStart σ π) : Voice σ π :=
  { v with
    streamer := Streamer.start v.sampleLoop
    envelope := Envelope.start p.attackFrames p.releaseFrames
    serial := p.nextSerial }

/-- A new voice is held, in its attack or already at full level. -/
theorem holds_voiceOf (p : VoicePool σ π) (v : VoiceStart σ π) : (p.voiceOf v).Holds := by
  unfold Voice.Holds voiceOf Envelope.start
  dsimp only
  split
  · exact Or.inr rfl
  · exact Or.inl rfl

omit [Scalar σ] [Scalar π] in
theorem mem_of_least? {α : Type} {before : α → α → Bool} {xs : List α} {x : α}
    (h : least? before xs = some x) : x ∈ xs := by
  cases xs with
  | nil => simp [least?] at h
  | cons y ys =>
      rw [least?, Option.some.injEq] at h
      subst h
      induction ys generalizing y with
      | nil => simp
      | cons z zs ih =>
          rw [List.foldl_cons]
          split
          · exact List.mem_cons_of_mem _ (ih z)
          · exact List.mem_cons.mpr ((List.mem_cons.mp (ih y)).imp_right (List.mem_cons_of_mem _))

omit [Scalar π] in
theorem slotFor?_lt {p : VoicePool σ π} {index : ℕ} (h : p.slotFor? = some index) :
    index < p.slots.length := by
  have hvoice : ∀ v, (v, index) ∈ p.voices → index < p.slots.length := fun v hv =>
    (List.getElem?_eq_some_iff.mp (mem_voices.mp hv)).1
  unfold slotFor? at h
  split at h
  · rename_i i hi
    rw [Option.some.injEq] at h
    subst h
    exact (List.findIdx?_eq_some_iff_findIdx_eq.mp hi).1
  · split at h
    · rename_i v i hi
      rw [Option.some.injEq] at h
      subst h
      exact hvoice v (List.mem_of_mem_filter (mem_of_least? hi))
    · obtain ⟨⟨v, i⟩, hi, rfl⟩ := Option.map_eq_some_iff.mp h
      exact hvoice v (mem_of_least? hi)

/-- The voice, if any, that has to make room for the next one. -/
def evicted (p : VoicePool σ π) : List (Voice σ π) :=
  (p.slotFor?.bind fun index => (p.slots[index]?).join).toList

/-- A start either finds no slot and changes nothing, or puts the new voice
into one slot and gives back the sound of the voice that was in it. -/
theorem start_cases (p : VoicePool σ π) (v : VoiceStart σ π) :
    p.evicted = [] ∧ p.start v = ⟨p, none, []⟩ ∨
      ∃ front old back index, p.slots = front ++ old :: back ∧ p.evicted = old.toList ∧
        p.start v = ⟨{ p with
            slots := front ++ some (p.voiceOf v) :: back
            nextSerial := p.nextSerial + 1 }, some index,
          old.toList.map fun w => w.sound⟩ := by
  unfold start evicted
  cases h : p.slotFor? with
  | none => exact Or.inl ⟨rfl, rfl⟩
  | some index =>
      have hlt := slotFor?_lt h
      refine Or.inr ⟨p.slots.take index, p.slots[index], p.slots.drop (index + 1), index, ?_, ?_, ?_⟩
      · rw [List.getElem_cons_drop hlt, List.take_append_drop]
      · simp [hlt]
      · simp [List.set_eq_take_append_cons_drop, hlt, voiceOf, Option.toList_map]

theorem mem_sounding_start {p : VoicePool σ π} {v : VoiceStart σ π} {w : Voice σ π}
    (h : w ∈ (p.start v).pool.sounding) : w = p.voiceOf v ∨ w ∈ p.sounding := by
  obtain ⟨-, hstart⟩ | ⟨front, old, back, index, hslots, -, hstart⟩ := p.start_cases v
  · rw [hstart] at h
    exact Or.inr h
  · rw [hstart, mem_sounding] at h
    rw [mem_sounding, hslots]
    rcases List.mem_append.mp h with h | h
    · exact Or.inr (List.mem_append_left _ h)
    · rcases List.mem_cons.mp h with h | h
      · exact Or.inl (Option.some.inj h)
      · exact Or.inr (List.mem_append_right _ (List.mem_cons_of_mem _ h))

end start

end VoicePool

end Multisample
