import Multisample.Proofs.Effects.ChainCalls

/-!
# Blocks that are worked on in place

A host hands the chain interleaved samples and a number of frames.  Every slot
that does not rest lets its effect write into room that all slots share, and
then overwrites the samples or blends them with what is there.  What comes of
it is what the chain makes of the frames that were asked for: samples behind
them stay as they are, and what the room held before is never heard.
-/

namespace Multisample

variable {σ π γ : Type}

/-! ## Interleaved samples -/

namespace Frame

/-- The frames of interleaved samples; an odd one at the end belongs to none. -/
def paired : List σ → List (Frame σ)
  | left :: right :: rest => ⟨left, right⟩ :: paired rest
  | _ => []

def interleaved (frames : List (Frame σ)) : List σ :=
  frames.flatMap fun x => [x.left, x.right]

theorem interleaved_length (frames : List (Frame σ)) :
    (interleaved frames).length = 2 * frames.length := by
  induction frames with
  | nil => rfl
  | cons x rest ih =>
      rw [interleaved, List.flatMap_cons, List.length_append, ← interleaved, ih]
      simp only [List.length_cons, List.length_nil]
      omega

/-- Frames are found again, with whatever comes behind them. -/
theorem paired_interleaved_append (frames : List (Frame σ)) (rest : List σ) :
    paired (interleaved frames ++ rest) = frames ++ paired rest := by
  induction frames with
  | nil => rfl
  | cons x frames ih => exact congrArg (List.cons x) ih

theorem paired_interleaved (frames : List (Frame σ)) : paired (interleaved frames) = frames := by
  simpa [paired] using paired_interleaved_append frames []

/-- An even number of samples is a number of frames. -/
theorem exists_interleaved :
    ∀ {count : ℕ} {samples : List σ}, samples.length = 2 * count →
      ∃ frames : List (Frame σ), frames.length = count ∧ samples = interleaved frames
  | 0, samples, h => ⟨[], rfl, List.length_eq_zero_iff.mp h⟩
  | count + 1, left :: right :: rest, h => by
      have hrest : rest.length = 2 * count := by
        simp only [List.length_cons] at h
        omega
      obtain ⟨frames, hlength, hframes⟩ := exists_interleaved hrest
      refine ⟨⟨left, right⟩ :: frames, ?_, ?_⟩
      · rw [List.length_cons, hlength]
      · rw [hframes]
        rfl
  | count + 1, [x], h => by
      simp only [List.length_cons, List.length_nil] at h
      omega
  | count + 1, [], h => by
      simp only [List.length_nil] at h
      omega

end Frame

/-- The samples of a block, and the room into which effects write. -/
structure Workspace (σ : Type) where
  buffer : List σ
  scratch : List σ

namespace Workspace

/-- The frames at the head of the buffer. -/
def block (w : Workspace σ) (count : ℕ) : List (Frame σ) :=
  Frame.paired (w.buffer.take (2 * count))

/-- A buffer with frames put over its head. -/
def overwrite (samples : List σ) (frames : List (Frame σ)) : List σ :=
  Frame.interleaved frames ++ samples.drop (2 * frames.length)

theorem overwrite_length {samples : List σ} {frames : List (Frame σ)}
    (h : 2 * frames.length ≤ samples.length) :
    (overwrite samples frames).length = samples.length := by
  rw [overwrite, List.length_append, Frame.interleaved_length, List.length_drop]
  omega

theorem take_overwrite (samples : List σ) (frames : List (Frame σ)) :
    (overwrite samples frames).take (2 * frames.length) = Frame.interleaved frames := by
  rw [overwrite, ← Frame.interleaved_length, List.take_left]

theorem drop_overwrite (samples : List σ) (frames : List (Frame σ)) :
    (overwrite samples frames).drop (2 * frames.length) = samples.drop (2 * frames.length) := by
  rw [overwrite, ← Frame.interleaved_length, List.drop_left]

theorem overwrite_overwrite (samples : List σ) {frames later : List (Frame σ)}
    (h : later.length = frames.length) :
    overwrite (overwrite samples frames) later = overwrite samples later := by
  rw [overwrite, h, drop_overwrite, ← h, ← overwrite]

theorem block_length {w : Workspace σ} {count : ℕ} (h : 2 * count ≤ w.buffer.length) :
    (w.block count).length = count := by
  have htake : (w.buffer.take (2 * count)).length = 2 * count := by
    rw [List.length_take]
    omega
  obtain ⟨frames, hlength, hframes⟩ := Frame.exists_interleaved htake
  rw [block, hframes, Frame.paired_interleaved, hlength]

/-- The block put over itself is the buffer. -/
theorem overwrite_block {w : Workspace σ} {count : ℕ} (h : 2 * count ≤ w.buffer.length) :
    overwrite w.buffer (w.block count) = w.buffer := by
  have htake : (w.buffer.take (2 * count)).length = 2 * count := by
    rw [List.length_take]
    omega
  obtain ⟨frames, hlength, hframes⟩ := Frame.exists_interleaved htake
  rw [block, hframes, Frame.paired_interleaved, overwrite, ← hframes, hlength,
    List.take_append_drop]

end Workspace

variable [Elementary σ] [Elementary π] [Precision σ π] [Transform σ γ]

namespace ChainSlot

/-- The effect of a slot after it processed a block. -/
def effectAfter (s : ChainSlot σ π γ) (ctx : BlockContext π) (block : List (Frame σ)) :
    Effect σ π γ :=
  (s.effect.process (s.advanced block.length).values ctx block).1

/-- Whether the signal behind a slot is what its effect makes of it, and nothing else. -/
def isFull (s : ChainSlot σ π γ) : Bool :=
  Scalar.eq s.wet 1 && s.enabled

/-- A slot that faded to a position; one that is gone is cleared. -/
def faded (s : ChainSlot σ π γ) (ctx : BlockContext π) (block : List (Frame σ)) (wet : σ) :
    ChainSlot σ π γ :=
  { s.advanced block.length with
    wet
    effect := if Scalar.eq wet 0 then (s.effectAfter ctx block).reset else s.effectAfter ctx block }

theorem process_eq (step : σ) (ctx : BlockContext π) (s : ChainSlot σ π γ)
    (block : List (Frame σ)) : s.process step ctx block =
      if s.rests then (s, block)
      else if s.isFull then
        ({ s.advanced block.length with effect := s.effectAfter ctx block }, s.processed ctx block)
      else
        let fading := crossfade step s.enabled s.wet block (s.processed ctx block)
        (s.faded ctx block fading.1, fading.2) :=
  rfl

/-- One slot over the first frames of the buffer. -/
def work (step : σ) (ctx : BlockContext π) (count : ℕ) (s : ChainSlot σ π γ)
    (w : Workspace σ) : ChainSlot σ π γ × Workspace σ :=
  let block := w.block count
  let scratch := Workspace.overwrite w.scratch (s.processed ctx block)
  if s.rests then (s, w)
  else if s.isFull then
    ({ s.advanced block.length with effect := s.effectAfter ctx block },
      ⟨scratch.take (2 * count) ++ w.buffer.drop (2 * count), scratch⟩)
  else
    let fading := crossfade step s.enabled s.wet block (Frame.paired scratch)
    (s.faded ctx block fading.1, ⟨Workspace.overwrite w.buffer fading.2, scratch⟩)

omit [Elementary π] [Precision σ π] [Transform σ γ] in
/-- Only as many frames fade as there are in front of the effect. -/
theorem crossfade_append (step : σ) (enabled : Bool) (wet : σ) {dry processed : List (Frame σ)}
    (h : processed.length = dry.length) (more : List (Frame σ)) :
    crossfade step enabled wet dry (processed ++ more) =
      crossfade step enabled wet dry processed := by
  have hzip : dry.zip (processed ++ more) = dry.zip processed := by
    have happend : (dry ++ []).zip (processed ++ more) = dry.zip processed ++ [].zip more :=
      List.zip_append h.symm
    simpa using happend
  rw [crossfade, crossfade, hzip]

/-- A slot that works in place makes of the first frames what it makes of them as a block. -/
theorem work_eq (step : σ) (ctx : BlockContext π) {count : ℕ} (s : ChainSlot σ π γ)
    {w : Workspace σ} (h : 2 * count ≤ w.buffer.length) :
    (s.work step ctx count w).1 = (s.process step ctx (w.block count)).1 ∧
      (s.work step ctx count w).2.buffer =
        Workspace.overwrite w.buffer (s.process step ctx (w.block count)).2 := by
  have hblock : (w.block count).length = count := Workspace.block_length h
  have hprocessed : (s.processed ctx (w.block count)).length = count :=
    (s.processed_length ctx _).trans hblock
  rw [work, process_eq]
  by_cases hrests : s.rests = true
  · rw [if_pos hrests, if_pos hrests]
    exact ⟨rfl, (Workspace.overwrite_block h).symm⟩
  rw [if_neg hrests, if_neg hrests]
  by_cases hfull : s.isFull = true
  · rw [if_pos hfull, if_pos hfull]
    refine ⟨rfl, ?_⟩
    have htake := Workspace.take_overwrite w.scratch (s.processed ctx (w.block count))
    rw [hprocessed] at htake
    show (Workspace.overwrite w.scratch (s.processed ctx (w.block count))).take (2 * count) ++
      w.buffer.drop (2 * count) = Workspace.overwrite w.buffer (s.processed ctx (w.block count))
    rw [htake, Workspace.overwrite, hprocessed]
  · rw [if_neg hfull, if_neg hfull]
    have hfading := crossfade_append step s.enabled s.wet (hprocessed.trans hblock.symm)
      (Frame.paired (w.scratch.drop (2 * (s.processed ctx (w.block count)).length)))
    rw [← Frame.paired_interleaved_append, ← Workspace.overwrite] at hfading
    dsimp only
    rw [hfading]
    exact ⟨rfl, rfl⟩

end ChainSlot

namespace EffectChain

/-- The first frames of the buffer through the slots of some kinds, one after the other. -/
def workSlots (ctx : BlockContext π) (count : ℕ) :
    List EffectKind → EffectChain σ π γ → Workspace σ → EffectChain σ π γ × Workspace σ
  | [], c, w => (c, w)
  | kind :: rest, c, w =>
    let (s, w) := (c.slot kind).work c.fadeStep ctx count w
    workSlots ctx count rest (c.setSlot kind s) w

/-- As many frames as are asked for, as a block may have and as the buffer holds. -/
def framesWorked (frames : ℕ) (w : Workspace σ) : ℕ :=
  min (min frames maxBlock) (w.buffer.length / 2)

/-- Runs the chain in place over the first frames of the buffer. -/
def work (c : EffectChain σ π γ) (ctx : BlockContext π) (frames : ℕ) (w : Workspace σ) :
    EffectChain σ π γ × Workspace σ :=
  workSlots ctx (framesWorked frames w) c.order.kinds c w

theorem workSlots_eq (ctx : BlockContext π) {count : ℕ} (kinds : List EffectKind)
    (c : EffectChain σ π γ) {w : Workspace σ} (h : 2 * count ≤ w.buffer.length) :
    (workSlots ctx count kinds c w).1 = (processSlots ctx kinds c (w.block count)).1 ∧
      (workSlots ctx count kinds c w).2.buffer =
        Workspace.overwrite w.buffer (processSlots ctx kinds c (w.block count)).2 := by
  induction kinds generalizing c w with
  | nil => exact ⟨rfl, (Workspace.overwrite_block h).symm⟩
  | cons kind rest ih =>
      obtain ⟨hslot, hbuffer⟩ := (c.slot kind).work_eq c.fadeStep ctx h
      simp only [workSlots, processSlots]
      generalize (c.slot kind).work c.fadeStep ctx count w = worked at hslot hbuffer ⊢
      have hlength := ChainSlot.process_length c.fadeStep ctx (c.slot kind) (w.block count)
      rw [Workspace.block_length h] at hlength
      have hsize : 2 * count ≤ worked.2.buffer.length := by
        rw [hbuffer, Workspace.overwrite_length (by rw [hlength]; exact h)]
        exact h
      -- The next slot finds the frames that this one has put over the head of the buffer.
      have hnext : worked.2.block count =
          ((c.slot kind).process c.fadeStep ctx (w.block count)).2 := by
        have htake := Workspace.take_overwrite w.buffer
          ((c.slot kind).process c.fadeStep ctx (w.block count)).2
        rw [hlength] at htake
        rw [Workspace.block, hbuffer, htake, Frame.paired_interleaved]
      obtain ⟨hchain, hout⟩ := ih (c.setSlot kind worked.1) hsize
      rw [hslot, hnext] at hchain hout
      refine ⟨hslot ▸ hchain, ?_⟩
      rw [hslot, hout, hbuffer]
      refine Workspace.overwrite_overwrite w.buffer ?_
      exact processSlots_length ctx rest _ _

omit [Elementary σ] in
theorem two_mul_framesWorked_le (frames : ℕ) (w : Workspace σ) :
    2 * framesWorked frames w ≤ w.buffer.length := by
  unfold framesWorked
  omega

/-- In place or not, a chain makes the same of the frames that it is asked for. -/
theorem work_eq (c : EffectChain σ π γ) (ctx : BlockContext π) (frames : ℕ) (w : Workspace σ) :
    (c.work ctx frames w).1 = (c.process ctx (w.block (framesWorked frames w))).1 ∧
      (c.work ctx frames w).2.buffer =
        Workspace.overwrite w.buffer (c.process ctx (w.block (framesWorked frames w))).2 :=
  workSlots_eq ctx c.order.kinds c (two_mul_framesWorked_le frames w)

end EffectChain

end Multisample
