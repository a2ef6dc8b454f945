import Multisample.Command.Rendering
import Multisample.Proofs.Engine.MasterGain

/-!
# The blocks of a note

A note is played by blocks that follow on each other without a gap.  Which ones
they are is said here without playing them, together with the events that each of
them sends: wherever the release falls, one block sends the note-off at the frame of
the release, and none does if the note is over by then.
-/

namespace Multisample

namespace MidiEvent

theorem toNat_status {kind : ℕ} (h : kind < 16) (channel : ℕ) :
    (status kind channel).toNat = kind * 16 + channel % 16 := by
  rw [status, UInt8.toNat_ofNat']
  omega

theorem toNat_data (value : ℕ) : (data value).toNat = value % 128 := by
  rw [data, UInt8.toNat_ofNat']
  omega

theorem data_lt (value : ℕ) : data value < 128 := by
  rw [UInt8.lt_iff_toNat_lt, toNat_data]
  exact Nat.mod_lt _ (by decide)

/-- A note on without velocity would be a note off. -/
theorem message?_noteOn (offset channel key : ℕ) {velocity : ℕ} (h : 0 < velocity)
    (hvelocity : velocity < 128) : (noteOn offset channel key velocity).message? =
      some (.noteOn (channel % 16) (key % 128) velocity) := by
  have hkind : (9 * 16 + channel % 16) / 16 = 9 := by omega
  have hchannel : (9 * 16 + channel % 16) % 16 = channel % 16 := by omega
  simp [message?, noteOn, toNat_status, toNat_data, data_lt, List.takeWhile, hkind, hchannel,
    Nat.mod_eq_of_lt hvelocity, h.ne']

theorem message?_noteOff (offset channel key : ℕ) : (noteOff offset channel key).message? =
    some (.noteOff (channel % 16) (key % 128)) := by
  have hkind : (8 * 16 + channel % 16) / 16 = 8 := by omega
  have hchannel : (8 * 16 + channel % 16) % 16 = channel % 16 := by omega
  simp [message?, noteOff, toNat_status, toNat_data, data_lt, List.takeWhile, hkind, hchannel]

end MidiEvent

namespace Engine

variable {σ π γ : Type}

theorem refusal?_isNone_iff (e : Engine σ π γ) (b : BlockRequest π) :
    (e.refusal? b).isNone = true ↔
      b.frames ≤ maxBlock ∧ b.sampleRate = e.sampleRate ∧ b.frames * 2 ≤ b.room := by
  unfold refusal?
  split
  · simp only [Option.isNone_some, Bool.false_eq_true, false_iff]
    omega
  · split
    · simp_all
    · split <;> simp <;> omega

variable [Elementary σ] [Elementary π] [Precision σ π] [Transform σ γ]

/-- A block that is not refused puts out as many frames as were asked for. -/
theorem process_length {e : Engine σ π γ} {b : BlockRequest π} (h : (e.refusal? b).isNone) :
    ∃ after out, e.process b = .ok (after, out) ∧ out.length = b.frames := by
  refine ⟨_, _, process_eq h, ?_⟩
  rw [List.length_zipWith, effected_length, masterGains, ramp_length, Nat.min_self]

end Engine

namespace Rendering

/-! ## Playing one block -/

theorem size_foldl_push_frame (samples : Array Float32) (out : List (Frame Float32)) :
    (out.foldl (fun samples x => (samples.push x.left).push x.right) samples).size =
      samples.size + 2 * out.length := by
  induction out generalizing samples with
  | nil => rfl
  | cons x out ih =>
      rw [List.foldl_cons, ih, Array.size_push, Array.size_push, List.length_cons]
      omega

theorem play_ok (engine : Player) (samples : Array Float32) {b : Block} (h : b.frames ≤ maxBlock) :
    ∃ after out, play (engine, samples) b = .ok (after, out) ∧
      out.size = samples.size + 2 * b.frames := by
  let request : BlockRequest Float := ⟨b.frames, engine.sampleRate, 120, b.midi, 2 * maxBlock⟩
  have hrequest : (engine.refusal? request).isNone = true :=
    (engine.refusal?_isNone_iff request).mpr ⟨h, rfl, by dsimp only [request]; omega⟩
  obtain ⟨after, out, hprocess, hlength⟩ := Engine.process_length hrequest
  refine ⟨after.collect.1, _, ?_, (size_foldl_push_frame samples out).trans (hlength ▸ rfl)⟩
  rw [play]
  dsimp only
  rw [hprocess]
  rfl

theorem foldlM_play_ok (engine : Player) (samples : Array Float32) {blocks : List Block}
    (h : ∀ b ∈ blocks, b.frames ≤ maxBlock) :
    ∃ after out, blocks.foldlM play (engine, samples) = .ok (after, out) ∧
      out.size = samples.size + 2 * (blocks.map Block.frames).sum := by
  induction blocks generalizing engine samples with
  | nil => exact ⟨engine, samples, rfl, rfl⟩
  | cons b blocks ih =>
      obtain ⟨hb, hblocks⟩ := List.forall_mem_cons.mp h
      obtain ⟨next, out, hplay, hout⟩ := play_ok engine samples hb
      obtain ⟨after, rest, hrest, hsize⟩ := ih next out hblocks
      refine ⟨after, rest, ?_, ?_⟩
      · rw [List.foldlM_cons, hplay]
        exact hrest
      · rw [hsize, hout, List.map_cons, List.sum_cons]
        omega

/-! ## The blocks from a frame on -/

namespace Note

/-- The blocks by which a note is played from a frame on. -/
def blocksFrom (n : Note) (position : ℕ) : List Block :=
  if position < n.length then
    n.block position :: n.blocksFrom (position + (n.block position).frames)
  else []
termination_by n.length - position
decreasing_by
  have := n.block_frames_pos ‹position < n.length›
  omega

/-- All blocks of a note. -/
def schedule (n : Note) : List Block :=
  n.blocksFrom 0

variable (n : Note) {position : ℕ}

theorem blocksFrom_of_lt (h : position < n.length) : n.blocksFrom position =
    n.block position :: n.blocksFrom (position + (n.block position).frames) := by
  rw [blocksFrom, if_pos h]

theorem blocksFrom_of_le (h : n.length ≤ position) : n.blocksFrom position = [] := by
  rw [blocksFrom, if_neg (Nat.not_lt.mpr h)]

@[simp] theorem block_position (position : ℕ) : (n.block position).position = position := rfl

theorem block_frames_le (position : ℕ) : (n.block position).frames ≤ maxBlock :=
  Nat.min_le_left _ _

theorem block_end_le (h : position < n.length) :
    position + (n.block position).frames ≤ n.length := by
  have hframes : (n.block position).frames ≤ n.length - position := Nat.min_le_right _ _
  omega

theorem playFrom_eq (position : ℕ) (state : Player × Array Float32) :
    playFrom n position state = (n.blocksFrom position).foldlM play state := by
  induction position using Note.blocksFrom.induct n generalizing state with
  | case1 position h ih =>
      rw [playFrom, if_pos h, n.blocksFrom_of_lt h, List.foldlM_cons]
      exact congrArg _ (funext ih)
  | case2 position h =>
      rw [playFrom, if_neg h, n.blocksFrom_of_le (Nat.not_lt.mp h)]
      rfl

theorem frames_of_mem {b : Block} (h : b ∈ n.blocksFrom position) :
    1 ≤ b.frames ∧ b.frames ≤ maxBlock := by
  induction position using Note.blocksFrom.induct n with
  | case1 position hlt ih =>
      rw [n.blocksFrom_of_lt hlt] at h
      rcases List.mem_cons.mp h with rfl | h
      · exact ⟨n.block_frames_pos hlt, n.block_frames_le position⟩
      · exact ih h
  | case2 position hend =>
      rw [n.blocksFrom_of_le (Nat.not_lt.mp hend)] at h
      exact absurd h List.not_mem_nil

/-- The blocks use up the frames that are left. -/
theorem sum_frames (position : ℕ) :
    ((n.blocksFrom position).map Block.frames).sum = n.length - position := by
  induction position using Note.blocksFrom.induct n with
  | case1 position h ih =>
      have hend := n.block_end_le h
      rw [n.blocksFrom_of_lt h, List.map_cons, List.sum_cons, ih]
      omega
  | case2 position h =>
      rw [n.blocksFrom_of_le (Nat.not_lt.mp h)]
      exact (Nat.sub_eq_zero_of_le (Nat.not_lt.mp h)).symm

theorem blocksFrom_eq_cons {b : Block} {rest : List Block} (h : n.blocksFrom position = b :: rest) :
    b = n.block position ∧ n.blocksFrom (position + b.frames) = rest := by
  by_cases hlt : position < n.length
  · rw [n.blocksFrom_of_lt hlt] at h
    obtain ⟨rfl, rfl⟩ := List.cons.inj h
    exact ⟨rfl, rfl⟩
  · rw [n.blocksFrom_of_le (Nat.not_lt.mp hlt)] at h
    cases h

/-- A block begins where the blocks before it end. -/
theorem position_eq {before after : List Block} {b : Block}
    (h : n.blocksFrom position = before ++ b :: after) :
    b.position = position + (before.map Block.frames).sum := by
  induction before generalizing position with
  | nil =>
      obtain ⟨rfl, -⟩ := n.blocksFrom_eq_cons h
      rfl
  | cons first before ih =>
      obtain ⟨-, hrest⟩ := n.blocksFrom_eq_cons h
      rw [ih hrest, List.map_cons, List.sum_cons, Nat.add_assoc]

/-! ## What is sent -/

/-- The note-offs of blocks, each with the block that it is sent in. -/
def endings (blocks : List Block) : List (Block × MidiEvent) :=
  blocks.flatMap fun b => (n.ending b.position b.frames).map (b, ·)

theorem ending_of_mem {frames : ℕ} (h : position ≤ n.release)
    (hlt : n.release < position + frames) :
    n.ending position frames = [MidiEvent.noteOff (n.release - position) 0 n.key] := by
  simp [ending, h, hlt]

theorem ending_of_not_mem {frames : ℕ} (h : n.release < position ∨ position + frames ≤ n.release) :
    n.ending position frames = [] := by
  rw [ending, if_neg]
  simp only [Bool.and_eq_true, decide_eq_true_eq]
  omega

theorem endings_cons (b : Block) (blocks : List Block) :
    n.endings (b :: blocks) = (n.ending b.position b.frames).map (b, ·) ++ n.endings blocks :=
  List.flatMap_cons

/-- A release that is past, or that comes when the note is over, is not sent. -/
theorem endings_of_not_mem (h : n.release < position ∨ n.length ≤ n.release) :
    n.endings (n.blocksFrom position) = [] := by
  induction position using Note.blocksFrom.induct n with
  | case1 position hlt ih =>
      have hend := n.block_end_le hlt
      rw [n.blocksFrom_of_lt hlt, endings_cons, ih (by omega),
        n.ending_of_not_mem (by rw [block_position]; omega)]
      rfl
  | case2 position hend =>
      rw [n.blocksFrom_of_le (Nat.not_lt.mp hend)]
      rfl

/-- A release that is still to come is sent by the one block that it falls into. -/
theorem endings_of_mem (h : position ≤ n.release) (hlt : n.release < n.length) :
    ∃ b ∈ n.blocksFrom position, ∃ offset < b.frames, b.position + offset = n.release ∧
      n.endings (n.blocksFrom position) = [(b, MidiEvent.noteOff offset 0 n.key)] := by
  induction position using Note.blocksFrom.induct n with
  | case1 position hinside ih =>
      rw [n.blocksFrom_of_lt hinside, endings_cons, block_position]
      by_cases hblock : n.release < position + (n.block position).frames
      · refine ⟨n.block position, List.mem_cons_self, n.release - position, by omega,
          Nat.add_sub_cancel' h, ?_⟩
        rw [n.ending_of_mem h hblock, n.endings_of_not_mem (Or.inl hblock)]
        rfl
      · obtain ⟨b, hb, offset, hoffset, hrelease, hsent⟩ := ih (Nat.not_lt.mp hblock)
        refine ⟨b, List.mem_cons_of_mem _ hb, offset, hoffset, hrelease, ?_⟩
        rw [n.ending_of_not_mem (Or.inr (Nat.not_lt.mp hblock)), hsent]
        rfl
  | case2 position hend => exact absurd (Nat.lt_of_le_of_lt h hlt) hend

end Note

/-- The events of blocks in order, each with the block that it is sent in. -/
def sent (blocks : List Block) : List (Block × MidiEvent) :=
  blocks.flatMap fun b => b.midi.map (b, ·)

theorem sent_blocksFrom (n : Note) {position : ℕ} (h : 0 < position) :
    sent (n.blocksFrom position) = n.endings (n.blocksFrom position) := by
  induction position using Note.blocksFrom.induct n with
  | case1 position hlt ih =>
      have hmidi : (n.block position).midi = n.ending position (n.block position).frames := by
        rw [Note.block, Note.onset, if_neg h.ne']
        rfl
      rw [n.blocksFrom_of_lt hlt, n.endings_cons, ← ih (by omega), sent, List.flatMap_cons, hmidi]
      rfl
  | case2 position hend =>
      rw [n.blocksFrom_of_le (Nat.not_lt.mp hend)]
      rfl

/-- The first block begins the note; else only note-offs are sent. -/
theorem sent_schedule {n : Note} (h : 0 < n.length) :
    sent n.schedule =
      (n.block 0, MidiEvent.noteOn 0 0 n.key (max 1 (min n.velocity 127))) ::
        n.endings n.schedule := by
  have hpos := n.block_frames_pos h
  have hmidi : (n.block 0).midi = MidiEvent.noteOn 0 0 n.key (max 1 (min n.velocity 127)) ::
      n.ending 0 (n.block 0).frames := rfl
  rw [Note.schedule, n.blocksFrom_of_lt h, n.endings_cons, sent, List.flatMap_cons, hmidi,
    ← sent_blocksFrom n (by omega)]
  rfl

/-! ## The whole note -/

/-- Blocks by which a note is played: they are joined from its beginning to its end, the first one
begins it, and if it is released before its end, the block around the release does that. -/
structure Note.Plays (n : Note) (blocks : List Block) : Prop where
  frames : ∀ b ∈ blocks, 1 ≤ b.frames ∧ b.frames ≤ maxBlock
  joined : ∀ before b after, blocks = before ++ b :: after →
    b.position = (before.map Block.frames).sum
  total : (blocks.map Block.frames).sum = n.length
  silent : n.length = 0 → sent blocks = []
  sends : 0 < n.length → ∃ first ∈ blocks.head?, ∃ on offs, sent blocks = (first, on) :: offs ∧
    on.offset = 0 ∧
    on.message? = some (.noteOn 0 (n.key % 128) (max 1 (min n.velocity 127))) ∧
    (n.length ≤ n.release → offs = []) ∧
    (n.release < n.length → ∃ b ∈ blocks, ∃ off, offs = [(b, off)] ∧
      off.message? = some (.noteOff 0 (n.key % 128)) ∧
      b.position + off.offset = n.release ∧ off.offset < b.frames)

theorem Note.plays_schedule (n : Note) : n.Plays n.schedule where
  frames _ := n.frames_of_mem
  joined _ _ _ h := (n.position_eq h).trans (Nat.zero_add _)
  total := n.sum_frames 0
  silent h := by
    rw [schedule, n.blocksFrom_of_le (Nat.le_zero.mpr h)]
    rfl
  sends h := by
    refine ⟨n.block 0, ?_, _, n.endings n.schedule, sent_schedule h, rfl,
      MidiEvent.message?_noteOn 0 0 n.key (by omega) (by omega), ?_, ?_⟩
    · rw [schedule, n.blocksFrom_of_lt h]
      rfl
    · exact fun hend => n.endings_of_not_mem (Or.inr hend)
    · intro hlt
      obtain ⟨b, hb, offset, hoffset, hrelease, hsent⟩ := n.endings_of_mem (Nat.zero_le _) hlt
      exact ⟨b, hb, _, hsent, MidiEvent.message?_noteOff offset 0 n.key, hrelease, hoffset⟩

/-- Playing a note comes to an end whatever its length and its release are.  It plays the blocks of
the note one after the other, none of which the engine refuses, and two samples are left of each
frame. -/
theorem note_sent_once (engine : Player) (n : Note) :
    n.Plays n.schedule ∧
      playFrom n 0 (engine, #[]) = n.schedule.foldlM play (engine, #[]) ∧
      ∃ out, samples engine n = .ok out ∧ out.size = 2 * n.length := by
  have hloop : playFrom n 0 (engine, #[]) = n.schedule.foldlM play (engine, #[]) :=
    n.playFrom_eq 0 (engine, #[])
  obtain ⟨after, out, hplay, hsize⟩ :=
    foldlM_play_ok engine #[] fun b hb => (n.plays_schedule.frames b hb).2
  refine ⟨n.plays_schedule, hloop, out, ?_, ?_⟩
  · rw [samples, hloop, hplay]
    rfl
  · rw [hsize, n.plays_schedule.total]
    exact Nat.zero_add _

end Rendering

end Multisample
