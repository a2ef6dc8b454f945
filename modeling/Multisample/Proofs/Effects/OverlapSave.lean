import Mathlib.Algebra.BigOperators.Intervals
import Multisample.Effects.Convolution
import Multisample.Proofs.Numeric.Spectra

/-!
# The convolver is direct convolution, one partition late

Time is cut into partitions.  While one is gathered, the channel plays what the
partitions before it have been convolved to; at its end the window of the last
two partitions is transformed and put into the ring.  The invariant says what
each part of a channel holds in terms of the whole input signal, so it needs no
induction on the impulse response or on the ring.
-/

namespace Multisample

/-- A signal in time: there is nothing before its start and after its end. -/
def signal (x : List ℝ) (n : ℤ) : ℝ :=
  if 0 ≤ n then x.getD n.toNat 0 else 0

theorem signal_natCast (x : List ℝ) (n : ℕ) : signal x n = x.getD n 0 := by
  simp [signal]

theorem signal_of_neg (x : List ℝ) {n : ℤ} (h : n < 0) : signal x n = 0 := by
  simp [signal, not_le.mpr h]

namespace Convolver

theorem partition_eq : partition = 128 := rfl

/-- Direct convolution with a row of taps, one partition late. -/
def delayed (taps : List ℝ) (x : ℤ → ℝ) (n : ℤ) : ℝ :=
  ∑ k ∈ Finset.range taps.length, taps.getD k 0 * x (n - partition - k)

/-! ## Windows and pieces -/

/-- The window of two partitions of a signal that ends with the partition `j`. -/
def window (x : ℤ → ℝ) (j : ℤ) : List ℝ :=
  List.ofFn fun i : Fin 256 => x ((j - 1) * partition + i.val)

/-- The partition `j` of a signal. -/
def block (x : ℤ → ℝ) (j : ℤ) : List ℝ :=
  List.ofFn fun i : Fin partition => x (j * partition + i.val)

/-- How many partitions a row of taps takes. -/
def pieceCount (taps : List ℝ) : ℕ :=
  (taps.length + partition - 1) / partition

/-- One partition of a row of taps, followed by as much silence. -/
def piece (taps : List ℝ) (p : ℕ) : List ℝ :=
  List.ofFn fun i : Fin 256 => if i.val < partition then taps.getD (p * partition + i.val) 0 else 0

theorem window_length (x : ℤ → ℝ) (j : ℤ) : (window x j).length = 256 :=
  List.length_ofFn

theorem piece_length (taps : List ℝ) (p : ℕ) : (piece taps p).length = 256 :=
  List.length_ofFn

theorem length_le_pieceCount (taps : List ℝ) : taps.length ≤ pieceCount taps * partition := by
  rw [pieceCount, partition_eq]
  omega

theorem getD_ofFn {n : ℕ} (f : Fin n → ℝ) {i : ℕ} (h : i < n) :
    (List.ofFn f).getD i 0 = f ⟨i, h⟩ := by
  rw [List.getD_eq_getElem _ _ (by simpa using h), List.getElem_ofFn]

theorem getD_window (x : ℤ → ℝ) (j : ℤ) {i : ℕ} (h : i < 256) :
    (window x j).getD i 0 = x ((j - 1) * partition + i) :=
  getD_ofFn _ h

theorem getD_piece (taps : List ℝ) (p : ℕ) {i : ℕ} (h : i < 256) :
    (piece taps p).getD i 0 = if i < partition then taps.getD (p * partition + i) 0 else 0 :=
  getD_ofFn _ h

theorem block_append_block (x : ℤ → ℝ) (j : ℤ) : block x (j - 1) ++ block x j = window x j := by
  change _ = List.ofFn fun i : Fin (partition + partition) => x ((j - 1) * partition + i.val)
  rw [List.ofFn_add]
  congr 1
  refine congrArg List.ofFn (funext fun i => congrArg x ?_)
  rw [Fin.val_natAdd]
  push_cast
  ring

/-- In the second half of a window no sample of the other end meets a tap. -/
theorem getD_circular (x : ℤ → ℝ) (j : ℤ) (taps : List ℝ) (p : ℕ) {i : ℕ} (h : i < partition) :
    (Transform.circular (window x j) (piece taps p)).getD (partition + i) 0 =
      ∑ k ∈ Finset.range partition, taps.getD (p * partition + k) 0 * x (j * partition + i - k) := by
  rw [partition_eq] at h
  let term (k : ℕ) : ℝ :=
    (window x j).getD ((256 - k + (128 + i)) % 256) 0 * (piece taps p).getD k 0
  have hsum : (Transform.circular (window x j) (piece taps p)).getD (partition + i) 0 =
      ∑ k ∈ Finset.range (128 + 128), term k := by
    rw [Transform.circular, getD_ofFn _ (show partition + i < 256 by rw [partition_eq]; omega)]
    exact Fin.sum_univ_eq_sum_range term 256
  have hsilent : ∀ k ∈ Finset.range 128, term (128 + k) = 0 := by
    intro k hk
    have hk : k < 128 := Finset.mem_range.mp hk
    simp only [term]
    rw [getD_piece taps p (by omega), partition_eq, if_neg (by omega), mul_zero]
  rw [hsum, Finset.sum_range_add, Finset.sum_eq_zero hsilent, add_zero]
  refine Finset.sum_congr rfl fun k hk => ?_
  have hk : k < 128 := Finset.mem_range.mp hk
  have hplace : (256 - k + (128 + i)) % 256 = 128 + i - k := by omega
  simp only [term, hplace]
  rw [getD_window x j (by omega), getD_piece taps p (by omega), partition_eq, if_pos hk, mul_comm]
  congr 2
  push_cast [show k ≤ 128 + i by omega]
  ring

/-- A sum over partitions, and in each over its places, is a sum over all places. -/
theorem sum_range_mul (f : ℕ → ℝ) (count size : ℕ) :
    ∑ p ∈ Finset.range count, ∑ k ∈ Finset.range size, f (p * size + k) =
      ∑ k ∈ Finset.range (count * size), f k := by
  induction count with
  | zero => simp
  | succ count ih => rw [Finset.sum_range_succ, ih, Nat.succ_mul, Finset.sum_range_add]

/-- The pieces of a row of taps, each with the signal as far back as it lies, add up to the whole
row; it is heard in the partition behind. -/
theorem sum_pieces (taps : List ℝ) (x : ℤ → ℝ) (q : ℤ) (i : ℕ) :
    ∑ p ∈ Finset.range (pieceCount taps), ∑ k ∈ Finset.range partition,
        taps.getD (p * partition + k) 0 * x ((q - p) * partition + i - k) =
      delayed taps x ((q + 1) * partition + i) := by
  let term (k : ℕ) : ℝ := taps.getD k 0 * x ((q + 1) * partition + i - partition - k)
  have hterm : ∀ p k : ℕ, taps.getD (p * partition + k) 0 * x ((q - p) * partition + i - k) =
      term (p * partition + k) := by
    intro p k
    simp only [term]
    congr 2
    push_cast
    ring
  simp only [hterm]
  rw [sum_range_mul, delayed]
  refine (Finset.sum_subset (Finset.range_mono (length_le_pieceCount taps)) ?_).symm
  intro k _ hk
  simp only [term]
  rw [List.getD_eq_default _ _ (not_lt.mp (mt Finset.mem_range.mpr hk)), zero_mul]

/-! ## What a channel is made with -/

/-- A row cut off or filled up to a length. -/
theorem take_append_replicate {α : Type} (size : ℕ) (fill : α) (xs : List α) :
    xs.take size ++ List.replicate (size - (xs.take size).length) fill =
      List.ofFn fun i : Fin size => xs.getD i.val fill := by
  apply List.ext_getElem
  · simp
  · intro i hi hi'
    have hsize : i < size := by simpa using hi'
    rw [List.getElem_ofFn, List.getElem_append]
    split
    · rw [List.getElem_take, List.getD_eq_getElem]
    · rename_i hpast
      have hend : xs.length ≤ i := by
        rw [List.length_take] at hpast
        omega
      rw [List.getElem_replicate, List.getD_eq_default _ _ hend]

theorem ofFn_append_replicate (f : ℕ → ℝ) (n m : ℕ) :
    (List.ofFn fun i : Fin n => f i.val) ++ List.replicate m 0 =
      List.ofFn fun i : Fin (n + m) => if i.val < n then f i.val else 0 := by
  apply List.ext_getElem
  · simp
  · intro i hi hi'
    rw [List.getElem_ofFn, List.getElem_append]
    simp only [List.length_ofFn]
    split
    · rw [List.getElem_ofFn]
    · rw [List.getElem_replicate]

theorem chunks_eq {α : Type} (size : ℕ) (fill : α) (count : ℕ) (xs : List α) :
    chunks size fill count xs = (List.range count).map fun p =>
      List.ofFn fun i : Fin size => xs.getD (p * size + i.val) fill := by
  induction count generalizing xs with
  | zero => rfl
  | succ count ih =>
      rw [chunks, ih, take_append_replicate, List.range_succ_eq_map, List.map_cons, List.map_map]
      congr 1
      · simp only [Nat.zero_mul, Nat.zero_add]
      · apply List.map_congr_left
        intro p _
        refine congrArg List.ofFn (funext fun i => ?_)
        rw [List.getD_eq_getElem?_getD, List.getElem?_drop, ← List.getD_eq_getElem?_getD]
        congr 1
        rw [Nat.succ_mul]
        omega

variable {γ : Type} [Transform ℝ γ]

theorem response_channel (taps : List ℝ) : (channel taps : ConvolverChannel ℝ γ).response =
    (List.range (pieceCount taps)).map fun p => Transform.forward (piece taps p) := by
  simp only [channel, Scalar.zero_real, chunks_eq, List.map_map]
  apply List.map_congr_left
  intro p _
  exact congrArg Transform.forward
    (ofFn_append_replicate (fun i => taps.getD (p * partition + i) 0) partition partition)

/-! ## The ring of spectra -/

/-- Sums of spectra come back as sums of rows. -/
theorem getD_inverse_foldl (hT : Transform.Convolves γ) {α : Type} (f : α → γ) (xs : List α)
    (hlength : ∀ a ∈ xs, (Transform.inverse (f a) : List ℝ).length = 256) (start : γ)
    (hstart : (Transform.inverse start : List ℝ).length = 256) (i : ℕ) :
    (Transform.inverse (xs.foldl (fun s a => Transform.add ℝ s (f a)) start) : List ℝ).getD i 0 =
      (Transform.inverse start : List ℝ).getD i 0 +
        (xs.map fun a => (Transform.inverse (f a) : List ℝ).getD i 0).sum := by
  induction xs generalizing start with
  | nil => simp
  | cons a xs ih =>
      have ha := hlength a List.mem_cons_self
      have hadd := hT.inverse_add start (f a)
      rw [List.foldl_cons, ih (fun b hb => hlength b (List.mem_cons_of_mem _ hb)) _ (by simp [hadd, ha, hstart]),
        hadd, List.map_cons, List.sum_cons, ← add_assoc]
      congr 1
      rcases Nat.lt_or_ge i 256 with hi | hi
      · rw [List.getD_eq_getElem _ _ (by simpa [ha, hstart] using hi),
          List.getD_eq_getElem _ _ (hstart ▸ hi), List.getD_eq_getElem _ _ (ha ▸ hi),
          List.getElem_zipWith]
      · rw [List.getD_eq_default _ _ (by simpa [ha, hstart] using hi),
          List.getD_eq_default _ _ (hstart ▸ hi), List.getD_eq_default _ _ (ha ▸ hi), add_zero]

theorem accumulate_eq (history : Array γ) (head count : ℕ) (f : ℕ → γ) :
    accumulate ℝ history head ((List.range count).map f) = (List.range count).foldl
      (fun s p => Transform.add ℝ s (Transform.mul ℝ
        (history.getD ((head + history.size - p) % history.size) (Transform.zero ℝ)) (f p)))
      (Transform.zero ℝ) := by
  have hindexed : ((List.range count).map f).zipIdx = (List.range count).map fun p => (f p, p) := by
    apply List.ext_getElem
    · simp
    · intro p _ _
      simp
  rw [accumulate, hindexed, List.foldl_map]

/-- What the ring holds at the end of the partition `q`: the spectra of the latest windows, newest
first from the head on backwards. -/
def RingHolds (x : ℤ → ℝ) (q : ℤ) (head : ℕ) (history : Array γ) : Prop :=
  ∀ k < history.size, history.getD ((head + history.size - k) % history.size) (Transform.zero ℝ) =
    Transform.forward (window x (q - k))

theorem getD_inverse_accumulate (hT : Transform.Convolves γ) {taps : List ℝ} {x : ℤ → ℝ} {q : ℤ}
    {head : ℕ} {history : Array γ} (hsize : history.size = pieceCount taps)
    (hring : RingHolds x q head history) {i : ℕ} (hi : i < partition) :
    (Transform.inverse (accumulate ℝ history head (channel taps : ConvolverChannel ℝ γ).response) :
        List ℝ).getD (partition + i) 0 =
      256 * delayed taps x ((q + 1) * partition + i) := by
  have hzero : (Transform.inverse (Transform.zero ℝ : γ) : List ℝ).getD (partition + i) 0 = 0 := by
    rw [hT.inverse_zero, List.getD_eq_getElem?_getD, List.getElem?_replicate]
    split <;> rfl
  have hterm : ∀ p ∈ List.range (pieceCount taps), (Transform.inverse (Transform.mul ℝ
      (history.getD ((head + history.size - p) % history.size) (Transform.zero ℝ))
        (Transform.forward (piece taps p))) : List ℝ) =
      (Transform.circular (window x (q - p)) (piece taps p)).map (256 * ·) := by
    intro p hp
    rw [hring p (hsize ▸ List.mem_range.mp hp)]
    exact hT.inverse_mul _ _ (window_length ..) (piece_length ..)
  have hvalue : ∀ p ∈ List.range (pieceCount taps), (Transform.inverse (Transform.mul ℝ
      (history.getD ((head + history.size - p) % history.size) (Transform.zero ℝ))
        (Transform.forward (piece taps p))) : List ℝ).getD (partition + i) 0 =
      256 * ∑ k ∈ Finset.range partition,
        taps.getD (p * partition + k) 0 * x ((q - p) * partition + i - k) := by
    intro p hp
    have hscaled := List.getD_map (Transform.circular (window x (q - p)) (piece taps p)) 0
      (256 * ·) (n := partition + i)
    rw [mul_zero] at hscaled
    rw [hterm p hp, hscaled, getD_circular x (q - p) taps p hi]
  rw [response_channel, accumulate_eq, getD_inverse_foldl hT]
  · rw [hzero, zero_add, List.map_congr_left hvalue, ← sum_pieces, Finset.mul_sum]
    rfl
  · intro p hp
    rw [hterm p hp, List.length_map, Transform.circular, List.length_ofFn]
  · rw [hT.inverse_zero, List.length_replicate]

/-- The head of a ring one place on. -/
theorem slot_succ {head size k : ℕ} (hhead : head < size) (h : 1 ≤ k) (hk : k < size) :
    ((head + 1) % size + size - k) % size = (head + size - (k - 1)) % size := by
  rcases Nat.lt_or_ge (head + 1) size with hlt | hge
  · rw [Nat.mod_eq_of_lt hlt, show head + 1 + size - k = head + size - (k - 1) by omega]
  · obtain rfl : size = head + 1 := by omega
    rw [Nat.mod_self, show head + (head + 1) - (k - 1) = 0 + (head + 1) - k + (head + 1) by omega,
      Nat.add_mod_right]

/-- Writing the newest window into the slot at the head completes the ring. -/
theorem ringHolds_set {x : ℤ → ℝ} {q : ℤ} {head : ℕ} {history : Array γ}
    (hhead : head < history.size)
    (hring : ∀ k, 1 ≤ k → k < history.size →
      history.getD ((head + history.size - k) % history.size) (Transform.zero ℝ) =
        Transform.forward (window x (q - k))) :
    RingHolds x q head (history.setIfInBounds head (Transform.forward (window x q))) := by
  intro k hk
  rw [Array.size_setIfInBounds] at hk ⊢
  rcases Nat.eq_zero_or_pos k with rfl | hpos
  · rw [Nat.sub_zero, Nat.add_mod_right, Nat.mod_eq_of_lt hhead]
    simp [hhead]
  · have hslot : (head + history.size - k) % history.size ≠ head := by
      rcases Nat.lt_or_ge head k with hlt | hge
      · rw [Nat.mod_eq_of_lt (by omega)]
        omega
      · rw [show head + history.size - k = head - k + history.size by omega, Nat.add_mod_right,
          Nat.mod_eq_of_lt (by omega)]
        omega
    rw [← hring k hpos hk]
    simp [Array.getD_eq_getD_getElem?, Array.getElem?_setIfInBounds_ne hslot.symm]

/-! ## One channel, frame by frame -/

/-- A channel that was made for a row of taps; frames and resets leave this as it is. -/
structure MadeFor (taps : List ℝ) (c : ConvolverChannel ℝ γ) : Prop where
  response : c.response = (channel taps : ConvolverChannel ℝ γ).response
  size : c.history.size = pieceCount taps

theorem madeFor_channel (taps : List ℝ) : MadeFor taps (channel taps : ConvolverChannel ℝ γ) :=
  ⟨rfl, Array.size_replicate⟩

/-- What a channel holds after `q` whole partitions of a signal and `r` frames of the next. -/
structure Tracks (taps : List ℝ) (x : ℤ → ℝ) (q r : ℕ) (head : ℕ) (c : ConvolverChannel ℝ γ) :
    Prop extends MadeFor taps c where
  head_lt : head < c.history.size
  /-- The slot at the head is written next, so it may hold anything. -/
  ring : ∀ k, 1 ≤ k → k < c.history.size →
    c.history.getD ((head + c.history.size - k) % c.history.size) (Transform.zero ℝ) =
      Transform.forward (window x (q - k))
  previous : c.previous.toList = block x (q - 1)
  staged_size : c.staged.size = partition
  staged : ∀ i < r, c.staged.getD i 0 = x (q * partition + i)
  ready : ∀ i < partition, c.ready.getD i 0 = delayed taps x (q * partition + i)

/-- A channel after one more frame. -/
noncomputable def feed (head fill : ℕ) (c : ConvolverChannel ℝ γ) (x : ℝ) : ConvolverChannel ℝ γ :=
  let c := { c with staged := c.staged.setIfInBounds fill x }
  if fill + 1 = partition then turnOver head c else c

/-- The head after one more frame. -/
def nextHead (count head fill : ℕ) : ℕ :=
  if fill + 1 = partition then (head + 1) % count else head

theorem step_eq (c : Convolver ℝ γ) (x : Frame ℝ) : c.step x =
    (⟨c.id, c.rate, feed c.head c.fill c.left x.left, feed c.head c.fill c.right x.right,
        nextHead c.left.response.length c.head c.fill,
        if c.fill + 1 = partition then 0 else c.fill + 1⟩,
      ⟨c.left.ready.getD c.fill 0, c.right.ready.getD c.fill 0⟩) := by
  unfold step feed nextHead
  split
  split <;> simp_all

variable {taps : List ℝ} {x : ℤ → ℝ} {q r head : ℕ} {c : ConvolverChannel ℝ γ}

theorem Tracks.staged_set (h : Tracks taps x q r head c) (hr : r < partition) {y : ℝ}
    (hy : y = x (q * partition + r)) :
    Tracks taps x q (r + 1) head { c with staged := c.staged.setIfInBounds r y } := by
  refine { h with staged_size := ?_, staged := ?_ }
  · rw [Array.size_setIfInBounds, h.staged_size]
  · intro i hi
    rcases Nat.lt_succ_iff_lt_or_eq.mp hi with hlt | rfl
    · rw [← h.staged i hlt]
      simp [Array.getD_eq_getD_getElem?, Array.getElem?_setIfInBounds_ne (Nat.ne_of_gt hlt)]
    · simp [h.staged_size, hr, hy]

/-- What is heard of a row: its second half, scaled. -/
theorem getD_drop_map (xs : List ℝ) (n i : ℕ) (scale : ℝ) :
    ((xs.drop n).map (· * scale)).toArray.getD i 0 = xs.getD (n + i) 0 * scale := by
  rw [Array.getD_eq_getD_getElem?, List.getElem?_toArray, List.getElem?_map, List.getElem?_drop,
    List.getD_eq_getElem?_getD]
  cases xs[n + i]? with
  | none => exact (zero_mul scale).symm
  | some y => rfl

theorem Tracks.staged_full (h : Tracks taps x q partition head c) : c.staged.toList = block x q := by
  apply List.ext_getElem
  · rw [Array.length_toList, h.staged_size, block, List.length_ofFn]
  · intro i hi hi'
    rw [block, List.length_ofFn] at hi'
    simp only [block, List.getElem_ofFn, Array.getElem_toList]
    rw [← h.staged i hi', Array.getD_eq_getD_getElem?, Array.getElem?_eq_getElem, Option.getD_some]

theorem Tracks.turnOver (hT : Transform.Convolves γ) (h : Tracks taps x q partition head c) :
    Tracks taps x (q + 1) 0 ((head + 1) % c.history.size) (turnOver head c) := by
  have hwindow : c.previous.toList ++ c.staged.toList = window x q := by
    rw [h.previous, h.staged_full, block_append_block]
  have hring := ringHolds_set h.head_lt h.ring
  have hsize := h.size
  unfold Convolver.turnOver
  rw [hwindow]
  dsimp only
  refine ⟨⟨h.response, ?_⟩, ?_, ?_, ?_, h.staged_size, ?_, ?_⟩
  · rw [Array.size_setIfInBounds, hsize]
  · rw [Array.size_setIfInBounds]
    exact Nat.mod_lt _ (Nat.zero_lt_of_lt h.head_lt)
  · intro k hk hlt
    have hnext := hring (k - 1) (Nat.lt_of_le_of_lt (Nat.sub_le k 1) hlt)
    simp only [Array.size_setIfInBounds] at hlt hnext ⊢
    rw [slot_succ h.head_lt hk hlt, hnext]
    congr 2
    push_cast [hk]
    ring
  · rw [h.staged_full]
    push_cast
    rw [add_sub_cancel_right]
  · intro i hi
    exact absurd hi (Nat.not_lt_zero i)
  · intro i hi
    have hlate := getD_inverse_accumulate hT (by rw [Array.size_setIfInBounds, hsize]) hring hi
    have hscale (y : ℝ) : 256 * y * (1 / Scalar.ofNat (2 * partition)) = y := by
      rw [partition_eq, Scalar.ofNat_real]
      ring
    rw [h.response, getD_drop_map, hlate, Scalar.one_real, Nat.cast_succ]
    exact hscale _

/-- A frame is taken in, and a partition that it completes is convolved. -/
theorem Tracks.feed (hT : Transform.Convolves γ) (h : Tracks taps x q r head c) (hr : r < partition)
    {y : ℝ} (hy : y = x (q * partition + r)) :
    Tracks taps x (if r + 1 = partition then q + 1 else q) (if r + 1 = partition then 0 else r + 1)
      (nextHead c.history.size head r) (feed head r c y) := by
  have hset := h.staged_set hr hy
  unfold nextHead Convolver.feed
  split
  · rename_i hfull
    rw [hfull] at hset
    exact hset.turnOver hT
  · exact hset

/-- A channel that has just been made, or put back to that, is silent about the time before. -/
theorem tracks_channel (hT : Transform.Convolves γ) (htaps : taps ≠ []) (hx : ∀ n < 0, x n = 0) :
    Tracks taps x 0 0 0 (channel taps : ConvolverChannel ℝ γ) := by
  have hlength : 0 < taps.length := List.length_pos_iff.mpr htaps
  have hcount : 0 < pieceCount taps := by
    rw [pieceCount, partition_eq]
    omega
  have hmade := madeFor_channel (γ := γ) taps
  refine ⟨hmade, hmade.size ▸ hcount, ?_, ?_, Array.size_replicate, ?_, ?_⟩
  · intro k hk _
    have hsilent : window x ((0 : ℕ) - k) = List.replicate 256 0 := by
      rw [window, ← List.ofFn_const]
      refine congrArg List.ofFn (funext fun i => hx _ ?_)
      rw [partition_eq]
      omega
    rw [hsilent, hT.forward_zero]
    simp only [channel, Array.getD_eq_getD_getElem?, Array.getElem?_replicate]
    split <;> rfl
  · have hsilent : block x ((0 : ℕ) - 1) = List.replicate partition 0 := by
      rw [block, ← List.ofFn_const]
      refine congrArg List.ofFn (funext fun i => hx _ ?_)
      have hi : i.val < 128 := i.isLt
      rw [show ((partition : ℕ) : ℤ) = 128 from rfl]
      omega
    rw [hsilent]
    simp only [channel, Scalar.zero_real, Array.toList_replicate]
  · intro i hi
    exact absurd hi (Nat.not_lt_zero i)
  · intro i hi
    have hsilent : delayed taps x ((0 : ℕ) * partition + i) = 0 := by
      refine Finset.sum_eq_zero fun k _ => ?_
      rw [hx _ (by rw [partition_eq] at hi ⊢; omega), mul_zero]
    rw [hsilent]
    simp only [channel, Scalar.zero_real, Array.getD_eq_getD_getElem?, Array.getElem?_replicate]
    split <;> rfl

theorem MadeFor.resetChannel (h : MadeFor taps c) :
    resetChannel c = (channel taps : ConvolverChannel ℝ γ) := by
  rw [Convolver.resetChannel, h.response, h.size]
  rfl

theorem MadeFor.feed (h : MadeFor taps c) (head fill : ℕ) (y : ℝ) :
    MadeFor taps (feed head fill c y) := by
  unfold Convolver.feed
  dsimp only
  split
  · exact ⟨h.response, Array.size_setIfInBounds.trans h.size⟩
  · exact ⟨h.response, h.size⟩

/-! ## Runs of a convolver -/

/-- What can be asked of a convolver. -/
inductive Call where
  | frame (x : Frame ℝ)
  | reset

noncomputable def perform (c : Convolver ℝ γ) : Call → Convolver ℝ γ
  | .frame x => (c.step x).1
  | .reset => c.reset

noncomputable def run (c : Convolver ℝ γ) (calls : List Call) : Convolver ℝ γ :=
  calls.foldl perform c

/-- Both channels were made for their taps. -/
def Serves (taps : List (Frame ℝ)) (c : Convolver ℝ γ) : Prop :=
  MadeFor (taps.map Frame.left) c.left ∧ MadeFor (taps.map Frame.right) c.right

theorem Serves.run {taps : List (Frame ℝ)} {c : Convolver ℝ γ} (h : Serves taps c)
    (calls : List Call) : Serves taps (c.run calls) := by
  induction calls generalizing c with
  | nil => exact h
  | cons call rest ih =>
      refine ih ?_
      cases call with
      | frame x =>
          rw [perform, step_eq]
          exact ⟨h.1.feed .., h.2.feed ..⟩
      | reset =>
          rw [perform, reset, h.1.resetChannel, h.2.resetChannel]
          exact ⟨madeFor_channel _, madeFor_channel _⟩

/-- What a convolver holds after `n` of the frames that it is going to be fed. -/
structure Follows (taps frames : List (Frame ℝ)) (n : ℕ) (c : Convolver ℝ γ) : Prop where
  fill : c.fill = n % partition
  left : Tracks (taps.map Frame.left) (signal (frames.map Frame.left)) (n / partition)
    (n % partition) c.head c.left
  right : Tracks (taps.map Frame.right) (signal (frames.map Frame.right)) (n / partition)
    (n % partition) c.head c.right

/-- A convolver with channels in their first state. -/
theorem follows_zero (hT : Transform.Convolves γ) {taps : List (Frame ℝ)} (htaps : taps ≠ [])
    (frames : List (Frame ℝ)) (id rate : ℕ) :
    Follows taps frames 0
      (⟨id, rate, channel (taps.map Frame.left), channel (taps.map Frame.right), 0, 0⟩ :
        Convolver ℝ γ) :=
  ⟨rfl, tracks_channel hT (by simpa using htaps) fun _ h => signal_of_neg _ h,
    tracks_channel hT (by simpa using htaps) fun _ h => signal_of_neg _ h⟩

/-- The frame that is heard at a time. -/
noncomputable def wetFrame (taps frames : List (Frame ℝ)) (n : ℕ) : Frame ℝ :=
  ⟨delayed (taps.map Frame.left) (signal (frames.map Frame.left)) n,
    delayed (taps.map Frame.right) (signal (frames.map Frame.right)) n⟩

theorem Follows.step (hT : Transform.Convolves γ) {taps frames : List (Frame ℝ)} {n : ℕ}
    {c : Convolver ℝ γ} (h : Follows taps frames n c) {x : Frame ℝ} (hx : frames[n]? = some x) :
    Follows taps frames (n + 1) (c.step x).1 ∧ (c.step x).2 = wetFrame taps frames n := by
  have hpos : n % partition < partition := Nat.mod_lt _ (by decide)
  have htime : ((n / partition : ℕ) : ℤ) * partition + (n % partition : ℕ) = n := by
    exact_mod_cast Nat.div_add_mod' n partition
  -- The frame is the next sample of both signals.
  have hleft : x.left = signal (frames.map Frame.left) n := by
    rw [signal_natCast, List.getD_eq_getElem?_getD, List.getElem?_map, hx]
    rfl
  have hright : x.right = signal (frames.map Frame.right) n := by
    rw [signal_natCast, List.getD_eq_getElem?_getD, List.getElem?_map, hx]
    rfl
  have hcount : c.left.response.length = c.left.history.size ∧
      c.left.history.size = c.right.history.size := by
    rw [h.left.response, response_channel, h.left.size, h.right.size]
    simp [pieceCount]
  have hnext : (n + 1) % partition =
        (if n % partition + 1 = partition then 0 else n % partition + 1) ∧
      (n + 1) / partition =
        (if n % partition + 1 = partition then n / partition + 1 else n / partition) := by
    rw [partition_eq]
    constructor <;> split <;> omega
  rw [step_eq, h.fill]
  refine ⟨⟨?_, ?_, ?_⟩, ?_⟩
  · exact hnext.1.symm
  · rw [hnext.1, hnext.2, hcount.1]
    exact h.left.feed hT hpos (by rw [hleft, htime])
  · rw [hnext.1, hnext.2, hcount.1, hcount.2]
    exact h.right.feed hT hpos (by rw [hright, htime])
  · have hready := h.left.ready _ hpos
    have hready' := h.right.ready _ hpos
    rw [htime] at hready hready'
    rw [wetFrame, ← hready, ← hready']

theorem Follows.runOver (hT : Transform.Convolves γ) {taps frames : List (Frame ℝ)} {n : ℕ}
    {c : Convolver ℝ γ} (h : Follows taps frames n c) {rest : List (Frame ℝ)}
    (hrest : frames.drop n = rest) :
    (runOver Convolver.step c rest).2 =
      (List.range' n rest.length).map (wetFrame taps frames) := by
  induction rest generalizing n c with
  | nil => rfl
  | cons x rest ih =>
      have hx : frames[n]? = some x := by
        rw [← List.head?_drop, hrest]
        rfl
      obtain ⟨hnext, hout⟩ := h.step hT hx
      have hdrop : frames.drop (n + 1) = rest := by
        rw [← List.tail_drop, hrest]
        rfl
      rw [Multisample.runOver, List.length_cons, List.range'_succ, List.map_cons]
      dsimp only
      rw [hout, ih hnext hdrop]

theorem taps_ne_nil (a : AudioBuffer ℝ) (rate : ℕ) : Convolver.taps ℝ a rate ≠ [] := by
  intro h
  have hlength := congrArg List.length h
  simp only [Convolver.taps, List.length_map, List.length_range, usedFrames, List.length_nil] at hlength
  omega

/-- A convolver that is new, or has just been reset after any use, gives on each channel the direct
convolution of what it is fed with the taps of that channel, one partition late. -/
theorem convolves_directly (hT : Transform.Convolves γ) (id : ℕ) (a : AudioBuffer ℝ) (rate : ℕ)
    (before : List Call) (frames : List (Frame ℝ)) :
    let new : Convolver ℝ γ := build ℝ id a rate
    let taps := Convolver.taps ℝ a rate
    ∀ c ∈ [new, (new.run before).reset], (runOver step c frames).2 =
      (List.range frames.length).map fun n =>
        ⟨delayed (taps.map Frame.left) (signal (frames.map Frame.left)) n,
          delayed (taps.map Frame.right) (signal (frames.map Frame.right)) n⟩ := by
  intro new taps c hc
  have hserves : Serves taps new := ⟨madeFor_channel _, madeFor_channel _⟩
  have hused := hserves.run before
  have hfollows : Follows taps frames 0 c := by
    rcases List.mem_cons.mp hc with rfl | hc
    · exact follows_zero hT (taps_ne_nil a rate) frames id rate
    · rw [List.mem_singleton.mp hc, reset, hused.1.resetChannel, hused.2.resetChannel]
      exact follows_zero hT (taps_ne_nil a rate) frames _ _
  rw [hfollows.runOver hT List.drop_zero, List.range_eq_range']
  rfl

/-- An impulse response of three stereo frames. -/
def echo : AudioBuffer ℝ :=
  AudioBuffer.ofSamples #[1, 0, 0, 1, 1, -1] 2 24000

/-- The discrete Fourier transform does it, at another rate than that of the impulse response and
after frames that a reset has made forgotten. -/
theorem convolves_directly_fourier :
    letI := Transform.fourier
    Transform.Convolves (ZMod 256 → ℂ) ∧
      let new : Convolver ℝ (ZMod 256 → ℂ) := build ℝ 0 echo 48000
      let taps := Convolver.taps ℝ echo 48000
      let frames : List (Frame ℝ) := [⟨1, 0⟩, ⟨0, 1⟩]
      ∀ c ∈ [new, (new.run [.frame ⟨1, 1⟩]).reset], (runOver step c frames).2 =
        (List.range frames.length).map fun n =>
          ⟨delayed (taps.map Frame.left) (signal (frames.map Frame.left)) n,
            delayed (taps.map Frame.right) (signal (frames.map Frame.right)) n⟩ :=
  letI := Transform.fourier
  ⟨Transform.convolves_fourier, convolves_directly Transform.convolves_fourier 0 echo 48000
    [.frame ⟨1, 1⟩] [⟨1, 0⟩, ⟨0, 1⟩]⟩

end Convolver

end Multisample
