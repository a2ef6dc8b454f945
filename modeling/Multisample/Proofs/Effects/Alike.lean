import Mathlib.Data.List.Forall2
import Multisample.Proofs.Effects.Cuts

/-!
# Rings that cannot be told apart

Two rings are alike when they hold the same samples, each seen from its place
on: nothing that is fed to them tells which is which.  A reverb that was cleared
leaves its rings where they are, and is like a new one all the same.
-/

namespace Multisample

/-- Two devices whose states stay related make the same of a list. -/
theorem runOver_alike {s t α β : Type} {R : s → t → Prop} {step : s → α → s × β}
    {step' : t → α → t × β}
    (hstep : ∀ a b x, R a b → R (step a x).1 (step' b x).1 ∧ (step a x).2 = (step' b x).2) :
    ∀ (xs : List α) {a : s} {b : t}, R a b →
      R (runOver step a xs).1 (runOver step' b xs).1 ∧
        (runOver step a xs).2 = (runOver step' b xs).2
  | [], _, _, h => ⟨h, rfl⟩
  | x :: xs, a, b, h => by
      obtain ⟨hnext, hout⟩ := hstep a b x h
      obtain ⟨hlast, hrest⟩ := runOver_alike hstep xs hnext
      exact ⟨hlast, congrArg₂ List.cons hout hrest⟩

variable {σ π γ : Type}

/-! ## Rings -/

section rings

variable [Scalar σ]

/-- Two rings that hold the same samples, each read from its place on. -/
structure RingsAlike (a : Array σ) (i : ℕ) (b : Array σ) (j : ℕ) : Prop where
  size : a.size = b.size
  left : i < a.size
  right : j < b.size
  reads : ∀ k < a.size, a.getD ((i + k) % a.size) 0 = b.getD ((j + k) % a.size) 0

theorem getD_silent (size place : ℕ) : (Array.replicate size (0 : σ)).getD place 0 = 0 := by
  simp only [Array.getD_eq_getD_getElem?, Array.getElem?_replicate]
  split <;> rfl

theorem ringsAlike_silent {size i j : ℕ} (hi : i < size) (hj : j < size) :
    RingsAlike (Array.replicate size (0 : σ)) i (Array.replicate size 0) j := by
  refine ⟨rfl, by simpa using hi, by simpa using hj, fun k _ => ?_⟩
  rw [getD_silent, getD_silent]

/-- What is read of a ring after its head was written and moved on: the new sample
last, and before it what there was. -/
theorem getD_written {a : Array σ} {i k : ℕ} (hi : i < a.size) (hk : k < a.size) (x : σ) :
    (a.setIfInBounds i x).getD (((i + 1) % a.size + k) % a.size) 0 =
      if k + 1 = a.size then x else a.getD ((i + (k + 1)) % a.size) 0 := by
  have hplace : ((i + 1) % a.size + k) % a.size = (i + (k + 1)) % a.size := by
    rw [Nat.mod_add_mod, Nat.add_assoc, Nat.add_comm 1 k]
  rw [hplace]
  split
  · rename_i hlast
    rw [hlast, Nat.add_mod_right, Nat.mod_eq_of_lt hi]
    simp [hi]
  · rename_i hlast
    have hne : i ≠ (i + (k + 1)) % a.size := by
      rcases Nat.lt_or_ge (i + (k + 1)) a.size with h | h
      · rw [Nat.mod_eq_of_lt h]
        omega
      · rw [Nat.mod_eq_sub_mod h, Nat.mod_eq_of_lt (by omega)]
        omega
    simp only [Array.getD_eq_getD_getElem?, Array.getElem?_setIfInBounds_ne hne]

namespace RingsAlike

variable {a b : Array σ} {i j : ℕ}

theorem head (h : RingsAlike a i b j) : a.getD i 0 = b.getD j 0 := by
  have hread := h.reads 0 (Nat.zero_lt_of_lt h.left)
  rwa [Nat.add_zero, Nat.add_zero, Nat.mod_eq_of_lt h.left,
    Nat.mod_eq_of_lt (h.size ▸ h.right)] at hread

/-- The same sample is written to both, and both move on. -/
theorem written (h : RingsAlike a i b j) (x : σ) :
    RingsAlike (a.setIfInBounds i x) ((i + 1) % a.size) (b.setIfInBounds j x)
      ((j + 1) % b.size) := by
  refine ⟨by simpa using h.size, ?_, ?_, fun k hk => ?_⟩
  · rw [Array.size_setIfInBounds]
    exact Nat.mod_lt _ (Nat.zero_lt_of_lt h.left)
  · rw [Array.size_setIfInBounds]
    exact Nat.mod_lt _ (Nat.zero_lt_of_lt h.right)
  · rw [Array.size_setIfInBounds] at hk ⊢
    rw [getD_written h.left hk]
    conv_rhs => rw [h.size]
    rw [getD_written h.right (h.size ▸ hk), ← h.size]
    split
    · rfl
    · exact h.reads (k + 1) (by omega)

/-- It does not matter where a silent ring is read from. -/
theorem turned {size : ℕ} (h : RingsAlike (Array.replicate size 0) i b j) {place : ℕ}
    (hplace : place < size) : RingsAlike (Array.replicate size 0) place b j := by
  refine ⟨h.size, by simpa using hplace, h.right, fun k hk => ?_⟩
  rw [← h.reads k hk, getD_silent, getD_silent]

end RingsAlike

/-! ## Reverbs -/

namespace Comb

def Alike (c d : Comb σ) : Prop :=
  RingsAlike c.buffer c.index d.buffer d.index ∧ c.store = d.store

theorem Alike.step {c d : Comb σ} (h : c.Alike d) (feedback damp x : σ) :
    (c.step feedback damp x).1.Alike (d.step feedback damp x).1 ∧
      (c.step feedback damp x).2 = (d.step feedback damp x).2 := by
  obtain ⟨buffer, index, store⟩ := c
  obtain ⟨buffer', index', store'⟩ := d
  obtain ⟨hrings, hstore⟩ := h
  dsimp only at hrings hstore
  simp only [Comb.step, hrings.head, hstore]
  exact ⟨⟨hrings.written _, rfl⟩, trivial⟩

theorem clear_step {c d : Comb σ} (h : c.clear.Alike d) (feedback damp x : σ) :
    (c.step feedback damp x).1.clear.Alike d := by
  obtain ⟨hrings, hstore⟩ := h
  have hindex : (c.index + 1) % c.buffer.size < c.buffer.size :=
    Nat.mod_lt _ (by simpa [clear] using Nat.zero_lt_of_lt hrings.left)
  refine ⟨?_, hstore⟩
  simp only [clear, step, Array.size_setIfInBounds]
  exact hrings.turned hindex

theorem ofSize_alike (size : ℕ) : (ofSize size : Comb σ).Alike (ofSize size) := by
  have hplace : 0 < max size 1 := by omega
  exact ⟨ringsAlike_silent hplace hplace, rfl⟩

theorem clear_ofSize (size : ℕ) : (ofSize size : Comb σ).clear = ofSize size := by
  simp [ofSize, clear]

theorem clear_clear (c : Comb σ) : c.clear.clear = c.clear := by
  simp [clear]

end Comb

namespace RingAllPass

def Alike (a b : RingAllPass σ) : Prop :=
  RingsAlike a.buffer a.index b.buffer b.index

theorem Alike.step {a b : RingAllPass σ} (h : a.Alike b) (x : σ) :
    (a.step x).1.Alike (b.step x).1 ∧ (a.step x).2 = (b.step x).2 := by
  obtain ⟨buffer, index⟩ := a
  obtain ⟨buffer', index'⟩ := b
  have hrings : RingsAlike buffer index buffer' index' := h
  simp only [RingAllPass.step, hrings.head]
  exact ⟨hrings.written _, trivial⟩

theorem clear_step {a b : RingAllPass σ} (h : a.clear.Alike b) (x : σ) :
    (a.step x).1.clear.Alike b := by
  have hrings : RingsAlike (Array.replicate a.buffer.size 0) a.index b.buffer b.index := h
  have hindex : (a.index + 1) % a.buffer.size < a.buffer.size :=
    Nat.mod_lt _ (by simpa using Nat.zero_lt_of_lt hrings.left)
  simp only [Alike, clear, step, Array.size_setIfInBounds]
  exact hrings.turned hindex

theorem ofSize_alike (size : ℕ) : (ofSize size : RingAllPass σ).Alike (ofSize size) := by
  have hplace : 0 < max size 1 := by omega
  exact ringsAlike_silent hplace hplace

theorem clear_ofSize (size : ℕ) : (ofSize size : RingAllPass σ).clear = ofSize size := by
  simp [ofSize, clear]

theorem clear_clear (a : RingAllPass σ) : a.clear.clear = a.clear := by
  simp [clear]

end RingAllPass

/-- Two channels whose filters are alike one by one. -/
structure ReverbChannel.Alike (c d : ReverbChannel σ) : Prop where
  combs : List.Forall₂ Comb.Alike c.combs d.combs
  allPasses : List.Forall₂ RingAllPass.Alike c.allPasses d.allPasses

structure Reverb.Alike (r s : Reverb σ) : Prop where
  left : r.left.Alike s.left
  right : r.right.Alike s.right

namespace Reverb

theorem stepCombs_alike {combs combs' : List (Comb σ)} (h : List.Forall₂ Comb.Alike combs combs')
    (feedback damp x sum : σ) :
    List.Forall₂ Comb.Alike (stepCombs feedback damp x combs sum).1
        (stepCombs feedback damp x combs' sum).1 ∧
      (stepCombs feedback damp x combs sum).2 = (stepCombs feedback damp x combs' sum).2 := by
  induction h generalizing sum with
  | nil => exact ⟨.nil, rfl⟩
  | cons hfirst hrest ih =>
      obtain ⟨hnext, hout⟩ := hfirst.step feedback damp x
      simp only [stepCombs, hout]
      obtain ⟨hnexts, hsum⟩ := ih _
      exact ⟨.cons hnext hnexts, hsum⟩

theorem stepAllPasses_alike {passes passes' : List (RingAllPass σ)}
    (h : List.Forall₂ RingAllPass.Alike passes passes') (x : σ) :
    List.Forall₂ RingAllPass.Alike (stepAllPasses passes x).1 (stepAllPasses passes' x).1 ∧
      (stepAllPasses passes x).2 = (stepAllPasses passes' x).2 := by
  induction h generalizing x with
  | nil => exact ⟨.nil, rfl⟩
  | cons hfirst hrest ih =>
      obtain ⟨hnext, hout⟩ := hfirst.step x
      simp only [stepAllPasses, hout]
      obtain ⟨hnexts, hlast⟩ := ih _
      exact ⟨.cons hnext hnexts, hlast⟩

theorem clear_stepCombs {combs fresh : List (Comb σ)}
    (h : List.Forall₂ Comb.Alike (combs.map Comb.clear) fresh) (feedback damp x sum : σ) :
    List.Forall₂ Comb.Alike ((stepCombs feedback damp x combs sum).1.map Comb.clear) fresh := by
  induction combs generalizing fresh sum with
  | nil => exact h
  | cons c rest ih =>
      obtain ⟨d, fresh, hfirst, hrest, rfl⟩ := List.forall₂_cons_left_iff.mp h
      exact .cons (Comb.clear_step hfirst feedback damp x) (ih hrest _)

theorem clear_stepAllPasses {passes fresh : List (RingAllPass σ)}
    (h : List.Forall₂ RingAllPass.Alike (passes.map RingAllPass.clear) fresh) (x : σ) :
    List.Forall₂ RingAllPass.Alike ((stepAllPasses passes x).1.map RingAllPass.clear) fresh := by
  induction passes generalizing fresh x with
  | nil => exact h
  | cons a rest ih =>
      obtain ⟨d, fresh, hfirst, hrest, rfl⟩ := List.forall₂_cons_left_iff.mp h
      exact .cons (RingAllPass.clear_step hfirst x) (ih hrest _)

theorem stepChannel_alike {c d : ReverbChannel σ} (h : c.Alike d) (s : Settings σ) (x : σ) :
    (stepChannel s c x).1.Alike (stepChannel s d x).1 ∧
      (stepChannel s c x).2 = (stepChannel s d x).2 := by
  obtain ⟨combs, passes⟩ := c
  obtain ⟨combs', passes'⟩ := d
  obtain ⟨hcombs, hsum⟩ := stepCombs_alike h.combs s.feedback s.damp x 0
  dsimp only at hcombs hsum
  simp only [stepChannel, hsum]
  obtain ⟨hpasses, hout⟩ :=
    stepAllPasses_alike h.allPasses (stepCombs s.feedback s.damp x combs' 0).2
  exact ⟨⟨hcombs, hpasses⟩, hout⟩

theorem clear_stepChannel {c fresh : ReverbChannel σ} (h : (clearChannel c).Alike fresh)
    (s : Settings σ) (x : σ) : (clearChannel (stepChannel s c x).1).Alike fresh :=
  ⟨clear_stepCombs h.combs s.feedback s.damp x 0, clear_stepAllPasses h.allPasses _⟩

theorem Alike.step {r s : Reverb σ} (h : r.Alike s) (k : Settings σ) (x : Frame σ) :
    (Reverb.step k r x).1.Alike (Reverb.step k s x).1 ∧
      (Reverb.step k r x).2 = (Reverb.step k s x).2 := by
  obtain ⟨left, right⟩ := r
  obtain ⟨left', right'⟩ := s
  let mono := (x.left + x.right) * (0.015 : σ)
  obtain ⟨hleft, hl⟩ := stepChannel_alike h.left k mono
  obtain ⟨hright, hr⟩ := stepChannel_alike h.right k mono
  dsimp only [mono] at hleft hl hright hr
  simp only [Reverb.step, hl, hr]
  exact ⟨⟨hleft, hright⟩, trivial⟩

theorem reset_step {r fresh : Reverb σ} (h : r.reset.Alike fresh) (k : Settings σ) (x : Frame σ) :
    (step k r x).1.reset.Alike fresh :=
  ⟨clear_stepChannel h.left k _, clear_stepChannel h.right k _⟩

theorem channel_alike (rate : σ) (longer : ℕ) :
    (channel rate longer).Alike (channel rate longer) where
  combs := List.forall₂_same.mpr fun c hc => by
    obtain ⟨t, -, rfl⟩ := List.mem_map.mp hc
    exact Comb.ofSize_alike _
  allPasses := List.forall₂_same.mpr fun a ha => by
    obtain ⟨t, -, rfl⟩ := List.mem_map.mp ha
    exact RingAllPass.ofSize_alike _

theorem ofRate_alike (rate : σ) : (ofRate rate).Alike (ofRate rate) :=
  ⟨channel_alike rate 0, channel_alike rate spread⟩

theorem clearChannel_channel (rate : σ) (longer : ℕ) :
    clearChannel (channel rate longer) = channel rate longer := by
  simp only [clearChannel, channel, List.map_map, Function.comp_def, Comb.clear_ofSize,
    RingAllPass.clear_ofSize]

theorem reset_ofRate (rate : σ) : (ofRate rate).reset = ofRate rate := by
  simp only [reset, ofRate, clearChannel_channel]

theorem reset_reset (r : Reverb σ) : r.reset.reset = r.reset := by
  simp only [reset, clearChannel, List.map_map, Function.comp_def, Comb.clear_clear,
    RingAllPass.clear_clear]

end Reverb

end rings

end Multisample
