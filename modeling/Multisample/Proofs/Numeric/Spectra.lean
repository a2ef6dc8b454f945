import Mathlib.Analysis.Fourier.ZMod
import Mathlib.Data.List.GetD
import Multisample.Proofs.Numeric.Exact

/-!
# What convolution needs of a transform

A product of spectra stands for the circular convolution of what they come from,
and the transform is linear.  Nothing else about spectra is used.  The discrete
Fourier transform is such a transform.
-/

namespace Multisample.Transform

/-- The circular convolution of two rows of 256 samples. -/
noncomputable def circular (x h : List ℝ) : List ℝ :=
  List.ofFn fun i : Fin 256 => ∑ k : Fin 256, x.getD (i - k).val 0 * h.getD k.val 0

/-- A transform of rows of 256 samples by which convolutions can be computed. -/
structure Convolves (γ : Type) [Transform ℝ γ] : Prop where
  forward_zero : forward (List.replicate 256 (0 : ℝ)) = zero ℝ
  inverse_zero : inverse (zero ℝ : γ) = List.replicate 256 (0 : ℝ)
  inverse_add : ∀ s t : γ,
    (inverse (add ℝ s t) : List ℝ) = List.zipWith (· + ·) (inverse s) (inverse t)
  inverse_mul : ∀ x h : List ℝ, x.length = 256 → h.length = 256 →
    inverse (mul ℝ (forward x) (forward h)) = (circular x h).map (256 * ·)

/-! ## The discrete Fourier transform -/

/-- A row of samples as a function on the residues modulo 256. -/
noncomputable def samples (x : List ℝ) (i : ZMod 256) : ℂ :=
  ((x.getD i.val 0 : ℝ) : ℂ)

/-- The sample that a spectrum gives at a place, its division by 256 left out. -/
noncomputable def synthesis (s : ZMod 256 → ℂ) (i : Fin 256) : ℝ :=
  (ZMod.dft s (-(i.val : ZMod 256))).re

/-- The discrete Fourier transform; its inverse gives the real parts. -/
@[reducible] noncomputable def fourier : Transform ℝ (ZMod 256 → ℂ) where
  forward x := ZMod.dft (samples x)
  inverse s := List.ofFn (synthesis s)
  zero := 0
  add s t := s + t
  mul s t := s * t

theorem synthesis_dft (x : List ℝ) (i : Fin 256) :
    synthesis (ZMod.dft (samples x)) i = 256 * x.getD i.val 0 := by
  simp only [synthesis, ZMod.dft_dft, neg_neg, samples, ZMod.val_cast_of_lt i.isLt]
  simp

/-- A product of spectra is the spectrum of the circular convolution. -/
theorem dft_mul (x h : ZMod 256 → ℂ) :
    ZMod.dft x * ZMod.dft h = ZMod.dft fun i => ∑ k, x (i - k) * h k := by
  ext j
  simp only [Pi.mul_apply, ZMod.dft_apply, smul_eq_mul, Finset.mul_sum]
  rw [Finset.sum_comm]
  refine Finset.sum_congr rfl fun k _ => ?_
  rw [Finset.sum_mul, ← (Equiv.subRight k).sum_comp]
  refine Finset.sum_congr rfl fun i _ => ?_
  have hcharacter : ZMod.stdAddChar (-((i - k) * j)) * ZMod.stdAddChar (-(k * j)) =
      (ZMod.stdAddChar (-(i * j)) : ℂ) := by
    rw [← AddChar.map_add_eq_mul]
    congr 1
    ring
  rw [Equiv.subRight_apply, ← hcharacter]
  ring

theorem samples_circular (x h : List ℝ) (i : ZMod 256) :
    samples (circular x h) i = ∑ k, samples x (i - k) * samples h k := by
  have hlt : i.val < (circular x h).length := by
    rw [circular, List.length_ofFn]
    exact ZMod.val_lt i
  have hat : (circular x h).getD i.val 0 =
      ∑ k : ZMod 256, x.getD (i - k).val 0 * h.getD k.val 0 := by
    rw [List.getD_eq_getElem _ _ hlt]
    exact List.getElem_ofFn ..
  rw [samples, hat]
  push_cast
  rfl

theorem convolves_fourier : @Convolves _ fourier := by
  refine @Convolves.mk _ fourier ?_ ?_ ?_ ?_
  · have hzero : samples (List.replicate 256 (0 : ℝ)) = 0 := by
      ext i
      rw [samples, List.getD_eq_getElem?_getD, List.getElem?_replicate]
      split <;> simp
    exact (congrArg _ hzero).trans (map_zero ZMod.dft)
  · have hzero : synthesis 0 = fun _ => 0 := by
      ext i
      rw [synthesis, map_zero]
      rfl
    exact (congrArg _ hzero).trans (List.ofFn_const 256 0)
  · intro s t
    have hadd : synthesis (s + t) = fun i => synthesis s i + synthesis t i := by
      ext i
      simp only [synthesis, map_add, Pi.add_apply, Complex.add_re]
    change List.ofFn (synthesis (s + t)) = _
    rw [hadd]
    apply List.ext_getElem
    · simp only [inverse, List.length_ofFn, List.length_zipWith, Nat.min_self]
    · intro n _ _
      simp only [inverse, List.getElem_ofFn, List.getElem_zipWith]
  · intro x h _ _
    have hspectrum : ZMod.dft (samples x) * ZMod.dft (samples h) =
        ZMod.dft (samples (circular x h)) := by
      rw [dft_mul]
      exact congrArg _ (funext fun i => (samples_circular x h i).symm)
    change List.ofFn (synthesis (ZMod.dft (samples x) * ZMod.dft (samples h))) = _
    rw [hspectrum]
    apply List.ext_getElem
    · simp only [List.length_ofFn, List.length_map, circular]
    · intro n hn hn'
      rw [List.length_map] at hn'
      rw [List.getElem_ofFn, List.getElem_map, synthesis_dft, List.getD_eq_getElem _ _ hn']

end Multisample.Transform
