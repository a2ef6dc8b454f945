import Mathlib.Data.Nat.Digits.Defs
import Mathlib.Tactic.IntervalCases
import Multisample.Proofs.Effects.ChainCalls

/-!
# Orders as words

An order is written into a word place by place and read back place by place; a
list is checked without any word.  Both words and lists are compared here with
the number that has the places as its digits to the base sixteen.  So writing,
reading and checking agree on what an order is.
-/

namespace Multisample

namespace EffectKind

theorem index_lt_base (kind : EffectKind) : kind.index < 16 :=
  kind.index_lt.trans (by decide)

theorem ofIndex?_eq_some_iff {n : ℕ} {kind : EffectKind} :
    ofIndex? n = some kind ↔ n = kind.index := by
  constructor
  · intro h
    obtain ⟨hn, rfl⟩ := List.getElem?_eq_some_iff.mp h
    have hlt : n < 10 := hn
    interval_cases n <;> rfl
  · rintro rfl
    cases kind <;> rfl

end EffectKind

namespace EffectOrder

/-- The number with the places as digits, the first one lowest. -/
def number (kinds : List EffectKind) : ℕ :=
  Nat.ofDigits 16 (kinds.map EffectKind.index)

theorem number_cons (kind : EffectKind) (rest : List EffectKind) :
    number (kind :: rest) = kind.index + 16 * number rest :=
  Nat.ofDigits_cons ..

theorem number_lt (kinds : List EffectKind) : number kinds < 16 ^ kinds.length := by
  have hdigits : ∀ digit ∈ kinds.map EffectKind.index, digit < 16 := by
    intro digit hdigit
    obtain ⟨kind, -, rfl⟩ := List.mem_map.mp hdigit
    exact kind.index_lt_base
  have h := Nat.ofDigits_lt_base_pow_length (by decide) hdigits
  rwa [List.length_map] at h

/-! ## Writing -/

/-- The place is above all that is written so far. -/
theorem toNat_write {word : UInt64} (kind : EffectKind) {place : ℕ} (hplace : place < 16)
    (h : word.toNat < 16 ^ place) :
    (write word kind place).toNat = word.toNat + 16 ^ place * kind.index := by
  have hindex := kind.index_lt_base
  have hpow : (16 : ℕ) ^ place = 2 ^ (4 * place) := by rw [pow_mul]; rfl
  have hlt : kind.index * 2 ^ (4 * place) < 2 ^ 64 := by
    calc kind.index * 2 ^ (4 * place) < 16 * 2 ^ (4 * place) := by gcongr
      _ = 2 ^ (4 * (place + 1)) := by ring
      _ ≤ 2 ^ 64 := Nat.pow_le_pow_right (by decide) (by omega)
  have hshift : (UInt64.ofNat kind.index <<< UInt64.ofNat (4 * place)).toNat =
      2 ^ (4 * place) * kind.index := by
    rw [UInt64.toNat_shiftLeft, UInt64.toNat_ofNat', UInt64.toNat_ofNat',
      Nat.mod_eq_of_lt (show kind.index < 2 ^ 64 by omega),
      Nat.mod_eq_of_lt (show 4 * place < 2 ^ 64 by omega),
      Nat.mod_eq_of_lt (show 4 * place < 64 by omega), Nat.shiftLeft_eq, Nat.mod_eq_of_lt hlt,
      Nat.mul_comm]
  rw [write, UInt64.toNat_or, hshift, Nat.or_comm, hpow,
    ← Nat.two_pow_add_eq_or_of_lt (hpow ▸ h), Nat.add_comm]

/-- Places are written upwards. -/
theorem toNat_foldl_write (kinds : List EffectKind) {place : ℕ} {word : UInt64}
    (hplaces : place + kinds.length ≤ 16) (h : word.toNat < 16 ^ place) :
    ((kinds.zipIdx place).foldl (fun word (kind, place) => write word kind place) word).toNat =
      word.toNat + 16 ^ place * number kinds := by
  induction kinds generalizing place word with
  | nil => simp [number]
  | cons kind rest ih =>
      rw [List.length_cons] at hplaces
      have hwrite := toNat_write kind (show place < 16 by omega) h
      have hindex := kind.index_lt_base
      have hnext : (write word kind place).toNat < 16 ^ (place + 1) := by
        calc (write word kind place).toNat = word.toNat + 16 ^ place * kind.index := hwrite
          _ < 16 ^ place * (kind.index + 1) := by rw [Nat.mul_succ]; omega
          _ ≤ 16 ^ place * 16 := Nat.mul_le_mul_left _ hindex
      rw [List.zipIdx_cons, List.foldl_cons, ih (by omega) hnext, hwrite, number_cons]
      ring

theorem toNat_packed {kinds : List EffectKind} (h : kinds.length ≤ 16) :
    (packed kinds).toNat = number kinds := by
  rw [packed, toNat_foldl_write kinds (by omega) Nat.zero_lt_one]
  simp

/-! ## Reading -/

theorem toNat_place (word : UInt64) : (word &&& 0xf).toNat = word.toNat % 16 := by
  rw [UInt64.toNat_and]
  exact Nat.and_two_pow_sub_one_eq_mod word.toNat 4

theorem toNat_rest (word : UInt64) : (word >>> 4).toNat = word.toNat / 16 := by
  rw [UInt64.toNat_shiftRight]
  exact Nat.shiftRight_eq_div_pow word.toNat 4

theorem mod_base_pow_succ (n count : ℕ) :
    n % 16 ^ (count + 1) = n % 16 + 16 * (n / 16 % 16 ^ count) := by
  rw [pow_succ', Nat.mod_mul]

/-- Reading finds the kinds that the lowest digits of the word stand for, if they are all new. -/
theorem kindsOf?_eq_some_iff {count : ℕ} {seen kinds : List EffectKind} {word : UInt64} :
    kindsOf? count seen word = some kinds ↔
      kinds.length = count ∧ eachNew seen kinds = true ∧
        word.toNat % 16 ^ count = number kinds := by
  induction count generalizing seen kinds word with
  | zero =>
      rw [kindsOf?, Option.some.injEq, List.length_eq_zero_iff]
      constructor
      · rintro rfl
        simp [eachNew, number, Nat.mod_one]
      · exact fun h => h.1.symm
  | succ count ih =>
      rw [kindsOf?_succ_eq_some_iff, mod_base_pow_succ]
      constructor
      · rintro ⟨kind, rest, rfl, hkind, hnew, hrest⟩
        obtain ⟨hlength, heach, hnumber⟩ := ih.mp hrest
        rw [EffectKind.ofIndex?_eq_some_iff, toNat_place] at hkind
        rw [toNat_rest] at hnumber
        exact ⟨congrArg (· + 1) hlength, by simp [eachNew, hnew, heach],
          by rw [hkind, hnumber, number_cons]⟩
      · rintro ⟨hlength, heach, hnumber⟩
        obtain ⟨kind, rest, rfl⟩ := List.exists_cons_of_length_eq_add_one hlength
        obtain ⟨hnew, heach⟩ := Bool.and_eq_true_iff.mp heach
        rw [number_cons] at hnumber
        have hindex := kind.index_lt_base
        refine ⟨kind, rest, rfl, ?_, of_decide_eq_true hnew, ih.mpr ⟨?_, heach, ?_⟩⟩
        · rw [EffectKind.ofIndex?_eq_some_iff, toNat_place]
          omega
        · exact Nat.succ.inj hlength
        · rw [toNat_rest]
          omega

/-! ## Writing, reading and checking agree -/

theorem map_unpack? (word : UInt64) :
    (unpack? word).map EffectOrder.kinds = kindsOf? EffectKind.all.length [] word := by
  simp [unpack?, Option.map_pmap]

/-- A word gives a list of kinds just if the list is an order and its word is
what the ten places of this one hold. -/
theorem map_unpack?_eq_some_iff {word : UInt64} {kinds : List EffectKind} :
    (unpack? word).map EffectOrder.kinds = some kinds ↔
      kinds.Perm EffectKind.all ∧ word &&& 0xffffffffff = packed kinds := by
  have hlow : (word &&& 0xffffffffff).toNat = word.toNat % 16 ^ EffectKind.all.length := by
    rw [UInt64.toNat_and]
    exact Nat.and_two_pow_sub_one_eq_mod word.toNat 40
  rw [map_unpack?, kindsOf?_eq_some_iff, ← isPermutation_iff, isPermutation, Bool.and_eq_true,
    beq_iff_eq, and_assoc]
  refine and_congr_right fun hlength => and_congr_right fun _ => ?_
  rw [← UInt64.toNat_inj, hlow, toNat_packed (hlength.trans_le (by decide))]

/-- A list is read back from its word just if it is an order. -/
theorem map_unpack?_packed_iff {kinds : List EffectKind} :
    (unpack? (packed kinds)).map EffectOrder.kinds = some kinds ↔ kinds.Perm EffectKind.all := by
  rw [map_unpack?_eq_some_iff, and_iff_left_iff_imp]
  intro horder
  have hnumber := toNat_packed (horder.length_eq.trans_le (by decide))
  have hlt := number_lt kinds
  rw [horder.length_eq] at hlt
  rw [← UInt64.toNat_inj, UInt64.toNat_and, hnumber]
  exact (Nat.and_two_pow_sub_one_eq_mod _ 40).trans (Nat.mod_eq_of_lt hlt)

theorem unpack?_pack (order : EffectOrder) : unpack? order.pack = some order := by
  obtain ⟨read, hread, hkinds⟩ := Option.map_eq_some_iff.mp
    (map_unpack?_packed_iff.mpr order.complete)
  rw [pack, hread, EffectOrder.ext hkinds]

end EffectOrder

end Multisample
