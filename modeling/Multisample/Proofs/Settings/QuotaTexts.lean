import Mathlib.Data.Nat.Notation
import Multisample.Settings.Engine

/-!
# Quotas written as texts

The limits of scripts are settings like others, and the time among them is a text.
Overriding it writes whole milliseconds, which is what is read again: a fraction of
a millisecond is lost, and a number of them that no word holds is no duration.
-/

namespace Multisample

namespace DurationText

/-! ## Reading what is written -/

theorem isNumeral_of_isDigit {c : Char} (h : c.isDigit = true) : Text.isNumeral c = true := by
  have hbounds : 48 ≤ c.toNat ∧ c.toNat ≤ 57 := Char.isDigit_iff_toNat.mp h
  rw [Text.isNumeral, if_pos (by omega), h]

theorem isSpace_of_isDigit {c : Char} (h : c.isDigit = true) : Text.isSpace c = false := by
  have hbounds : 48 ≤ c.toNat ∧ c.toNat ≤ 57 := Char.isDigit_iff_toNat.mp h
  simp only [Text.isSpace, Text.inRanges, List.any_cons, List.any_nil, Bool.or_false,
    Bool.or_eq_false_iff, Bool.and_eq_false_iff, decide_eq_false_iff_not]
  omega

theorem groups_unit {unit : List Char} (h : ∀ c ∈ unit, Text.isNumeral c = false) :
    groups unit = [⟨[], unit⟩] := by
  induction unit with
  | nil => rfl
  | cons c unit ih =>
      obtain ⟨hc, hunit⟩ := List.forall_mem_cons.mp h
      rw [groups, ih hunit]
      simp [hc]

/-- Numerals and what follows them are one group. -/
theorem groups_append {number unit : List Char} (hnumber : ∀ c ∈ number, Text.isNumeral c = true)
    (hunit : ∀ c ∈ unit, Text.isNumeral c = false) :
    groups (number ++ unit) = [⟨number, unit⟩] := by
  induction number with
  | nil => exact groups_unit hunit
  | cons c number ih =>
      obtain ⟨hc, hnumber⟩ := List.forall_mem_cons.mp hnumber
      rw [List.cons_append, groups, ih hnumber]
      simp [hc]

theorem number_toDigits (n : ℕ) : number (Nat.toDigits 10 n) =
    if n < limit then .ok n else .error .numberTooLarge := by
  have hdigits : (Nat.toDigits 10 n).all Char.isDigit = true :=
    List.all_eq_true.mpr fun _ => Nat.isDigit_of_mem_toDigits (by decide) (by decide)
  have hvalue : Decimal.ofDigits (Nat.toDigits 10 n) = n := Nat.ofDigitChars_ten_toDigits
  rw [number, if_neg (by simp), if_neg (by simp [hdigits]), hvalue]

theorem unitLength?_millis : unitLength? (String.ofList ['m', 's']) = some 1000000 := by
  have hms : String.ofList ['m', 's'] = "ms" := rfl
  rw [hms]
  rfl

theorem fitting_millis {n : ℕ} (h : n < limit) : fitting (n * 1000000) = .ok (.ofMillis n) := by
  have hfits : n * 1000000 < limit * Duration.perSecond :=
    Nat.mul_lt_mul_of_lt_of_le h (by decide) (by decide)
  rw [fitting, if_pos hfits, Duration.ofMillis]

theorem groupLength_eq {g : Group} {n length : ℕ} (hnumber : number g.number = .ok n)
    (hunit : unitLength? (String.ofList g.unit) = some length) :
    groupLength g = fitting (n * length) := by
  rw [groupLength, hnumber, hunit]
  rfl

theorem groupLength_millis (n : ℕ) : groupLength ⟨Nat.toDigits 10 n, ['m', 's']⟩ =
    if n < limit then .ok (.ofMillis n) else .error .numberTooLarge := by
  have hnumber := number_toDigits n
  split
  · rename_i hlt
    rw [if_pos hlt] at hnumber
    rw [groupLength_eq hnumber unitLength?_millis, fitting_millis hlt]
  · rename_i hge
    rw [if_neg hge] at hnumber
    rw [groupLength, hnumber]
    rfl

theorem total_cons {sum length next : Duration} {g : Group} {rest : List Group}
    (hlength : groupLength g = .ok length)
    (hnext : fitting (sum.nanoseconds + length.nanoseconds) = .ok next) :
    total sum (g :: rest) = total next rest := by
  rw [total, hlength]
  exact congrArg (· >>= fun sum => total sum rest) hnext

theorem toList_millis (n : ℕ) : (s!"{n}ms").toList = Nat.toDigits 10 n ++ ['m', 's'] := by
  have htext : s!"{n}ms" = toString n ++ "ms" := rfl
  rw [htext, String.toList_append, Nat.toString_eq_ofList_toDigits, String.toList_ofList]
  rfl

/-- Whole milliseconds are read as they were written unless no word holds their number. -/
theorem read_millis (n : ℕ) : read s!"{n}ms" =
    if n < limit then .ok (.ofMillis n) else .error .numberTooLarge := by
  have hdigit : ∀ c ∈ Nat.toDigits 10 n, c.isDigit = true :=
    fun _ => Nat.isDigit_of_mem_toDigits (by decide) (by decide)
  have hfilter : ((s!"{n}ms").toList.filter fun c => !Text.isSpace c) =
      Nat.toDigits 10 n ++ ['m', 's'] := by
    have hunit : (['m', 's'].filter fun c => !Text.isSpace c) = ['m', 's'] := by decide
    rw [toList_millis, List.filter_append, hunit, List.filter_eq_self.mpr]
    intro c hc
    rw [isSpace_of_isDigit (hdigit c hc)]
    rfl
  have hunit : ∀ c ∈ ['m', 's'], Text.isNumeral c = false :=
    List.forall_mem_cons.mpr ⟨rfl, List.forall_mem_singleton.mpr rfl⟩
  have hgroups := groups_append (fun c hc => isNumeral_of_isDigit (hdigit c hc)) hunit
  have hlength := groupLength_millis n
  rw [read, hfilter, hgroups]
  split
  · rename_i hlt
    rw [if_pos hlt] at hlength
    have hsum : fitting (0 + (Duration.ofMillis n).nanoseconds) = .ok (.ofMillis n) := by
      rw [Nat.zero_add]
      exact fitting_millis hlt
    rw [total_cons hlength hsum, total]
  · rename_i hge
    rw [if_neg hge] at hlength
    rw [total, hlength]
    rfl

end DurationText

theorem Duration.ofMillis_millis_eq_iff (d : Duration) :
    Duration.ofMillis d.millis = d ↔ d.nanoseconds % 1000000 = 0 := by
  cases d with
  | mk nanoseconds =>
      simp only [ofMillis, millis, mk.injEq]
      omega

namespace Settings

/-! ## Overriding the quotas -/

/-- A reader of duration texts takes whole milliseconds below some number for what they are. -/
def ReadsMillis (read : String → Except String Duration) (bound : ℕ) : Prop :=
  ∀ n < bound, read s!"{n}ms" = .ok (.ofMillis n)

theorem readDuration_millis (n : ℕ) : readDuration s!"{n}ms" =
    if n < DurationText.limit then .ok (.ofMillis n)
    else .error DurationText.Problem.numberTooLarge.message := by
  rw [readDuration, DurationText.read_millis]
  split <;> rfl

theorem readsMillis_readDuration : ReadsMillis readDuration DurationText.limit :=
  fun n h => (readDuration_millis n).trans (if_pos h)

section

variable {read : String → Except String Duration} (s : Settings) {q : Quotas}

/-- The quotas that are read after they have been overridden. -/
theorem quotasBy_withQuotas : (s.withQuotas q).quotasBy read =
    (read s!"{q.time.millis}ms").mapError
      (.invalidDuration "script.timeout" s!"{q.time.millis}ms") >>= fun time => .ok ⟨q.bytes, time⟩ :=
  rfl

theorem quotasBy_of_ok {time : Duration} (h : read s!"{q.time.millis}ms" = .ok time) :
    (s.withQuotas q).quotasBy read = .ok ⟨q.bytes, time⟩ := by
  rw [quotasBy_withQuotas, h]
  rfl

theorem quotasBy_of_error {reason : String} (h : read s!"{q.time.millis}ms" = .error reason) :
    (s.withQuotas q).quotasBy read =
      .error (.invalidDuration "script.timeout" s!"{q.time.millis}ms" reason) := by
  rw [quotasBy_withQuotas, h]
  rfl

/-- Only a fraction of a millisecond is lost. -/
theorem quotasBy_eq_ok_iff (h : read s!"{q.time.millis}ms" = .ok (.ofMillis q.time.millis)) :
    (s.withQuotas q).quotasBy read = .ok q ↔ q.time.nanoseconds % 1000000 = 0 := by
  rw [s.quotasBy_of_ok h, ← q.time.ofMillis_millis_eq_iff]
  cases q with
  | mk bytes time => simp

end

/-- Whole milliseconds are written whatever the time is, so that only they are read again, by
any reader that takes them for what they are.  The one that is used does so unless no word holds
their number; then nothing can be read.  So quotas are read as they were set exactly if their time
is a whole number of milliseconds that a word holds.  All other settings stay what they were. -/
theorem quotas_round_trip_iff (s : Settings) (q : Quotas) :
    (∀ read bound, ReadsMillis read bound → q.time.millis < bound →
      (s.withQuotas q).quotasBy read = .ok ⟨q.bytes, .ofMillis q.time.millis⟩ ∧
        ((s.withQuotas q).quotasBy read = .ok q ↔ q.time.nanoseconds % 1000000 = 0)) ∧
    ReadsMillis readDuration DurationText.limit ∧
    (DurationText.limit ≤ q.time.millis →
      (s.withQuotas q).quotas = .error (.invalidDuration "script.timeout" s!"{q.time.millis}ms"
        DurationText.Problem.numberTooLarge.message)) ∧
    ((s.withQuotas q).quotas = .ok q ↔
      q.time.nanoseconds % 1000000 = 0 ∧ q.time.millis < DurationText.limit) ∧
    { s.withQuotas q with scriptBytes? := s.scriptBytes?, scriptTime? := s.scriptTime? } = s := by
  have herror : DurationText.limit ≤ q.time.millis →
      (s.withQuotas q).quotas = .error (.invalidDuration "script.timeout" s!"{q.time.millis}ms"
        DurationText.Problem.numberTooLarge.message) := by
    intro hle
    have hread := readDuration_millis q.time.millis
    rw [if_neg (Nat.not_lt.mpr hle)] at hread
    exact s.quotasBy_of_error hread
  refine ⟨fun read bound hreads hlt => ?_, readsMillis_readDuration, herror, ?_, rfl⟩
  · exact ⟨s.quotasBy_of_ok (hreads _ hlt), s.quotasBy_eq_ok_iff (hreads _ hlt)⟩
  · rcases Nat.lt_or_ge q.time.millis DurationText.limit with hlt | hle
    · rw [and_iff_left hlt]
      exact s.quotasBy_eq_ok_iff (readsMillis_readDuration _ hlt)
    · rw [herror hle]
      simp [Nat.not_lt.mpr hle]

/-- Half a millisecond is written, and read again, as no time at all. -/
theorem half_millisecond_lost :
    (withQuotas {} ⟨4096, ⟨500000⟩⟩).quotas = .ok ⟨4096, ⟨0⟩⟩ ∧
      (withQuotas {} ⟨4096, ⟨500000⟩⟩).quotas ≠ .ok ⟨4096, ⟨500000⟩⟩ := by
  have hread : (withQuotas {} ⟨4096, ⟨500000⟩⟩).quotas = .ok ⟨4096, ⟨0⟩⟩ :=
    quotasBy_of_ok {} (readsMillis_readDuration 0 (by decide))
  refine ⟨hread, ?_⟩
  rw [hread]
  simp

end Settings

end Multisample
