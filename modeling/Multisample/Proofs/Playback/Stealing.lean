import Multisample.Proofs.Numeric.Exact
import Multisample.Proofs.Playback.PoolRuns

/-!
# Which voice makes room

A full pool starts a voice at the cost of another one: of the voices that are on
their way out the one that started first, and only without any of these the
quietest of all.  Serial numbers tell which voice started first, along every run
of a pool.
-/

namespace Multisample

variable {σ π : Type}

namespace VoicePool

/-! ## The least element of a list -/

/-- A comparison that puts some elements in order, equal ones next to each other. -/
structure Orders {α : Type} (before : α → α → Bool) (xs : List α) : Prop where
  asymm : ∀ a ∈ xs, ∀ b ∈ xs, before a b = true → before b a = false
  trans : ∀ a ∈ xs, ∀ b ∈ xs, ∀ c ∈ xs,
    before a b = false → before b c = false → before a c = false

section Orders

variable {α β : Type} {before : α → α → Bool} {xs ys : List α}

theorem Orders.subset (h : Orders before ys) (hsub : xs ⊆ ys) : Orders before xs where
  asymm a ha b hb := h.asymm a (hsub ha) b (hsub hb)
  trans a ha b hb c hc := h.trans a (hsub ha) b (hsub hb) c (hsub hc)

theorem Orders.comap {f : β → α} {zs : List β} (h : Orders before (zs.map f)) :
    Orders (fun a b => before (f a) (f b)) zs where
  asymm _ ha _ hb := h.asymm _ (List.mem_map_of_mem ha) _ (List.mem_map_of_mem hb)
  trans _ ha _ hb _ hc := h.trans _ (List.mem_map_of_mem ha) _ (List.mem_map_of_mem hb) _
    (List.mem_map_of_mem hc)

theorem orders_lt [LinearOrder β] (f : α → β) (xs : List α) :
    Orders (fun a b => decide (f a < f b)) xs where
  asymm _ _ _ _ hab := decide_eq_false (of_decide_eq_true hab).asymm
  trans _ _ _ _ _ _ hab hbc :=
    decide_eq_false (not_lt.mpr ((not_lt.mp (of_decide_eq_false hbc)).trans
      (not_lt.mp (of_decide_eq_false hab))))

theorem Orders.irrefl (h : Orders before xs) {a : α} (ha : a ∈ xs) : before a a = false := by
  cases haa : before a a with
  | false => rfl
  | true => exact haa.symm.trans (h.asymm a ha a ha haa)

/-- What an order leaves undecided another one can decide. -/
theorem Orders.lex {after : α → α → Bool} (h : Orders before xs) (h' : Orders after xs) :
    Orders (fun a b => before a b || (!before b a && after a b)) xs where
  asymm a ha b hb := by
    simp only [Bool.or_eq_true, Bool.and_eq_true, Bool.not_eq_true', Bool.or_eq_false_iff,
      Bool.and_eq_false_imp]
    rintro (hab | ⟨hba, hab⟩)
    · exact ⟨h.asymm a ha b hb hab, fun hnot => absurd (hab.symm.trans hnot) (by decide)⟩
    · exact ⟨hba, fun _ => h'.asymm a ha b hb hab⟩
  trans a ha b hb c hc := by
    simp only [Bool.or_eq_false_iff, Bool.and_eq_false_imp, Bool.not_eq_true']
    rintro ⟨hab, hab'⟩ ⟨hbc, hbc'⟩
    refine ⟨h.trans a ha b hb c hc hab hbc, fun hca => ?_⟩
    -- Where the first order does not tell the outer two apart it tells none apart.
    have hba : before b a = false := h.trans b hb c hc a ha hbc hca
    have hcb : before c b = false := h.trans c hc a ha b hb hca hab
    exact h'.trans a ha b hb c hc (hab' hba) (hbc' hcb)

/-- Of two elements the one that is kept has neither of them before it. -/
theorem Orders.kept (h : Orders before xs) {a b : α} (ha : a ∈ xs) (hb : b ∈ xs) :
    ∃ c ∈ [a, b], (if before b a then b else a) = c ∧ ∀ y ∈ [a, b], before y c = false := by
  cases hba : before b a with
  | true =>
      refine ⟨b, by simp, rfl, fun y hy => ?_⟩
      rcases List.mem_pair.mp hy with rfl | rfl
      · exact h.asymm b hb y ha hba
      · exact h.irrefl hb
  | false =>
      refine ⟨a, by simp, rfl, fun y hy => ?_⟩
      rcases List.mem_pair.mp hy with rfl | rfl
      · exact h.irrefl ha
      · exact hba

theorem exists_least? (before : α → α → Bool) (h : xs ≠ []) : ∃ x, least? before xs = some x := by
  cases xs with
  | nil => exact absurd rfl h
  | cons x rest => exact ⟨_, rfl⟩

/-- Nothing comes before the least element. -/
theorem not_before_least {x : α} (h : Orders before xs) (hx : least? before xs = some x) :
    ∀ y ∈ xs, before y x = false := by
  cases xs with
  | nil => simp [least?] at hx
  | cons best rest =>
      induction rest generalizing best with
      | nil =>
          obtain rfl := Option.some.inj hx
          intro y hy
          rw [List.mem_singleton.mp hy]
          exact h.irrefl List.mem_cons_self
      | cons z zs ih =>
          obtain ⟨kept, hkept, hstep, hfirst⟩ :=
            h.kept List.mem_cons_self (List.mem_cons_of_mem _ List.mem_cons_self)
          rw [least?, List.foldl_cons, hstep] at hx
          have hsub : kept :: zs ⊆ best :: z :: zs := by
            refine List.cons_subset.mpr ⟨?_, fun y hy => by simp [hy]⟩
            exact List.mem_append_left zs hkept
          have hrest := ih kept (h.subset hsub) hx
          intro y hy
          rcases List.mem_append.mp (show y ∈ [best, z] ++ zs from hy) with hfront | hback
          -- What does not come before the one that is kept does not come before the least either.
          · exact h.trans y hy kept (hsub List.mem_cons_self) x (hsub (mem_of_least? hx))
              (hfirst y hfront) (hrest kept List.mem_cons_self)
          · exact hrest y (List.mem_cons_of_mem _ hback)

end Orders

/-! ## The slot of a new voice -/

section start

variable [Scalar σ] [Scalar π]

/-- The levels of the sounding voices are numbers that compare with each other, as
exact numbers do, and machine numbers unless one of them is not a number. -/
def LevelsCompare (p : VoicePool σ π) : Prop :=
  Orders Scalar.lt (p.sounding.map fun v => v.envelope.level)

omit [Scalar σ] [Scalar π] in
/-- In exact arithmetic there are no other levels. -/
theorem levelsCompare_real (p : VoicePool ℝ π) : p.LevelsCompare :=
  orders_lt id _

omit [Scalar π] in
theorem LevelsCompare.orders_quieter {p : VoicePool σ π} (h : p.LevelsCompare) :
    Orders quieter p.sounding :=
  Orders.lex (Orders.comap h) (orders_lt (fun v => v.serial) p.sounding)

omit [Scalar σ] [Scalar π] in
theorem mem_sounding_of_getElem? {p : VoicePool σ π} {v : Voice σ π} {index : ℕ}
    (h : p.slots[index]? = some (some v)) : v ∈ p.sounding :=
  mem_sounding.mpr (List.mem_of_getElem? h)

omit [Scalar σ] [Scalar π] in
theorem exists_voices_of_mem {p : VoicePool σ π} {v : Voice σ π} (h : v ∈ p.sounding) :
    ∃ index, (v, index) ∈ p.voices := by
  obtain ⟨index, hindex⟩ := List.getElem?_of_mem (mem_sounding.mp h)
  exact ⟨index, mem_voices.mpr hindex⟩

omit [Scalar π] in
theorem slotFor?_of_free {p : VoicePool σ π} (h : none ∈ p.slots) :
    ∃ index, p.slotFor? = some index ∧ p.slots[index]? = some none := by
  unfold slotFor?
  cases hfree : p.slots.findIdx? Option.isNone with
  | none => exact absurd (List.findIdx?_eq_none_iff.mp hfree none h) (by simp)
  | some index =>
      obtain ⟨hlt, hnone, -⟩ := List.findIdx?_eq_some_iff_getElem.mp hfree
      exact ⟨index, rfl, by rw [List.getElem?_eq_getElem hlt, Option.isNone_iff_eq_none.mp hnone]⟩

omit [Scalar σ] [Scalar π] in
theorem findIdx?_of_full {p : VoicePool σ π} (h : none ∉ p.slots) :
    p.slots.findIdx? Option.isNone = none := by
  refine List.findIdx?_eq_none_iff.mpr fun slot hslot => Option.isNone_eq_false_iff.mpr ?_
  exact Option.isSome_iff_ne_none.mpr (ne_of_mem_of_not_mem hslot h)

omit [Scalar π] in
/-- In a full pool the oldest of the voices on their way out comes first, then the quietest. -/
theorem slotFor?_of_full {p : VoicePool σ π} (h : none ∉ p.slots) :
    p.slotFor? = ((least? (fun v w => v.1.serial < w.1.serial)
      (p.voices.filter fun v => v.1.isLeaving)).or
        (least? (fun v w => quieter v.1 w.1) p.voices)).map Prod.snd := by
  rw [slotFor?, findIdx?_of_full h]
  dsimp only
  cases least? (fun v w => decide (v.1.serial < w.1.serial))
    (p.voices.filter fun v => v.1.isLeaving) <;> rfl

omit [Scalar π] in
theorem slotFor?_of_leaving {p : VoicePool σ π} (hfull : none ∉ p.slots)
    (h : ∃ v ∈ p.sounding, v.isLeaving = true) :
    ∃ index v, p.slotFor? = some index ∧ p.slots[index]? = some (some v) ∧ v.isLeaving = true ∧
      ∀ w ∈ p.sounding, w.isLeaving = true → v.serial ≤ w.serial := by
  obtain ⟨u, hu, huleaving⟩ := h
  obtain ⟨i, hi⟩ := exists_voices_of_mem hu
  have hsome : p.voices.filter (fun v => v.1.isLeaving) ≠ [] :=
    List.ne_nil_of_mem (List.mem_filter.mpr ⟨hi, huleaving⟩)
  obtain ⟨⟨v, index⟩, hleast⟩ := exists_least? (fun v w => v.1.serial < w.1.serial) hsome
  obtain ⟨hv, hvleaving⟩ := List.mem_filter.mp (mem_of_least? hleast)
  refine ⟨index, v, ?_, mem_voices.mp hv, hvleaving, fun w hw hwleaving => ?_⟩
  · rw [slotFor?_of_full hfull, hleast]
    rfl
  · obtain ⟨j, hj⟩ := exists_voices_of_mem hw
    have horders := orders_lt (fun v : Voice σ π × ℕ => v.1.serial)
      (p.voices.filter fun v => v.1.isLeaving)
    exact not_lt.mp (of_decide_eq_false (not_before_least horders hleast (w, j)
      (List.mem_filter.mpr ⟨hj, hwleaving⟩)))

omit [Scalar π] in
theorem slotFor?_of_held {p : VoicePool σ π} (hslots : 0 < p.capacity) (hfull : none ∉ p.slots)
    (h : ∀ v ∈ p.sounding, v.isLeaving = false) :
    ∃ index v, p.slotFor? = some index ∧ p.slots[index]? = some (some v) ∧
      (p.LevelsCompare → ∀ w ∈ p.sounding, quieter w v = false) := by
  have hnone : p.voices.filter (fun v => v.1.isLeaving) = [] := by
    refine List.filter_eq_nil_iff.mpr ?_
    rintro ⟨v, index⟩ hv
    simp [h v (mem_sounding_of_getElem? (mem_voices.mp hv))]
  have hvoices : p.voices ≠ [] := by
    cases hslot : p.slots[0] with
    | none => exact absurd (hslot ▸ List.getElem_mem hslots) hfull
    | some v =>
        refine List.ne_nil_of_mem (a := (v, 0)) (mem_voices.mpr ?_)
        rw [List.getElem?_eq_getElem hslots, hslot]
  obtain ⟨⟨v, index⟩, hleast⟩ := exists_least? (fun v w => quieter v.1 w.1) hvoices
  refine ⟨index, v, ?_, mem_voices.mp (mem_of_least? hleast), fun hlevels w hw => ?_⟩
  · rw [slotFor?_of_full hfull, hnone, hleast]
    rfl
  · obtain ⟨j, hj⟩ := exists_voices_of_mem hw
    have horders : Orders quieter (p.voices.map Prod.fst) :=
      p.voices_map_fst.symm ▸ hlevels.orders_quieter
    exact not_before_least horders.comap hleast (w, j) hj

omit [Scalar σ] [Scalar π] in
theorem Numbered.serial_lt {p : VoicePool σ π} (h : p.Numbered) {v w : Voice σ π}
    (hv : v ∈ p.sounding) (hw : w ∈ p.sounding) (hne : w ≠ v) (hle : v.serial ≤ w.serial) :
    v.serial < w.serial :=
  lt_of_le_of_ne hle fun heq => hne (List.inj_on_of_nodup_map h.nodup hv hw heq).symm

/-- What was in the slot that a new voice gets: nothing if a slot is free, and
otherwise the voice that has to make room. -/
structure MakesRoom (p : VoicePool σ π) (old : Option (Voice σ π)) : Prop where
  free : none ∈ p.slots → old = none
  /-- Of the voices on their way out the one that started first. -/
  leaving : none ∉ p.slots → (∃ u ∈ p.sounding, u.isLeaving = true) →
    ∃ w, old = some w ∧ w.isLeaving = true ∧
      ∀ u ∈ p.sounding, u.isLeaving = true → u ≠ w → w.serial < u.serial
  /-- Else the quietest, and of equally quiet ones the one that started first. -/
  quietest : none ∉ p.slots → (∀ u ∈ p.sounding, u.isLeaving = false) →
    ∃ w, old = some w ∧ (p.LevelsCompare → ∀ u ∈ p.sounding, u ≠ w →
      Scalar.lt u.envelope.level w.envelope.level = false ∧
        (Scalar.lt w.envelope.level u.envelope.level = true ∨ w.serial < u.serial))
  /-- A voice that is held makes room only where no other slot can be had. -/
  held : ∀ w, old = some w → w.isLeaving = false →
    none ∉ p.slots ∧ ∀ u ∈ p.sounding, u.isLeaving = false

omit [Scalar π] in
theorem makesRoom_of_free {p : VoicePool σ π} (hfree : none ∈ p.slots) : p.MakesRoom none where
  free _ := rfl
  leaving hfull := absurd hfree hfull
  quietest hfull := absurd hfree hfull
  held _ hw := nomatch hw

omit [Scalar π] in
theorem makesRoom_of_leaving {p : VoicePool σ π} (h : p.Numbered) (hfull : none ∉ p.slots)
    {v : Voice σ π} (hv : v ∈ p.sounding) (hleaving : v.isLeaving = true)
    (hfirst : ∀ u ∈ p.sounding, u.isLeaving = true → v.serial ≤ u.serial) :
    p.MakesRoom (some v) where
  free hfree := absurd hfree hfull
  leaving _ _ := ⟨v, rfl, hleaving, fun u hu hleaves hne =>
    h.serial_lt hv hu hne (hfirst u hu hleaves)⟩
  quietest _ hnone := absurd (hleaving.symm.trans (hnone v hv)) (by decide)
  held := by
    rintro w ⟨⟩ hheld
    exact absurd (hleaving.symm.trans hheld) (by decide)

omit [Scalar π] in
theorem makesRoom_of_held {p : VoicePool σ π} (h : p.Numbered) (hfull : none ∉ p.slots)
    (hheld : ∀ u ∈ p.sounding, u.isLeaving = false) {v : Voice σ π} (hv : v ∈ p.sounding)
    (hquiet : p.LevelsCompare → ∀ u ∈ p.sounding, quieter u v = false) :
    p.MakesRoom (some v) where
  free hfree := absurd hfree hfull
  leaving := by
    rintro - ⟨u, hu, hleaving⟩
    exact absurd (hleaving.symm.trans (hheld u hu)) (by decide)
  quietest _ _ := by
    refine ⟨v, rfl, fun hlevels u hu hne => ?_⟩
    obtain ⟨hlouder, htie⟩ := Bool.or_eq_false_iff.mp (hquiet hlevels u hu)
    refine ⟨hlouder, ?_⟩
    cases hlt : Scalar.lt v.envelope.level u.envelope.level with
    | true => exact Or.inl rfl
    | false =>
        rw [hlt, Bool.not_false, Bool.true_and] at htie
        exact Or.inr (h.serial_lt hv hu hne (not_lt.mp (of_decide_eq_false htie)))
  held _ _ _ := ⟨hfull, hheld⟩

omit [Scalar π] in
/-- There is a slot for every new voice, if there are slots at all. -/
theorem exists_slotFor? {p : VoicePool σ π} (hslots : 0 < p.capacity) (h : p.Numbered) :
    ∃ index old, p.slotFor? = some index ∧ p.slots[index]? = some old ∧ p.MakesRoom old := by
  by_cases hfree : none ∈ p.slots
  · obtain ⟨index, hslot, hplace⟩ := slotFor?_of_free hfree
    exact ⟨index, none, hslot, hplace, makesRoom_of_free hfree⟩
  by_cases hleaving : ∃ u ∈ p.sounding, u.isLeaving = true
  · obtain ⟨index, v, hslot, hplace, hv, hfirst⟩ := slotFor?_of_leaving hfree hleaving
    exact ⟨index, some v, hslot, hplace,
      makesRoom_of_leaving h hfree (mem_sounding_of_getElem? hplace) hv hfirst⟩
  · have hheld : ∀ u ∈ p.sounding, u.isLeaving = false := fun u hu =>
      Bool.eq_false_iff.mpr fun hleaves => hleaving ⟨u, hu, hleaves⟩
    obtain ⟨index, v, hslot, hplace, hquiet⟩ := slotFor?_of_held hslots hfree hheld
    exact ⟨index, some v, hslot, hplace,
      makesRoom_of_held h hfree hheld (mem_sounding_of_getElem? hplace) hquiet⟩

/-! ## What a start does -/

/-- A start that puts its voice into the slot where `old` was, and gives its sound back. -/
structure StartsAt (p : VoicePool σ π) (v : VoiceStart σ π) (index : ℕ)
    (old : Option (Voice σ π)) : Prop where
  slot : (p.start v).slot = some index
  place : p.slots[index]? = some old
  entered : (p.start v).pool.slots[index]? = some (some (p.voiceOf v))
  changed : ∀ j, (p.start v).pool.slots[j]? ≠ p.slots[j]? ↔ j = index
  released : (p.start v).released = old.toList.map fun w => w.sound

theorem startsAt_of_slotFor? {p : VoicePool σ π} (h : p.Numbered) (v : VoiceStart σ π)
    {index : ℕ} {old : Option (Voice σ π)} (hslot : p.slotFor? = some index)
    (hplace : p.slots[index]? = some old) : p.StartsAt v index old := by
  have hlt : index < p.slots.length := slotFor?_lt hslot
  have hstart : p.start v = ⟨{ p with
      slots := p.slots.set index (some (p.voiceOf v))
      nextSerial := p.nextSerial + 1 }, some index, old.toList.map fun w => w.sound⟩ := by
    rw [start, hslot]
    simp [hplace, voiceOf, Option.toList_map]
  refine ⟨by rw [hstart], hplace, ?_, fun j => ?_, by rw [hstart]⟩
  · rw [hstart]
    exact List.getElem?_set_self hlt
  rw [hstart]
  dsimp only
  constructor
  · intro hchanged
    by_contra hne
    exact hchanged (List.getElem?_set_ne (Ne.symm hne))
  · rintro rfl
    rw [List.getElem?_set_self hlt, hplace]
    -- The number of the new voice is one that no voice in the pool has.
    rintro ⟨⟩
    exact (h.lt _ (mem_sounding_of_getElem? hplace)).ne rfl

end start

/-! ## Pools that arise -/

section run

variable [Scalar σ] [Scalar π] [Precision σ π]

theorem capacity_perform (p : VoicePool σ π) (call : Call σ π) :
    (p.perform call).capacity = p.capacity := by
  cases call with
  | start v =>
      obtain ⟨-, h⟩ | ⟨front, old, back, index, hslots, -, h⟩ := p.start_cases v
      · rw [perform, h]
      · simp [perform, h, capacity, hslots]
  | render layer rate block =>
      rw [perform, renderLayer_fst]
      exact List.length_map _
  | release layer key channel => exact List.length_map _
  | releaseAll layer => exact List.length_map _
  | killAll layer => exact List.length_map _
  | endBlock => exact List.length_map _
  | setEnvelope attackFrames releaseFrames => rfl

theorem capacity_run (p : VoicePool σ π) (calls : List (Call σ π)) :
    (p.run calls).capacity = p.capacity := by
  induction calls generalizing p with
  | nil => rfl
  | cons call rest ih => exact (ih _).trans (p.capacity_perform call)

omit [Scalar σ] [Scalar π] [Precision σ π] in
theorem activeCount_le_capacity (p : VoicePool σ π) : p.activeCount ≤ p.capacity := by
  rw [activeCount, ← List.length_map (f := Prod.fst), voices_map_fst]
  exact List.length_filterMap_le id p.slots

omit [Scalar σ] [Scalar π] [Precision σ π] in
theorem not_finished_of_endBlock {p : VoicePool σ π} {v : Voice σ π}
    (h : v ∈ p.endBlock.1.sounding) : v.isFinished = false := by
  rw [endBlock, sounding_free] at h
  simpa using (List.mem_filter.mp h).2

/-- Along every run the voices of a pool are numbered in the order in which they
start and fit into its slots, the end of a block leaves none that has finished,
and a start in a pool that has slots at all succeeds: it changes one slot, a
free one or the one of the voice that is to make room. -/
theorem run_start_makes_room (capacity attackFrames releaseFrames : ℕ)
    (calls : List (Call σ π)) :
    let new := empty capacity attackFrames releaseFrames
    let p := new.run calls
    p.Numbered ∧
      (along entrants new calls).map (fun v => v.serial) = List.range p.nextSerial ∧
      p.capacity = capacity ∧ p.activeCount ≤ capacity ∧
      (∀ v ∈ p.endBlock.1.sounding, v.isFinished = false) ∧
      (0 < capacity → ∀ v, ∃ index old, p.StartsAt v index old ∧ p.MakesRoom old) := by
  intro new p
  have hnumbered : p.Numbered := (numbered_empty capacity attackFrames releaseFrames).run calls
  have hcapacity : p.capacity = capacity :=
    (new.capacity_run calls).trans List.length_replicate
  refine ⟨hnumbered, ?_, hcapacity, hcapacity ▸ p.activeCount_le_capacity,
    fun v => not_finished_of_endBlock, fun hslots v => ?_⟩
  · rw [(serials_along new calls).2, List.range_eq_range']
    rfl
  · obtain ⟨index, old, hslot, hplace, hroom⟩ :=
      exists_slotFor? (hcapacity.symm ▸ hslots) hnumbered
    exact ⟨index, old, startsAt_of_slotFor? hnumbered v hslot hplace, hroom⟩

end run

end VoicePool

end Multisample
