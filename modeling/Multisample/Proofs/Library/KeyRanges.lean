import Mathlib.Data.List.Pairwise
import Mathlib.Data.List.Permutation
import Mathlib.Order.Basic
import Multisample.Library.KeyMap

/-!
# Who gets which keys

The keys are handed out group by group, and within a group from the lowest root
key to the highest, each member going on where the one before stopped.  So a
group always covers the keyboard.  It covers it once unless members crowd at the
top, where the last ones all get the highest key.
-/

namespace Multisample

/-- A region with other keys. -/
def Region.withKeys (r : Region) (keys : ValueRange) : Region :=
  { r with trigger := { r.trigger with keys } }

theorem ValueRange.overlaps_comm (r s : ValueRange) : r.overlaps s = s.overlaps r :=
  Bool.and_comm ..

theorem ValueRange.overlaps_eq_false_iff {r s : ValueRange} :
    r.overlaps s = false ↔ s.stop ≤ r.start ∨ r.stop ≤ s.start := by
  simp only [overlaps, Bool.and_eq_false_iff, decide_eq_false_iff_not, Nat.not_lt]

/-- Ranges that hold something overlap where they share a value. -/
theorem ValueRange.overlaps_iff {r s : ValueRange} (hr : r.start < r.stop) (hs : s.start < s.stop) :
    r.overlaps s = true ↔ ∃ value, r.contains value = true ∧ s.contains value = true := by
  simp only [overlaps, Bool.and_eq_true, decide_eq_true_eq, contains_iff]
  constructor
  · intro h
    exact ⟨max r.start s.start, by omega, by omega⟩
  · rintro ⟨value, hvalue⟩
    omega

namespace KeyMap

/-! ## Members of a group -/

theorem group?_eq_none_iff {r : Region} :
    group? r = none ↔ r.options.autoMapGroup = none ∨ r.options.autoMapGroup = some "" := by
  cases hg : r.options.autoMapGroup <;> simp [group?, hg, Option.filter]

theorem group?_eq_some_iff {r : Region} {g : String} :
    group? r = some g ↔ r.options.autoMapGroup = some g ∧ g ≠ "" := by
  rw [group?, Option.filter_eq_some_iff, decide_eq_true_eq]

theorem mem_members {regions : List Region} {g : String} {m : Member} :
    m ∈ members regions g ↔
      ∃ r, regions[m.index]? = some r ∧ group? r = some g ∧ r.file.rootKey = m.root := by
  simp only [members, List.mem_filterMap, Prod.exists, List.mem_zipIdx_iff_getElem?]
  constructor
  · rintro ⟨r, index, hr, hm⟩
    split at hm
    · rename_i hg
      obtain rfl := Option.some.inj hm
      exact ⟨r, hr, hg, rfl⟩
    · exact absurd hm (by simp)
  · rintro ⟨r, hr, hg, hroot⟩
    exact ⟨r, m.index, hr, by rw [if_pos hg, hroot]⟩

theorem members_increasing (regions : List Region) (g : String) :
    (members regions g).Pairwise fun m n => m.index < n.index := by
  rw [members, List.pairwise_filterMap]
  have hplaces : (regions.zipIdx.map Prod.snd).Pairwise (· < ·) := by
    rw [List.zipIdx_map_snd]
    exact List.pairwise_lt_range'
  refine (List.pairwise_map.mp hplaces).imp ?_
  rintro ⟨r, k⟩ ⟨s, l⟩ hlt m hm n hn
  dsimp only at hm hn
  split at hm <;> split at hn <;> simp_all
  subst hm hn
  exact hlt

theorem members_ext {regions others : List Region} {g : String}
    (h : ∀ m, m ∈ members regions g ↔ m ∈ members others g) :
    members regions g = members others g := by
  have hnodup : ∀ rs : List Region, (members rs g).Nodup := fun rs =>
    (members_increasing rs g).imp fun hlt heq => absurd (congrArg Member.index heq) hlt.ne
  refine ((List.perm_ext_iff_of_nodup (hnodup _) (hnodup _)).mpr h).eq_of_pairwise ?_
    (members_increasing regions g) (members_increasing others g)
  intro m n _ _ hmn hnm
  exact absurd hmn hnm.asymm

/-- Members that stand in the same places are listed alike, whatever stands elsewhere. -/
theorem members_congr {regions others : List Region} {g : String}
    (h : ∀ (index : ℕ) r, group? r = some g →
      (regions[index]? = some r ↔ others[index]? = some r)) :
    members regions g = members others g := by
  refine members_ext fun m => ?_
  rw [mem_members, mem_members]
  refine exists_congr fun r => ?_
  constructor
  · rintro ⟨hr, hg, hroot⟩
    exact ⟨(h _ r hg).mp hr, hg, hroot⟩
  · rintro ⟨hr, hg, hroot⟩
    exact ⟨(h _ r hg).mpr hr, hg, hroot⟩

theorem mem_groups {regions : List Region} {g : String} :
    g ∈ groups regions ↔ members regions g ≠ [] := by
  rw [groups, List.mem_eraseDups, List.mem_filterMap]
  constructor
  · rintro ⟨r, hr, hg⟩
    obtain ⟨index, hindex⟩ := List.getElem?_of_mem hr
    exact List.ne_nil_of_mem (mem_members (m := ⟨index, r.file.rootKey⟩).mpr ⟨r, hindex, hg, rfl⟩)
  · intro h
    obtain ⟨m, hm⟩ := List.exists_mem_of_ne_nil _ h
    obtain ⟨r, hr, hg, -⟩ := mem_members.mp hm
    exact ⟨r, List.mem_of_getElem? hr, hg⟩

theorem ordered_perm (ms : List Member) : (ordered ms).Perm ms :=
  List.mergeSort_perm ms _

theorem ordered_sorted (ms : List Member) : (ordered ms).Pairwise fun m n => m.root ≤ n.root := by
  have htrans : ∀ a b c : Member, decide (a.root ≤ b.root) = true →
      decide (b.root ≤ c.root) = true → decide (a.root ≤ c.root) = true := fun _ _ _ hab hbc =>
    decide_eq_true (Nat.le_trans (of_decide_eq_true hab) (of_decide_eq_true hbc))
  have htotal : ∀ a b : Member, (decide (a.root ≤ b.root) || decide (b.root ≤ a.root)) = true := by
    intro a b
    simpa using Nat.le_total a.root b.root
  exact (List.pairwise_mergeSort htrans htotal ms).imp of_decide_eq_true

/-! ## Handing out keys -/

/-- Where the keys of the first member stop, when these members come after it. -/
def stopOf (start : ℕ) (m : Member) : List Member → ℕ
  | [] => max keyCount (start + 1)
  | next :: _ => max (min (boundary m.root next.root) keyCount) (start + 1)

theorem tile_cons (start : ℕ) (m : Member) (rest : List Member) :
    tile start (m :: rest) = (m.index, ⟨start, stopOf start m rest⟩) ::
      tile (min (stopOf start m rest) (keyCount - 1)) rest := by
  cases rest <;> rfl

theorem lt_stopOf (start : ℕ) (m : Member) (rest : List Member) : start < stopOf start m rest := by
  cases rest with
  | nil => exact Nat.lt_of_lt_of_le (Nat.lt_succ_self _) (Nat.le_max_right _ _)
  | cons next rest => exact Nat.lt_of_lt_of_le (Nat.lt_succ_self _) (Nat.le_max_right _ _)

theorem stopOf_le {start : ℕ} (h : start < keyCount) (m : Member) (rest : List Member) :
    stopOf start m rest ≤ keyCount := by
  cases rest with
  | nil => exact Nat.max_le.mpr ⟨le_rfl, h⟩
  | cons next rest => exact Nat.max_le.mpr ⟨Nat.min_le_right _ _, h⟩

theorem tile_indices (start : ℕ) (ms : List Member) :
    (tile start ms).map Prod.fst = ms.map Member.index := by
  induction ms generalizing start with
  | nil => rfl
  | cons m rest ih => rw [tile_cons, List.map_cons, List.map_cons, ih]

/-- Every member gets keys, none of them below the start. -/
theorem mem_tile_bounds {start : ℕ} (hstart : start < keyCount) {ms : List Member}
    {entry : ℕ × ValueRange} (h : entry ∈ tile start ms) :
    start ≤ entry.2.start ∧ entry.2.start < entry.2.stop ∧ entry.2.stop ≤ keyCount := by
  induction ms generalizing start with
  | nil => exact absurd h List.not_mem_nil
  | cons m rest ih =>
      have hlt := lt_stopOf start m rest
      rw [tile_cons] at h
      rcases List.mem_cons.mp h with rfl | h
      · exact ⟨le_rfl, hlt, stopOf_le hstart m rest⟩
      · have hnext : min (stopOf start m rest) (keyCount - 1) < keyCount := by
          simp only [keyCount]
          omega
        obtain ⟨hle, hkeys⟩ := ih hnext h
        exact ⟨by simp only [keyCount] at *; omega, hkeys⟩

/-- From the start on, every key goes to some member. -/
theorem tile_covers {start : ℕ} {ms : List Member} (hms : ms ≠ []) {key : ℕ} (hle : start ≤ key)
    (hlt : key < keyCount) : ∃ entry ∈ tile start ms, entry.2.contains key = true := by
  induction ms generalizing start with
  | nil => exact absurd rfl hms
  | cons m rest ih =>
      rw [tile_cons]
      by_cases hkey : key < stopOf start m rest
      · exact ⟨_, List.mem_cons_self, ValueRange.contains_iff.mpr ⟨hle, hkey⟩⟩
      · have hrest : rest ≠ [] := by
          rintro rfl
          exact hkey (Nat.lt_of_lt_of_le hlt (Nat.le_max_left _ _))
        obtain ⟨entry, hentry, hkeys⟩ := ih hrest
          (Nat.le_trans (Nat.min_le_left _ _) (Nat.le_of_not_lt hkey))
        exact ⟨entry, List.mem_cons_of_mem _ hentry, hkeys⟩

/-! ## Room at the top -/

/-- Above each boundary there is a key for every member that is still to come. -/
def Room : List Member → Prop
  | m :: next :: rest =>
    boundary m.root next.root + (next :: rest).length ≤ keyCount ∧ Room (next :: rest)
  | _ => True

/-- No key is handed out twice exactly if there is room. -/
theorem tile_apart_iff {start : ℕ} (hstart : start < keyCount) (ms : List Member) :
    ((tile start ms).Pairwise fun a b => a.2.overlaps b.2 = false) ↔
      start + ms.length ≤ keyCount ∧ Room ms := by
  induction ms generalizing start with
  | nil => simp [tile, Room, hstart.le]
  | cons m rest ih =>
      cases rest with
      | nil => simpa [tile, Room] using Nat.succ_le_of_lt hstart
      | cons next rest =>
          have hlt := lt_stopOf start m (next :: rest)
          have hle := stopOf_le hstart m (next :: rest)
          have hstop : stopOf start m (next :: rest) =
            max (min (boundary m.root next.root) keyCount) (start + 1) := rfl
          rw [tile_cons, List.pairwise_cons, Room, List.length_cons]
          rcases Nat.lt_or_eq_of_le hle with hroom | hfull
          -- The keys go on where they stopped, above those of the first member.
          · have hnext : min (stopOf start m (next :: rest)) (keyCount - 1) =
                stopOf start m (next :: rest) := Nat.min_eq_left (Nat.le_sub_one_of_lt hroom)
            have habove : ∀ entry ∈ tile (stopOf start m (next :: rest)) (next :: rest),
                (⟨start, stopOf start m (next :: rest)⟩ : ValueRange).overlaps entry.2 = false := by
              intro entry hentry
              exact ValueRange.overlaps_eq_false_iff.mpr (Or.inr (mem_tile_bounds hroom hentry).1)
            rw [hnext, and_iff_right habove, ih hroom, ← and_assoc]
            refine and_congr_left' ?_
            omega
          -- The keys are used up, so that the next member gets the highest key again.
          · have hnext : min (stopOf start m (next :: rest)) (keyCount - 1) = keyCount - 1 := by
              rw [hfull]
              exact Nat.min_eq_right (Nat.sub_le _ _)
            have hagain :
                (next.index, (⟨keyCount - 1, stopOf (keyCount - 1) next rest⟩ : ValueRange)) ∈
                  tile (keyCount - 1) (next :: rest) := by
              rw [tile_cons]
              exact List.mem_cons_self
            have hkey := lt_stopOf (keyCount - 1) next rest
            rw [hnext]
            constructor
            · rintro ⟨hapart, -⟩
              have hfalse := ValueRange.overlaps_eq_false_iff.mp (hapart _ hagain)
              simp only [hfull, keyCount] at hfalse hkey hstart
              omega
            · rintro ⟨hlength, hboundary, -⟩
              rw [hstop] at hfull
              simp only [List.length_cons, keyCount] at hlength hboundary hfull
              omega

/-! ## Mapped instruments -/

/-- The keys that the members of a group get. -/
def share (regions : List Region) (g : String) : List (ℕ × ValueRange) :=
  tile 0 (ordered (members regions g))

theorem share_indices (regions : List Region) (g : String) :
    ((share regions g).map Prod.fst).Perm ((members regions g).map Member.index) := by
  rw [share, tile_indices]
  exact (ordered_perm _).map _

theorem mem_share_iff {regions : List Region} {g : String} {index : ℕ} :
    (∃ keys, (index, keys) ∈ share regions g) ↔
      ∃ r, regions[index]? = some r ∧ group? r = some g := by
  have hfst : (∃ keys, (index, keys) ∈ share regions g) ↔
      index ∈ (share regions g).map Prod.fst := by
    simp [List.mem_map]
  rw [hfst, (share_indices regions g).mem_iff, List.mem_map]
  constructor
  · rintro ⟨m, hm, rfl⟩
    obtain ⟨r, hr, hg, -⟩ := mem_members.mp hm
    exact ⟨r, hr, hg⟩
  · rintro ⟨r, hr, hg⟩
    exact ⟨⟨index, r.file.rootKey⟩, mem_members.mpr ⟨r, hr, hg, rfl⟩, rfl⟩

theorem share_nodup (regions : List Region) (g : String) :
    ((share regions g).map Prod.fst).Nodup := by
  refine (share_indices regions g).nodup_iff.mpr ?_
  exact List.pairwise_map.mpr ((members_increasing regions g).imp Nat.ne_of_lt)

theorem eq_of_mem_share {regions : List Region} {g : String} {a b : ℕ × ValueRange}
    (ha : a ∈ share regions g) (hb : b ∈ share regions g) (h : a.1 = b.1) : a = b :=
  List.inj_on_of_nodup_map (share_nodup regions g) ha hb h

theorem mem_share_bounds {regions : List Region} {g : String} {entry : ℕ × ValueRange}
    (h : entry ∈ share regions g) :
    entry.2.start < entry.2.stop ∧ entry.2.stop ≤ keyCount :=
  (mem_tile_bounds (Nat.succ_pos _) h).2

theorem getElem?_assign (regions : List Region) (place index : ℕ) (keys : ValueRange) :
    (assign regions place keys)[index]? =
      regions[index]?.map fun r => if place = index then r.withKeys keys else r :=
  List.getElem?_modify _ place regions index

/-- A region that is given keys has them in the end. -/
theorem getElem?_foldl_assign {row : List (ℕ × ValueRange)} {index : ℕ} {keys : ValueRange}
    (h : ∀ other, (index, other) ∈ row → other = keys) (regions : List Region) :
    (row.foldl (fun rs (place, keys) => assign rs place keys) regions)[index]? =
      regions[index]?.map fun r => if index ∈ row.map Prod.fst then r.withKeys keys else r := by
  induction row generalizing regions with
  | nil => simp
  | cons entry row ih =>
      obtain ⟨place, other⟩ := entry
      rw [List.foldl_cons, ih fun o ho => h o (List.mem_cons_of_mem _ ho), getElem?_assign,
        Option.map_map]
      congr 1
      funext r
      by_cases hplace : place = index
      · subst hplace
        obtain rfl := h other List.mem_cons_self
        simp [Region.withKeys]
      · have hmem : index ∈ ((place, other) :: row).map Prod.fst ↔ index ∈ row.map Prod.fst :=
          List.mem_cons.trans (or_iff_right (Ne.symm hplace))
        simp only [Function.comp_apply, if_neg hplace, hmem]

theorem mem_assignments {regions : List Region} {entry : ℕ × ValueRange} :
    entry ∈ assignments regions ↔ ∃ g ∈ groups regions, entry ∈ share regions g :=
  List.mem_flatMap

/-- A region gets keys from its own group only. -/
theorem mem_assignments_of_group {regions : List Region} {index : ℕ} {r : Region} {g : String}
    (hr : regions[index]? = some r) (hg : group? r = some g) (keys : ValueRange) :
    (index, keys) ∈ assignments regions ↔ (index, keys) ∈ share regions g := by
  rw [mem_assignments]
  constructor
  · rintro ⟨other, -, hkeys⟩
    obtain ⟨s, hs, hother⟩ := mem_share_iff.mp ⟨keys, hkeys⟩
    obtain rfl : r = s := Option.some.inj (hr.symm.trans hs)
    obtain rfl : g = other := Option.some.inj (hg.symm.trans hother)
    exact hkeys
  · intro hkeys
    have hmem : (⟨index, r.file.rootKey⟩ : Member) ∈ members regions g :=
      mem_members.mpr ⟨r, hr, hg, rfl⟩
    exact ⟨g, mem_groups.mpr (List.ne_nil_of_mem hmem), hkeys⟩

theorem getElem?_apply_of_group {i : Instrument} {index : ℕ} {r : Region} {g : String}
    {keys : ValueRange} (hr : i.regions[index]? = some r) (hg : group? r = some g)
    (hkeys : (index, keys) ∈ share i.regions g) :
    (apply i).regions[index]? = some (r.withKeys keys) := by
  have hassigned := (mem_assignments_of_group hr hg keys).mpr hkeys
  have honly : ∀ other, (index, other) ∈ assignments i.regions → other = keys := by
    intro other hother
    have hshare := (mem_assignments_of_group hr hg other).mp hother
    exact congrArg Prod.snd (eq_of_mem_share hshare hkeys rfl)
  rw [apply, getElem?_foldl_assign honly, hr, Option.map_some,
    if_pos (List.mem_map_of_mem (f := Prod.fst) hassigned)]

theorem getElem?_apply_of_unassigned {i : Instrument} {index : ℕ}
    (h : ∀ r, i.regions[index]? = some r → group? r = none) :
    (apply i).regions[index]? = i.regions[index]? := by
  have hnone : ∀ keys, (index, keys) ∉ assignments i.regions := by
    intro keys hkeys
    obtain ⟨g, -, hshare⟩ := mem_assignments.mp hkeys
    obtain ⟨r, hr, hgroup⟩ := mem_share_iff.mp ⟨keys, hshare⟩
    exact absurd ((h r hr).symm.trans hgroup) (by simp)
  have hindex : index ∉ (assignments i.regions).map Prod.fst := by
    intro hmem
    obtain ⟨⟨_, keys⟩, hkeys, rfl⟩ := List.mem_map.mp hmem
    exact hnone keys hkeys
  have hvacuous : ∀ other, (index, other) ∈ assignments i.regions → other = default :=
    fun other hother => absurd hother (hnone other)
  rw [apply, getElem?_foldl_assign hvacuous]
  simp [hindex]

/-- A region keeps all but its keys. -/
theorem exists_getElem?_apply (i : Instrument) (index : ℕ) :
    ∃ keys, (apply i).regions[index]? = i.regions[index]?.map fun r => r.withKeys keys := by
  cases hr : i.regions[index]? with
  | none =>
      refine ⟨default, (getElem?_apply_of_unassigned fun r h => ?_).trans hr⟩
      exact absurd (hr.symm.trans h) (by simp)
  | some r =>
      cases hg : group? r with
      | none =>
          refine ⟨r.trigger.keys, (getElem?_apply_of_unassigned fun s hs => ?_).trans hr⟩
          exact Option.some.inj (hr.symm.trans hs) ▸ hg
      | some g =>
          obtain ⟨keys, hkeys⟩ := mem_share_iff.mpr ⟨r, hr, hg⟩
          exact ⟨keys, getElem?_apply_of_group hr hg hkeys⟩

/-- What does not depend on keys is the same for all regions as before. -/
theorem map_apply {α : Type} {f : Region → α} (hf : ∀ r keys, f (r.withKeys keys) = f r)
    (i : Instrument) : (apply i).regions.map f = i.regions.map f := by
  refine List.ext_getElem? fun index => ?_
  obtain ⟨keys, hkeys⟩ := exists_getElem?_apply i index
  rw [List.getElem?_map, List.getElem?_map, hkeys, Option.map_map]
  exact congrArg (Option.map · _) (funext fun r => hf r keys)

theorem mem_share_of_getElem?_apply {i : Instrument} {g : String} {index : ℕ} {s : Region}
    (hs : (apply i).regions[index]? = some s) (hg : group? s = some g) :
    (index, s.trigger.keys) ∈ share i.regions g := by
  obtain ⟨keys, hkeys⟩ := exists_getElem?_apply i index
  rw [hs] at hkeys
  obtain ⟨r, hr, rfl⟩ := Option.map_eq_some_iff.mp hkeys.symm
  obtain ⟨own, hown⟩ := mem_share_iff.mpr ⟨r, hr, hg⟩
  have heq := Option.some.inj (hs.symm.trans (getElem?_apply_of_group hr hg hown))
  exact (congrArg (fun r => r.trigger.keys) heq : keys = own) ▸ hown

/-- The region at a place belongs to a group and has a key. -/
def PlaysKey (regions : List Region) (g : String) (key index : ℕ) : Prop :=
  ∃ r, regions[index]? = some r ∧ group? r = some g ∧ r.trigger.keys.contains key = true

theorem playsKey_apply_iff {i : Instrument} {g : String} {key index : ℕ} :
    PlaysKey (apply i).regions g key index ↔
      ∃ keys, (index, keys) ∈ share i.regions g ∧ keys.contains key = true := by
  constructor
  · rintro ⟨s, hs, hg, hkey⟩
    exact ⟨s.trigger.keys, mem_share_of_getElem?_apply hs hg, hkey⟩
  · rintro ⟨keys, hkeys, hkey⟩
    obtain ⟨r, hr, hg⟩ := mem_share_iff.mp ⟨keys, hkeys⟩
    exact ⟨r.withKeys keys, getElem?_apply_of_group hr hg hkeys, hg, hkey⟩

theorem exists_playsKey {i : Instrument} {g : String} (hg : g ∈ groups i.regions) {key : ℕ}
    (hkey : key < keyCount) : ∃ index, PlaysKey (apply i).regions g key index := by
  have hordered : ordered (members i.regions g) ≠ [] := by
    intro h
    have hperm := ordered_perm (members i.regions g)
    rw [h] at hperm
    exact mem_groups.mp hg hperm.nil_eq.symm
  obtain ⟨⟨index, keys⟩, hentry, hcontains⟩ := tile_covers hordered (Nat.zero_le key) hkey
  exact ⟨index, playsKey_apply_iff.mpr ⟨keys, hentry, hcontains⟩⟩

/-- A mapped group covers the keyboard, each member with some of the keys.  Every
key goes to one member only exactly if there are no more members than keys and,
from the lowest root to the highest, the boundary above each member leaves a key
for every member that comes after it. -/
theorem each_key_once_iff {i : Instrument} {g : String} (hg : g ∈ groups i.regions) :
    (∀ r ∈ (apply i).regions, group? r = some g →
        r.trigger.keys.start < r.trigger.keys.stop ∧ r.trigger.keys.stop ≤ keyCount) ∧
      (∀ key < keyCount, ∃ index, PlaysKey (apply i).regions g key index) ∧
      ((∀ key < keyCount, ∃! index, PlaysKey (apply i).regions g key index) ↔
        (members i.regions g).length ≤ keyCount ∧ Room (ordered (members i.regions g))) := by
  refine ⟨fun r hr hgroup => ?_, fun key hkey => exists_playsKey hg hkey, ?_⟩
  · obtain ⟨index, hindex⟩ := List.getElem?_of_mem hr
    exact mem_share_bounds (mem_share_of_getElem?_apply hindex hgroup)
  · have hapart := tile_apart_iff (Nat.succ_pos _) (ordered (members i.regions g))
    rw [Nat.zero_add, (ordered_perm _).length_eq] at hapart
    rw [← hapart]
    constructor
    · intro honce
      refine (List.Nodup.of_map _ (share_nodup i.regions g)).pairwise_of_forall_ne ?_
      intro a ha b hb hne
      by_contra hoverlap
      obtain ⟨key, hakey, hbkey⟩ := (ValueRange.overlaps_iff (mem_share_bounds ha).1
        (mem_share_bounds hb).1).mp (Bool.not_eq_false _ ▸ hoverlap)
      have hkey : key < keyCount :=
        (ValueRange.contains_iff.mp hakey).2.trans_le (mem_share_bounds ha).2
      have hindex : a.1 = b.1 := (honce key hkey).unique
        (playsKey_apply_iff.mpr ⟨a.2, ha, hakey⟩) (playsKey_apply_iff.mpr ⟨b.2, hb, hbkey⟩)
      exact hne (eq_of_mem_share ha hb hindex)
    · intro hpairwise key hkey
      obtain ⟨index, hindex⟩ := exists_playsKey hg hkey
      refine ⟨index, hindex, fun other hother => ?_⟩
      obtain ⟨keys, hkeys, hcontains⟩ := playsKey_apply_iff.mp hindex
      obtain ⟨others, hothers, hshared⟩ := playsKey_apply_iff.mp hother
      by_contra hne
      have hsymm : Std.Symm fun a b : ℕ × ValueRange => a.2.overlaps b.2 = false :=
        ⟨fun a b hab => ValueRange.overlaps_comm a.2 b.2 ▸ hab⟩
      have hfalse := hpairwise.forall hkeys hothers fun heq => hne (congrArg Prod.fst heq).symm
      rw [Bool.eq_false_iff] at hfalse
      exact hfalse ((ValueRange.overlaps_iff (mem_share_bounds hkeys).1
        (mem_share_bounds hothers).1).mpr ⟨key, hcontains, hshared⟩)

/-- Regions of one group, each with a root key. -/
def grouped (group : String) (rootKeys : List ℕ) : List Region :=
  rootKeys.map fun rootKey => { file := { rootKey }, options := { autoMapGroup := some group } }

/-- Eight members, two of them with the highest key as root, have room. -/
theorem each_key_once_iff_octet :
    let i : Instrument := { regions := grouped "octet" [0, 1, 2, 36, 37, 90, 127, 127] }
    "octet" ∈ groups i.regions ∧
      (members i.regions "octet").length ≤ keyCount ∧ Room (ordered (members i.regions "octet")) ∧
      ∀ key < keyCount, ∃! index, PlaysKey (apply i).regions "octet" key index := by
  intro i
  have hg : "octet" ∈ groups i.regions := by decide
  have hordered : ordered (members i.regions "octet") = [⟨0, 0⟩, ⟨1, 1⟩, ⟨2, 2⟩, ⟨3, 36⟩, ⟨4, 37⟩,
      ⟨5, 90⟩, ⟨6, 127⟩, ⟨7, 127⟩] := by
    cbv
  have hroom : Room (ordered (members i.regions "octet")) := by
    rw [hordered]
    simp [Room, boundary, keyCount]
  have hlength : (members i.regions "octet").length ≤ keyCount := by decide
  exact ⟨hg, hlength, hroom, (each_key_once_iff hg).2.2.mpr ⟨hlength, hroom⟩⟩

/-- Of three members with the highest key as root the last two get that key alone. -/
theorem highest_key_twice :
    let i : Instrument := { regions := grouped "trio" [127, 127, 127] }
    (∀ r ∈ i.regions, r.file.rootKey ≤ 127) ∧ "trio" ∈ groups i.regions ∧
      (members i.regions "trio").length ≤ keyCount ∧
      ¬ ∀ key < keyCount, ∃! index, PlaysKey (apply i).regions "trio" key index := by
  intro i
  have hkeys : (apply i).regions = List.zipWith Region.withKeys i.regions
      [⟨0, 127⟩, ⟨127, 128⟩, ⟨127, 128⟩] := by
    cbv
  refine ⟨by decide, by decide, by decide, fun honce => ?_⟩
  rw [hkeys] at honce
  have hlast : (1 : ℕ) = 2 := (honce 127 (by decide)).unique
    ⟨_, rfl, by decide, by decide⟩ ⟨_, rfl, by decide, by decide⟩
  exact absurd hlast (by decide)

end KeyMap

end Multisample
