import Mathlib.Data.Nat.Dist
import Multisample.Proofs.Library.KeyRanges

/-!
# The nearest root key

Where the members of a group have distinct root keys, handing out the keys from
the lowest root to the highest comes to the same as giving each key to the
nearest root.  So it matters neither in which order the regions are declared nor
what the other regions of the instrument are.
-/

namespace Multisample

theorem ValueRange.eq_of_contains {r s : ValueRange} (hr : r.start < r.stop)
    (hs : s.start < s.stop) (h : ∀ value, r.contains value = true ↔ s.contains value = true) :
    r = s := by
  simp only [contains_iff] at h
  obtain ⟨start, stop⟩ := r
  obtain ⟨start', stop'⟩ := s
  dsimp only at *
  have hfirst := h start
  have hfirst' := h start'
  have hlast := h (stop - 1)
  have hlast' := h (stop' - 1)
  obtain rfl : start = start' := by omega
  obtain rfl : stop = stop' := by omega
  rfl

namespace KeyMap

/-! ## Nearest roots -/

/-- A key is nearer to the first root than to the second, or as near and the
first is not the higher one. -/
def Nearer (key root other : ℕ) : Prop :=
  Nat.dist key root < Nat.dist key other ∨
    Nat.dist key root = Nat.dist key other ∧ root ≤ other

instance (key root other : ℕ) : Decidable (Nearer key root other) :=
  inferInstanceAs (Decidable (_ ∨ _))

theorem Nearer.refl (key root : ℕ) : Nearer key root root :=
  Or.inr ⟨rfl, le_rfl⟩

theorem Nearer.trans {key a b c : ℕ} (hab : Nearer key a b) (hbc : Nearer key b c) :
    Nearer key a c := by
  unfold Nearer at *
  omega

theorem Nearer.antisymm {key a b : ℕ} (hab : Nearer key a b) (hba : Nearer key b a) : a = b := by
  unfold Nearer at *
  omega

theorem nearer_total (key a b : ℕ) : Nearer key a b ∨ Nearer key b a := by
  unfold Nearer
  omega

theorem nearer_self (root other : ℕ) : Nearer root root other := by
  rw [Nearer, Nat.dist, Nat.dist]
  omega

/-- Of two roots the lower one has the keys below the boundary. -/
theorem lt_boundary_iff {root next : ℕ} (h : root < next) (key : ℕ) :
    key < boundary root next ↔ Nearer key root next := by
  rw [boundary, if_neg h.ne', Nearer, Nat.dist, Nat.dist]
  omega

theorem boundary_spec {root next : ℕ} (h : root < next) :
    root < boundary root next ∧ boundary root next ≤ next := by
  rw [boundary, if_neg h.ne']
  omega

/-- A root that is nearer than the next higher one is nearer than all above. -/
theorem Nearer.above {key root next other : ℕ} (h : Nearer key root next) (hlt : root < next)
    (hle : next ≤ other) : Nearer key root other := by
  rw [Nearer, Nat.dist, Nat.dist] at *
  omega

section increasing

variable {m next : Member} {rest : List Member}

theorem root_le_of_mem (hsorted : (m :: next :: rest).Pairwise fun m n => m.root < n.root)
    {n : Member} (hn : n ∈ next :: rest) : next.root ≤ n.root := by
  rcases List.mem_cons.mp hn with rfl | hn
  · exact le_rfl
  · exact ((List.pairwise_cons.mp (List.pairwise_cons.mp hsorted).2).1 n hn).le

/-- The lowest root is the nearest one below its boundary. -/
theorem nearest_first_iff (hsorted : (m :: next :: rest).Pairwise fun m n => m.root < n.root)
    (key : ℕ) :
    (∀ n ∈ m :: next :: rest, Nearer key m.root n.root) ↔ key < boundary m.root next.root := by
  have hlt : m.root < next.root := (List.pairwise_cons.mp hsorted).1 next List.mem_cons_self
  rw [lt_boundary_iff hlt]
  constructor
  · intro h
    exact h next (List.mem_cons_of_mem _ List.mem_cons_self)
  · intro h n hn
    rcases List.mem_cons.mp hn with rfl | hn
    · exact Nearer.refl key _
    · exact h.above hlt (root_le_of_mem hsorted hn)

/-- From its boundary on, the lowest root can be left out. -/
theorem nearest_later_iff (hsorted : (m :: next :: rest).Pairwise fun m n => m.root < n.root)
    {x : Member} (hx : x ∈ next :: rest) (key : ℕ) :
    (∀ n ∈ m :: next :: rest, Nearer key x.root n.root) ↔
      boundary m.root next.root ≤ key ∧ ∀ n ∈ next :: rest, Nearer key x.root n.root := by
  have hall := (List.pairwise_cons.mp hsorted).1
  have hlt : m.root < next.root := hall next List.mem_cons_self
  rw [← Nat.not_lt, lt_boundary_iff hlt]
  constructor
  · intro h
    refine ⟨fun hfirst => ?_, fun n hn => h n (List.mem_cons_of_mem _ hn)⟩
    have hnearer : Nearer key m.root x.root := hfirst.above hlt (root_le_of_mem hsorted hx)
    exact absurd (hnearer.antisymm (h m List.mem_cons_self)) (hall x hx).ne
  · rintro ⟨hpast, h⟩ n hn
    rcases List.mem_cons.mp hn with rfl | hn
    · exact (h next List.mem_cons_self).trans ((nearer_total key _ _).resolve_left hpast)
    · exact h n hn

end increasing

/-- Handed out to members with increasing roots, each key goes to the nearest of them. -/
theorem mem_tile_nearest {start : ℕ} {ms : List Member}
    (hsorted : ms.Pairwise fun m n => m.root < n.root)
    (hroots : ∀ m ∈ ms, start ≤ m.root ∧ m.root < keyCount) {entry : ℕ × ValueRange}
    (h : entry ∈ tile start ms) :
    ∃ m ∈ ms, m.index = entry.1 ∧ ∀ key, entry.2.contains key = true ↔
      (start ≤ key ∧ key < keyCount) ∧ ∀ n ∈ ms, Nearer key m.root n.root := by
  induction ms generalizing start with
  | nil => exact absurd h List.not_mem_nil
  | cons m rest ih =>
      cases rest with
      | nil =>
          obtain rfl := List.mem_singleton.mp h
          have hstop : max keyCount (start + 1) = keyCount := by
            have := hroots m List.mem_cons_self
            omega
          refine ⟨m, List.mem_cons_self, rfl, fun key => ?_⟩
          rw [hstop, ValueRange.contains_iff]
          simp [Nearer.refl]
      | cons next rest =>
          have hown := hroots m List.mem_cons_self
          have htop := (hroots next (List.mem_cons_of_mem _ List.mem_cons_self)).2
          obtain ⟨hlt, hle⟩ := boundary_spec
            ((List.pairwise_cons.mp hsorted).1 next List.mem_cons_self)
          -- With distinct roots the boundary needs no correction.
          have hstop : stopOf start m (next :: rest) = boundary m.root next.root := by
            show max (min (boundary m.root next.root) keyCount) (start + 1) = _
            omega
          have hnext : min (boundary m.root next.root) (keyCount - 1) =
              boundary m.root next.root := by
            omega
          rw [tile_cons, hstop, hnext] at h
          rcases List.mem_cons.mp h with rfl | h
          · refine ⟨m, List.mem_cons_self, rfl, fun key => ?_⟩
            rw [ValueRange.contains_iff, nearest_first_iff hsorted]
            dsimp only
            omega
          · have hrest := (List.pairwise_cons.mp hsorted).2
            obtain ⟨x, hx, hindex, hkeys⟩ := ih hrest (fun n hn =>
              ⟨hle.trans (root_le_of_mem hsorted hn), (hroots n (List.mem_cons_of_mem _ hn)).2⟩) h
            refine ⟨x, List.mem_cons_of_mem _ hx, hindex, fun key => ?_⟩
            rw [hkeys, nearest_later_iff hsorted hx, and_left_comm, ← and_assoc, ← and_assoc]
            refine and_congr_left' ?_
            omega

/-! ## Groups with distinct roots -/

/-- The root keys of a group are those of its regions, in their order. -/
theorem members_roots (regions : List Region) (g : String) :
    (members regions g).map Member.root =
      (regions.filter fun r => group? r = some g).map fun r => r.file.rootKey := by
  have key : ∀ (rs : List Region) (k : ℕ), ((rs.zipIdx k).filterMap fun p =>
      if group? p.1 = some g then some (⟨p.2, p.1.file.rootKey⟩ : Member) else none).map
        Member.root = (rs.filter fun r => group? r = some g).map fun r => r.file.rootKey := by
    intro rs
    induction rs with
    | nil => intro k; rfl
    | cons r rs ih =>
        intro k
        by_cases hg : group? r = some g <;> simp [List.zipIdx_cons, hg, ih]
  exact key regions 0

/-- The members of a group have root keys of the keyboard, no two the same. -/
structure DistinctRoots (regions : List Region) (g : String) : Prop where
  le : ∀ m ∈ members regions g, m.root ≤ 127
  nodup : ((members regions g).map Member.root).Nodup

theorem DistinctRoots.of_perm {regions others : List Region} {g : String}
    (h : DistinctRoots regions g) (hperm : (others.filter fun r => group? r = some g).Perm
      (regions.filter fun r => group? r = some g)) : DistinctRoots others g := by
  have hroots : ((members others g).map Member.root).Perm
      ((members regions g).map Member.root) := by
    rw [members_roots, members_roots]
    exact hperm.map _
  refine ⟨fun m hm => ?_, hroots.nodup_iff.mpr h.nodup⟩
  obtain ⟨n, hn, hroot⟩ := List.mem_map.mp (hroots.mem_iff.mp (List.mem_map_of_mem hm))
  exact hroot ▸ h.le n hn

theorem DistinctRoots.increasing {regions : List Region} {g : String}
    (h : DistinctRoots regions g) :
    (ordered (members regions g)).Pairwise fun m n => m.root < n.root := by
  have hne : (ordered (members regions g)).Pairwise fun m n => m.root ≠ n.root :=
    List.pairwise_map.mp (((ordered_perm _).map Member.root).nodup_iff.mpr h.nodup)
  exact (ordered_sorted _).imp₂ (fun _ _ => lt_of_le_of_ne) hne

theorem forall_members_iff {regions : List Region} {g : String} {P : ℕ → Prop} :
    (∀ m ∈ members regions g, P m.root) ↔
      ∀ s ∈ regions, group? s = some g → P s.file.rootKey := by
  have hroots : (∀ m ∈ members regions g, P m.root) ↔
      ∀ root ∈ (members regions g).map Member.root, P root := by
    simp [List.mem_map]
  rw [hroots, members_roots]
  simp only [List.forall_mem_map, List.mem_filter, decide_eq_true_eq, and_imp]

/-- A member of a group with distinct roots has the keys that no other member is nearer to. -/
theorem DistinctRoots.nearest {i : Instrument} {g : String} (h : DistinctRoots i.regions g)
    {index : ℕ} {r : Region} {keys : ValueRange} (hr : i.regions[index]? = some r)
    (hkeys : (index, keys) ∈ share i.regions g) (key : ℕ) :
    keys.contains key = true ↔
      key < keyCount ∧ ∀ s ∈ i.regions, group? s = some g →
        Nearer key r.file.rootKey s.file.rootKey := by
  have hroots : ∀ m ∈ ordered (members i.regions g), 0 ≤ m.root ∧ m.root < keyCount := fun m hm =>
    ⟨Nat.zero_le _, Nat.lt_succ_of_le (h.le m ((ordered_perm _).mem_iff.mp hm))⟩
  obtain ⟨m, hm, hindex, hcontains⟩ := mem_tile_nearest h.increasing hroots hkeys
  obtain ⟨s, hs, -, hroot⟩ := mem_members.mp ((ordered_perm _).mem_iff.mp hm)
  rw [hindex] at hs
  obtain rfl : r = s := Option.some.inj (hr.symm.trans hs)
  rw [hcontains, ← forall_members_iff, hroot]
  simp [(ordered_perm _).mem_iff]

/-- The members of a group with distinct roots are told apart by their roots. -/
theorem DistinctRoots.index_eq {regions : List Region} {g : String}
    (h : DistinctRoots regions g) {k l : ℕ} {r s : Region}
    (hr : regions[k]? = some r) (hs : regions[l]? = some s)
    (hrg : group? r = some g) (hsg : group? s = some g) (hroot : r.file.rootKey = s.file.rootKey) :
    k = l := by
  have hmember : (⟨k, r.file.rootKey⟩ : Member) = ⟨l, s.file.rootKey⟩ :=
    List.inj_on_of_nodup_map h.nodup (mem_members.mpr ⟨r, hr, hrg, rfl⟩)
      (mem_members.mpr ⟨s, hs, hsg, rfl⟩) hroot
  exact congrArg Member.index hmember

theorem DistinctRoots.nearest_apply {i : Instrument} {g : String}
    (h : DistinctRoots i.regions g) (index : ℕ) (r s : Region)
    (hr : i.regions[index]? = some r) (hg : group? r = some g)
    (hs : (apply i).regions[index]? = some s) (key : ℕ) :
    s.trigger.keys.contains key = true ↔
      key < keyCount ∧ ∀ other ∈ i.regions, group? other = some g →
        Nearer key r.file.rootKey other.file.rootKey := by
  obtain ⟨keys, hkeys⟩ := mem_share_iff.mpr ⟨r, hr, hg⟩
  obtain rfl : s = r.withKeys keys :=
    Option.some.inj (hs.symm.trans (getElem?_apply_of_group hr hg hkeys))
  exact h.nearest hr hkeys key

theorem DistinctRoots.nearest_of_playsKey {i : Instrument} {g : String}
    (h : DistinctRoots i.regions g) {key index : ℕ}
    (hplays : PlaysKey (apply i).regions g key index) :
    ∃ r, i.regions[index]? = some r ∧ group? r = some g ∧
      ∀ s ∈ i.regions, group? s = some g → Nearer key r.file.rootKey s.file.rootKey := by
  obtain ⟨keys, hkeys, hcontains⟩ := playsKey_apply_iff.mp hplays
  obtain ⟨r, hr, hg⟩ := mem_share_iff.mp ⟨keys, hkeys⟩
  exact ⟨r, hr, hg, ((h.nearest hr hkeys key).mp hcontains).2⟩

/-- What becomes of a group with distinct root keys. -/
structure GoesToNearest (i : Instrument) (g : String) : Prop where
  /-- A member has exactly the keys to which its root is the nearest. -/
  nearest : ∀ (index : ℕ) r s, i.regions[index]? = some r → group? r = some g →
    (apply i).regions[index]? = some s → ∀ key, s.trigger.keys.contains key = true ↔
      key < keyCount ∧ ∀ other ∈ i.regions, group? other = some g →
        Nearer key r.file.rootKey other.file.rootKey
  once : ∀ key < keyCount, ∃! index, PlaysKey (apply i).regions g key index
  root : ∀ s ∈ (apply i).regions, group? s = some g →
    s.trigger.keys.contains s.file.rootKey = true
  /-- Wherever the same regions of the group stand, among whatever others, each
  gets the same keys. -/
  anyOrder : ∀ j : Instrument,
    (j.regions.filter fun r => group? r = some g).Perm
      (i.regions.filter fun r => group? r = some g) →
    ∀ (k l : ℕ) r, j.regions[k]? = some r → i.regions[l]? = some r → group? r = some g →
      (apply j).regions[k]? = (apply i).regions[l]?

/-- What holds of every instrument, whatever its groups are. -/
structure KeepsRest (i : Instrument) : Prop where
  /-- The regions of a group get the same keys when all others are changed. -/
  groups : ∀ g (j : Instrument), (∀ (index : ℕ) r, group? r = some g →
      (i.regions[index]? = some r ↔ j.regions[index]? = some r)) →
    ∀ (index : ℕ) r, i.regions[index]? = some r → group? r = some g →
      (apply i).regions[index]? = (apply j).regions[index]?
  ungrouped : ∀ (index : ℕ) r, i.regions[index]? = some r →
    r.options.autoMapGroup = none ∨ r.options.autoMapGroup = some "" →
    (apply i).regions[index]? = some r
  regions : ∀ index : ℕ, ∃ keys,
    (apply i).regions[index]? = i.regions[index]?.map fun r => r.withKeys keys
  instrument : apply i = { i with regions := (apply i).regions }

theorem keepsRest (i : Instrument) : KeepsRest i where
  groups := by
    intro g j hsame index r hr hg
    obtain ⟨keys, hkeys⟩ := mem_share_iff.mpr ⟨r, hr, hg⟩
    have hshare : share i.regions g = share j.regions g := by
      rw [share, share, members_congr hsame]
    rw [getElem?_apply_of_group hr hg hkeys,
      getElem?_apply_of_group ((hsame index r hg).mp hr) hg (hshare ▸ hkeys)]
  ungrouped := by
    intro index r hr hg
    refine (getElem?_apply_of_unassigned fun s hs => ?_).trans hr
    exact Option.some.inj (hr.symm.trans hs) ▸ group?_eq_none_iff.mpr hg
  regions := exists_getElem?_apply i
  instrument := rfl

/-- In a group with distinct root keys each key goes to the nearest root, to the
lower one of two.  The order of the regions does not matter, nor do the regions
of other groups; those of no group and all that is not keys stay as they are. -/
theorem nearest_root_has_key {i : Instrument} {g : String} (hg : g ∈ groups i.regions)
    (h : DistinctRoots i.regions g) : GoesToNearest i g ∧ KeepsRest i := by
  refine ⟨?_, keepsRest i⟩
  exact {
    nearest := h.nearest_apply
    once := by
      intro key hkey
      obtain ⟨index, hindex⟩ := exists_playsKey hg hkey
      refine ⟨index, hindex, fun other hother => ?_⟩
      obtain ⟨r, hr, hrg, hnear⟩ := h.nearest_of_playsKey hindex
      obtain ⟨s, hs, hsg, hnear'⟩ := h.nearest_of_playsKey hother
      have hroot : s.file.rootKey = r.file.rootKey :=
        (hnear' r (List.mem_of_getElem? hr) hrg).antisymm (hnear s (List.mem_of_getElem? hs) hsg)
      exact h.index_eq hs hr hsg hrg hroot
    root := by
      intro s hs hsg
      obtain ⟨index, hindex⟩ := List.getElem?_of_mem hs
      obtain ⟨keys, hkeys⟩ := exists_getElem?_apply i index
      rw [hindex] at hkeys
      obtain ⟨r, hr, rfl⟩ := Option.map_eq_some_iff.mp hkeys.symm
      have hroot : r.file.rootKey ≤ 127 :=
        forall_members_iff (P := (· ≤ 127)).mp h.le r (List.mem_of_getElem? hr) hsg
      exact (h.nearest_apply index r _ hr hsg hindex _).mpr
        ⟨Nat.lt_succ_of_le hroot, fun other _ _ => nearer_self _ _⟩
    anyOrder := by
      intro j hperm k l r hj hi hrg
      obtain ⟨keys, hkeys⟩ := mem_share_iff.mpr ⟨r, hj, hrg⟩
      obtain ⟨keys', hkeys'⟩ := mem_share_iff.mpr ⟨r, hi, hrg⟩
      have hsame : ∀ s, (s ∈ j.regions ∧ group? s = some g) ↔
          (s ∈ i.regions ∧ group? s = some g) := by
        intro s
        simpa using hperm.mem_iff (a := s)
      have hkeq : keys = keys' := by
        refine ValueRange.eq_of_contains (mem_share_bounds hkeys).1 (mem_share_bounds hkeys').1 ?_
        intro key
        rw [(h.of_perm hperm).nearest hj hkeys, h.nearest hi hkeys']
        simp only [← and_imp, hsame]
      rw [getElem?_apply_of_group hj hrg hkeys, getElem?_apply_of_group hi hrg hkeys', hkeq] }

/-- Two groups: one with roots next to each other and at both ends of the
keyboard, and one region between them that has all keys of its own group. -/
def duo : Instrument :=
  { regions := grouped "wide" [80, 0, 41] ++ grouped "single" [60] ++ grouped "wide" [40, 127] }

theorem nearest_root_has_key_duo :
    "wide" ∈ groups duo.regions ∧ DistinctRoots duo.regions "wide" ∧
      GoesToNearest duo "wide" ∧ KeepsRest duo := by
  have hg : "wide" ∈ groups duo.regions := by decide
  have h : DistinctRoots duo.regions "wide" := ⟨by decide, by decide⟩
  exact ⟨hg, h, nearest_root_has_key hg h⟩

example : (apply duo).regions.map (fun r => r.trigger.keys) =
    [⟨61, 104⟩, ⟨0, 21⟩, ⟨41, 61⟩, ⟨0, 128⟩, ⟨21, 41⟩, ⟨104, 128⟩] := by
  cbv

end KeyMap

end Multisample
