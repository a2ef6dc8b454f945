import Mathlib.Algebra.BigOperators.Group.List.Basic
import Mathlib.Algebra.Ring.Nat
import Mathlib.Data.List.Induction
import Mathlib.Data.List.Nodup
import Multisample.Playback.SampleStore

/-!
# Buffers that are shared

The store keeps no buffer alive, so what it answers hangs on who holds what at
that moment.  Here it is followed through any history of calls together with
everyone who holds one of its buffers.  What it then answers is said without
its entries: by the buffer that the history gave out last for a file, and by
the holders that are left.
-/

namespace Multisample

namespace SampleStore

variable {σ : Type}

/-! ## A store in use -/

/-- What is asked of a store, and of those who hold its buffers. -/
inductive Call (σ : Type) where
  | get (path : String)
  | insert (path : String) (buffer : AudioBuffer σ)
  | getOrDecode (path : String)
  | share (holder : ℕ)
  | drop (holder : ℕ)
  | purge
  | liveCount
  | memory

inductive Answer (σ : Type) where
  | none
  | sound (sound : Sound σ)
  | undecodable (error : DecodeError)
  | number (n : ℕ)

abbrev Event (σ : Type) := Call σ × Answer σ

/-- A store, and the buffer of every holder with the file that it was obtained for. -/
structure InUse (σ : Type) where
  store : SampleStore σ
  holders : List (FileKey × Sound σ)

namespace InUse

def start : InUse σ :=
  ⟨empty, []⟩

/-- Whether someone holds the buffer with this identity. -/
def alive (u : InUse σ) (id : ℕ) : Bool :=
  u.holders.any fun h => h.2.id == id

/-- Whoever is given a buffer holds it. -/
def give (u : InUse σ) (path : String) : SampleStore σ × Sound σ → InUse σ × Answer σ
  | (store, sound) => (⟨store, u.holders ++ [(fileKey path, sound)]⟩, .sound sound)

variable (decode : String → Except DecodeError (AudioBuffer σ))

def perform (u : InUse σ) : Call σ → InUse σ × Answer σ
  | .get path =>
    match u.store.get? u.alive path with
    | some sound => u.give path (u.store, sound)
    | none => (u, .none)
  | .insert path buffer => u.give path (u.store.insert u.alive path buffer)
  | .getOrDecode path =>
    match u.store.getOrDecode u.alive decode path with
    | .ok given => u.give path given
    | .error error => (u, .undecodable error)
  | .share holder => ({ u with holders := u.holders ++ u.holders[holder]?.toList }, .none)
  | .drop holder => ({ u with holders := u.holders.eraseIdx holder }, .none)
  | .purge => ({ u with store := (u.store.purge u.alive).1 }, .number (u.store.purge u.alive).2)
  | .liveCount => (u, .number (u.store.liveCount u.alive))
  | .memory => (u, .number (u.store.memory u.alive))

/-- The store after a call, and the call with its answer. -/
def record (u : InUse σ) (call : Call σ) : InUse σ × Event σ :=
  ((u.perform decode call).1, call, (u.perform decode call).2)

/-- The store after some calls, and what they were answered. -/
def run (u : InUse σ) (calls : List (Call σ)) : InUse σ × List (Event σ) :=
  runOver (record decode) u calls

theorem run_concat (u : InUse σ) (calls : List (Call σ)) (call : Call σ) :
    u.run decode (calls ++ [call]) =
      (((u.run decode calls).1.perform decode call).1,
        (u.run decode calls).2 ++ [(call, ((u.run decode calls).1.perform decode call).2)]) :=
  runOver_append ..

end InUse

/-! ## What a history says -/

/-- The buffer that a call stored for a file, or found stored there. -/
def storing? (key : FileKey) : Event σ → Option (Sound σ)
  | (.insert path _, .sound s) => if fileKey path = key then some s else none
  | (.getOrDecode path, .sound s) => if fileKey path = key then some s else none
  | _ => none

/-- The buffer that is stored for a file after a history, dead or alive. -/
def stored? (history : List (Event σ)) (key : FileKey) : Option (Sound σ) :=
  (history.filterMap (storing? key)).getLast?

/-- The buffer that is stored for a file, if someone holds it still. -/
def live? (history : List (Event σ)) (u : InUse σ) (path : String) : Option (Sound σ) :=
  (stored? history (fileKey path)).filter fun s => u.alive s.id

theorem stored?_concat (history : List (Event σ)) (event : Event σ) (key : FileKey) :
    stored? (history ++ [event]) key = (storing? key event).or (stored? history key) := by
  cases h : storing? key event <;> simp [stored?, h]

theorem mem_of_stored? {history : List (Event σ)} {key : FileKey} {s : Sound σ}
    (h : stored? history key = some s) : ∃ event ∈ history, event.2 = .sound s := by
  obtain ⟨event, hevent, hstoring⟩ := List.mem_filterMap.mp (List.mem_of_getLast? h)
  refine ⟨event, hevent, ?_⟩
  unfold storing? at hstoring
  split at hstoring
  · grind
  · grind
  · cases hstoring

/-! ## What a call does -/

/-- A file gets a new buffer in place of the one it had. -/
def made (s : SampleStore σ) (path : String) (buffer : AudioBuffer σ) :
    SampleStore σ × Sound σ :=
  (⟨(fileKey path, ⟨s.nextId, buffer⟩) :: s.entries.filter (fun e => e.1 != fileKey path),
    s.nextId + 1⟩, ⟨s.nextId, buffer⟩)

theorem insert_eq (s : SampleStore σ) (alive : ℕ → Bool) (path : String)
    (buffer : AudioBuffer σ) : s.insert alive path buffer =
      ((s.get? alive path).map (s, ·)).getD (s.made path buffer) := by
  unfold insert
  cases s.get? alive path <;> rfl

theorem getOrDecode_eq (s : SampleStore σ) (alive : ℕ → Bool)
    (decode : String → Except DecodeError (AudioBuffer σ)) (path : String) :
    s.getOrDecode alive decode path = match s.get? alive path with
      | some sound => .ok (s, sound)
      | none => (decode path).map (s.made path) := by
  unfold getOrDecode
  cases h : s.get? alive path with
  | some sound => rfl
  | none =>
      refine congrArg (Except.map · (decode path)) (funext fun buffer => ?_)
      rw [insert_eq, h]
      rfl

theorem memory_eq (s : SampleStore σ) (alive : ℕ → Bool) :
    s.memory alive = ((s.live alive).map fun sound => sound.buffer.memory).sum := by
  rw [memory, List.sum_eq_foldl, List.foldl_map]

namespace InUse

variable (decode : String → Except DecodeError (AudioBuffer σ))

/-- A call hands out a buffer that is alive, or makes one for a file that has no
live one, or hands out none. -/
theorem perform_cases (u : InUse σ) (call : Call σ) :
    (∃ path sound, u.store.get? u.alive path = some sound ∧
        u.perform decode call = u.give path (u.store, sound) ∧
        ∀ key s, storing? key (call, .sound sound) = some s → fileKey path = key ∧ sound = s) ∨
      (∃ path buffer, u.store.get? u.alive path = none ∧
        u.perform decode call = u.give path (u.store.made path buffer) ∧
        ∀ key s, storing? key (call, .sound s) = if fileKey path = key then some s else none) ∨
      (call ≠ .purge ∧ ∃ holders answer, holders ⊆ u.holders ∧
        u.perform decode call = (⟨u.store, holders⟩, answer) ∧ ∀ sound, answer ≠ .sound sound) ∨
      call = .purge := by
  cases call with
  | get path =>
      rw [perform]
      cases h : u.store.get? u.alive path with
      | some sound => exact Or.inl ⟨path, sound, h, rfl, nofun⟩
      | none => exact Or.inr (Or.inr (Or.inl ⟨nofun, _, _, List.Subset.refl _, rfl, nofun⟩))
  | insert path buffer =>
      rw [perform, insert_eq]
      cases h : u.store.get? u.alive path with
      | some sound => exact Or.inl ⟨path, sound, h, rfl, by simp [storing?]⟩
      | none => exact Or.inr (Or.inl ⟨path, buffer, h, rfl, fun _ _ => rfl⟩)
  | getOrDecode path =>
      rw [perform, getOrDecode_eq]
      cases h : u.store.get? u.alive path with
      | some sound => exact Or.inl ⟨path, sound, h, rfl, by simp [storing?]⟩
      | none =>
          cases decode path with
          | ok buffer => exact Or.inr (Or.inl ⟨path, buffer, h, rfl, fun _ _ => rfl⟩)
          | error error =>
              exact Or.inr (Or.inr (Or.inl ⟨nofun, _, _, List.Subset.refl _, rfl, nofun⟩))
  | share holder =>
      refine Or.inr (Or.inr (Or.inl ⟨nofun, _, _, ?_, rfl, nofun⟩))
      refine List.append_subset.mpr ⟨List.Subset.refl _, fun h hh => ?_⟩
      exact List.mem_of_getElem? (Option.mem_toList.mp hh)
  | drop holder =>
      exact Or.inr (Or.inr (Or.inl
        ⟨nofun, _, _, (List.eraseIdx_sublist _ _).subset, rfl, nofun⟩))
  | purge => exact Or.inr (Or.inr (Or.inr rfl))
  | liveCount => exact Or.inr (Or.inr (Or.inl ⟨nofun, _, _, List.Subset.refl _, rfl, nofun⟩))
  | memory => exact Or.inr (Or.inr (Or.inl ⟨nofun, _, _, List.Subset.refl _, rfl, nofun⟩))

/-! ## What is held is what is found -/

/-- Nothing is stored for a file twice, no two files share a buffer, and
everything that someone holds is stored. -/
structure Tidy (u : InUse σ) : Prop where
  keys : (u.store.entries.map fun e => e.1).Nodup
  ids : (u.store.entries.map fun e => e.2.id).Nodup
  fresh : ∀ e ∈ u.store.entries, e.2.id < u.store.nextId
  held : u.holders ⊆ u.store.entries

variable {decode} {u : InUse σ}

theorem alive_iff {id : ℕ} : u.alive id = true ↔ ∃ h ∈ u.holders, h.2.id = id := by
  simp [alive]

/-- The entries with a live buffer are the holders. -/
theorem Tidy.live_iff (h : u.Tidy) {e : FileKey × Sound σ} :
    e ∈ u.store.entries ∧ u.alive e.2.id = true ↔ e ∈ u.holders := by
  constructor
  · rintro ⟨he, halive⟩
    obtain ⟨holder, hholder, hid⟩ := alive_iff.mp halive
    rwa [← List.inj_on_of_nodup_map h.ids (h.held hholder) he hid]
  · exact fun he => ⟨h.held he, alive_iff.mpr ⟨e, he, rfl⟩⟩

theorem Tidy.get?_eq_some_iff (h : u.Tidy) {path : String} {s : Sound σ} :
    u.store.get? u.alive path = some s ↔ (fileKey path, s) ∈ u.holders := by
  rw [← h.live_iff, get?, Option.filter_eq_some_iff, Files.lookup_eq_some_iff_mem h.keys]

theorem Tidy.get?_eq_none (h : u.Tidy) {path : String}
    (hnone : u.store.get? u.alive path = none) : ∀ e ∈ u.holders, e.1 ≠ fileKey path := by
  rintro ⟨key, s⟩ he rfl
  rw [h.get?_eq_some_iff.mpr he] at hnone
  cases hnone

theorem tidy_start : (start : InUse σ).Tidy where
  keys := List.nodup_nil
  ids := List.nodup_nil
  fresh _ he := absurd he List.not_mem_nil
  held := List.Subset.refl _

theorem Tidy.mono (h : u.Tidy) {holders : List (FileKey × Sound σ)}
    (hsubset : holders ⊆ u.holders) : Tidy ⟨u.store, holders⟩ where
  keys := h.keys
  ids := h.ids
  fresh := h.fresh
  held := List.Subset.trans hsubset h.held

theorem Tidy.found (h : u.Tidy) {path : String} {s : Sound σ}
    (hs : (fileKey path, s) ∈ u.holders) : (u.give path (u.store, s)).1.Tidy :=
  h.mono (List.append_subset.mpr ⟨List.Subset.refl _, List.cons_subset.mpr ⟨hs, List.nil_subset _⟩⟩)

theorem Tidy.made (h : u.Tidy) {path : String} (buffer : AudioBuffer σ)
    (hnone : ∀ e ∈ u.holders, e.1 ≠ fileKey path) :
    (u.give path (u.store.made path buffer)).1.Tidy where
  keys := by
    refine List.nodup_cons.mpr ⟨?_, h.keys.sublist (List.filter_sublist.map _)⟩
    simp
  ids := by
    refine List.nodup_cons.mpr ⟨fun hmem => ?_, h.ids.sublist (List.filter_sublist.map _)⟩
    obtain ⟨e, he, hid⟩ := List.mem_map.mp hmem
    exact absurd hid (Nat.ne_of_lt (h.fresh e (List.mem_of_mem_filter he)))
  fresh e he := by
    rcases List.mem_cons.mp he with rfl | he
    · exact Nat.lt_succ_self _
    · exact Nat.lt_succ_of_lt (h.fresh e (List.mem_of_mem_filter he))
  held := by
    intro e he
    rcases List.mem_append.mp he with he | he
    · exact List.mem_cons_of_mem _ (List.mem_filter.mpr ⟨h.held he, bne_iff_ne.mpr (hnone e he)⟩)
    · rw [List.mem_singleton.mp he]
      exact List.mem_cons_self

theorem Tidy.purged (h : u.Tidy) : (u.perform decode .purge).1.Tidy where
  keys := h.keys.sublist (List.filter_sublist.map _)
  ids := h.ids.sublist (List.filter_sublist.map _)
  fresh _ he := h.fresh _ (List.mem_of_mem_filter he)
  held _ he := List.mem_filter.mpr (h.live_iff.mpr he)

theorem Tidy.perform (h : u.Tidy) (call : Call σ) : (u.perform decode call).1.Tidy := by
  rcases u.perform_cases decode call with ⟨path, s, hlive, heq, -⟩ | ⟨path, buffer, hnone, heq, -⟩ |
    ⟨-, holders, answer, hsubset, heq, -⟩ | rfl
  · exact heq ▸ h.found (h.get?_eq_some_iff.mp hlive)
  · exact heq ▸ h.made buffer (h.get?_eq_none hnone)
  · exact heq ▸ h.mono hsubset
  · exact h.purged

/-! ## What the history stored -/

/-- The entries are what the history stored, and a holder of something that it
stored for a file obtained it for that file. -/
structure Remembers (history : List (Event σ)) (u : InUse σ) : Prop where
  stored : ∀ e ∈ u.store.entries, stored? history e.1 = some e.2
  known : ∀ key s, stored? history key = some s → ∀ h ∈ u.holders, h.2.id = s.id → h = (key, s)
  older : ∀ event ∈ history, ∀ s, event.2 = .sound s → s.id < u.store.nextId

variable {history : List (Event σ)}

theorem remembers_start : Remembers [] (start : InUse σ) where
  stored _ he := absurd he List.not_mem_nil
  known _ _ h := by cases h
  older _ he := absurd he List.not_mem_nil

/-- What the history stored for a file is live just if it is held for that file. -/
theorem Remembers.live?_eq_some_iff (h : Remembers history u) (ht : u.Tidy) {path : String}
    {s : Sound σ} : live? history u path = some s ↔ (fileKey path, s) ∈ u.holders := by
  rw [live?, Option.filter_eq_some_iff]
  constructor
  · rintro ⟨hstored, halive⟩
    obtain ⟨holder, hholder, hid⟩ := alive_iff.mp halive
    exact h.known _ _ hstored holder hholder hid ▸ hholder
  · exact fun he => ⟨h.stored _ (ht.held he), alive_iff.mpr ⟨_, he, rfl⟩⟩

theorem Remembers.get?_eq (h : Remembers history u) (ht : u.Tidy) (path : String) :
    u.store.get? u.alive path = live? history u path :=
  Option.ext fun _ => ht.get?_eq_some_iff.trans (h.live?_eq_some_iff ht).symm

/-- An event that stores nothing new changes nothing about what was stored. -/
theorem Remembers.quiet (h : Remembers history u) {event : Event σ} {v : InUse σ}
    (hstoring : ∀ key s, storing? key event = some s → stored? history key = some s)
    (hentries : v.store.entries ⊆ u.store.entries) (hnext : v.store.nextId = u.store.nextId)
    (hholders : v.holders ⊆ u.holders)
    (hanswer : ∀ s, event.2 = .sound s → s.id < u.store.nextId) :
    Remembers (history ++ [event]) v := by
  have hsame : ∀ key, stored? (history ++ [event]) key = stored? history key := by
    intro key
    rw [stored?_concat]
    cases hs : storing? key event with
    | none => rfl
    | some s => exact (hstoring key s hs).symm
  refine ⟨fun e he => ?_, fun key s hs e he => ?_, fun other hother s hs => ?_⟩
  · rw [hsame]
    exact h.stored e (hentries he)
  · rw [hsame] at hs
    exact h.known key s hs e (hholders he)
  · rw [hnext]
    rcases List.mem_append.mp hother with hother | hother
    · exact h.older other hother s hs
    · rw [List.mem_singleton.mp hother] at hs
      exact hanswer s hs

theorem Remembers.made (h : Remembers history u) (ht : u.Tidy) {call : Call σ} {path : String}
    (buffer : AudioBuffer σ)
    (hstoring : ∀ key s,
      storing? key (call, .sound s) = if fileKey path = key then some s else none) :
    Remembers (history ++ [(call, .sound ⟨u.store.nextId, buffer⟩)])
      (u.give path (u.store.made path buffer)).1 := by
  have hstored : ∀ key, stored? (history ++ [(call, .sound ⟨u.store.nextId, buffer⟩)]) key =
      if fileKey path = key then some ⟨u.store.nextId, buffer⟩ else stored? history key := by
    intro key
    rw [stored?_concat, hstoring]
    split <;> rfl
  refine ⟨fun e he => ?_, fun key s hs e he hid => ?_, fun other hother s hs => ?_⟩
  · rcases List.mem_cons.mp he with rfl | he
    · rw [hstored, if_pos rfl]
    · obtain ⟨he, hne⟩ := List.mem_filter.mp he
      rw [hstored, if_neg (Ne.symm (bne_iff_ne.mp hne))]
      exact h.stored e he
  · rw [hstored] at hs
    rcases List.mem_append.mp he with he | he
    · -- An old holder has an old buffer, which is not the new one.
      have hold := ht.fresh e (ht.held he)
      split at hs
      · cases hs
        exact absurd hid (Nat.ne_of_lt hold)
      · exact h.known key s hs e he hid
    · rw [List.mem_singleton.mp he] at hid ⊢
      split at hs
      · rename_i hkey
        cases hs
        rw [hkey]
      · obtain ⟨event, hevent, hanswer⟩ := mem_of_stored? hs
        exact absurd hid.symm (Nat.ne_of_lt (h.older event hevent s hanswer))
  · rcases List.mem_append.mp hother with hother | hother
    · exact Nat.lt_succ_of_lt (h.older other hother s hs)
    · rw [List.mem_singleton.mp hother] at hs
      cases hs
      exact Nat.lt_succ_self _

theorem Remembers.perform (h : Remembers history u) (ht : u.Tidy) (call : Call σ) :
    Remembers (history ++ [(call, (u.perform decode call).2)]) (u.perform decode call).1 := by
  rcases u.perform_cases decode call with ⟨path, s, hlive, heq, hstoring⟩ |
    ⟨path, buffer, -, heq, hstoring⟩ | ⟨-, holders, answer, hsubset, heq, hanswer⟩ | rfl
  · rw [heq]
    have hheld := ht.get?_eq_some_iff.mp hlive
    refine h.quiet ?_ (List.Subset.refl _) rfl ?_ ?_
    · intro key t ht'
      obtain ⟨rfl, rfl⟩ := hstoring key t ht'
      exact h.stored _ (ht.held hheld)
    · exact List.append_subset.mpr
        ⟨List.Subset.refl _, List.cons_subset.mpr ⟨hheld, List.nil_subset _⟩⟩
    · rintro t ⟨⟩
      exact ht.fresh _ (ht.held hheld)
  · rw [heq]
    exact h.made ht buffer hstoring
  · rw [heq]
    refine h.quiet ?_ (List.Subset.refl _) rfl hsubset fun s hs => absurd hs (hanswer s)
    intro key s hs
    unfold storing? at hs
    split at hs <;> grind
  · exact h.quiet nofun (List.filter_subset_self _) rfl (List.Subset.refl _) nofun

theorem Remembers.perform_get (h : Remembers history u) (ht : u.Tidy) (path : String) :
    (u.perform decode (.get path)).2 = (live? history u path).elim .none .sound := by
  rw [InUse.perform, h.get?_eq ht]
  cases live? history u path <;> rfl

theorem Remembers.perform_insert (h : Remembers history u) (ht : u.Tidy) (path : String)
    (buffer : AudioBuffer σ) : u.perform decode (.insert path buffer) =
      u.give path (((live? history u path).map (u.store, ·)).getD (u.store.made path buffer)) := by
  rw [InUse.perform, insert_eq, h.get?_eq ht]

theorem Remembers.perform_getOrDecode (h : Remembers history u) (ht : u.Tidy) (path : String) :
    u.perform decode (.getOrDecode path) = match live? history u path with
      | some sound => u.give path (u.store, sound)
      | none => match decode path with
        | .ok buffer => u.perform decode (.insert path buffer)
        | .error error => (u, .undecodable error) := by
  rw [InUse.perform, getOrDecode_eq, h.get?_eq ht]
  cases hlive : live? history u path with
  | some sound => rfl
  | none =>
      cases decode path with
      | error error => rfl
      | ok buffer =>
          dsimp only
          rw [h.perform_insert ht, hlive]
          rfl

variable (decode) in
/-- Any history from the start is remembered, by a store that is tidy. -/
theorem remembers_run (calls : List (Call σ)) :
    (start.run decode calls).1.Tidy ∧
      Remembers (start.run decode calls).2 (start.run decode calls).1 := by
  induction calls using List.reverseRecOn with
  | nil => exact ⟨tidy_start, remembers_start⟩
  | append_singleton calls call ih =>
      rw [run_concat]
      exact ⟨ih.1.perform call, ih.2.perform ih.1 call⟩

/-! ## Live buffers, counted -/

theorem Tidy.mem_live_iff (h : u.Tidy) {s : Sound σ} :
    s ∈ u.store.live u.alive ↔ ∃ key, (key, s) ∈ u.holders := by
  simp only [live, List.mem_filter, List.mem_map, Prod.exists, exists_eq_right, ← h.live_iff,
    exists_and_right]

theorem Tidy.ids_live (h : u.Tidy) : ((u.store.live u.alive).map fun s => s.id).Nodup := by
  have hids : ((u.store.entries.map fun e => e.2).map fun s => s.id).Nodup := by
    rw [List.map_map]
    exact h.ids
  exact hids.sublist (List.filter_sublist.map _)

theorem Remembers.mem_live_iff (h : Remembers history u) (ht : u.Tidy) {s : Sound σ} :
    s ∈ u.store.live u.alive ↔ (∃ key, stored? history key = some s) ∧ u.alive s.id = true := by
  rw [ht.mem_live_iff]
  constructor
  · rintro ⟨key, hkey⟩
    exact ⟨⟨key, h.stored _ (ht.held hkey)⟩, alive_iff.mpr ⟨_, hkey, rfl⟩⟩
  · rintro ⟨⟨key, hstored⟩, halive⟩
    obtain ⟨holder, hholder, hid⟩ := alive_iff.mp halive
    exact ⟨key, h.known key s hstored holder hholder hid ▸ hholder⟩

/-! ## Purges -/

theorem perform_purge (u : InUse σ) : ∃ n, (u.perform decode .purge).2 = .number n ∧
    (u.perform decode .purge).1.store.entries =
      u.store.entries.filter (fun e => u.alive e.2.id) ∧
    (u.perform decode .purge).1.store.entries.length + n = u.store.entries.length :=
  ⟨_, rfl, rfl, (List.length_eq_length_filter_add _).symm⟩

theorem purge_purge (u : InUse σ) :
    ((u.perform decode .purge).1.perform decode .purge).2 = .number 0 := by
  simp only [InUse.perform, SampleStore.purge, alive, List.filter_filter]
  simp

/-- Two stores with the same holders that number the next buffer alike. -/
structure Alike (u v : InUse σ) : Prop where
  holders : u.holders = v.holders
  nextId : u.store.nextId = v.store.nextId

variable {v : InUse σ}

theorem Alike.alive (h : Alike u v) : u.alive = v.alive := by
  unfold InUse.alive
  rw [h.holders]

theorem Alike.get? (h : Alike u v) (hu : u.Tidy) (hv : v.Tidy) (path : String) :
    u.store.get? u.alive path = v.store.get? v.alive path := by
  refine Option.ext fun s => ?_
  rw [hu.get?_eq_some_iff, hv.get?_eq_some_iff, h.holders]

theorem Alike.live (h : Alike u v) (hu : u.Tidy) (hv : v.Tidy) :
    (u.store.live u.alive).Perm (v.store.live v.alive) := by
  refine (List.perm_ext_iff_of_nodup hu.ids_live.of_map hv.ids_live.of_map).mpr fun s => ?_
  rw [hu.mem_live_iff, hv.mem_live_iff, h.holders]

theorem Alike.perform (h : Alike u v) (hu : u.Tidy) (hv : v.Tidy) (call : Call σ) :
    Alike (u.perform decode call).1 (v.perform decode call).1 ∧
      (call ≠ .purge → (u.perform decode call).2 = (v.perform decode call).2) := by
  have hgive : ∀ path (s : Sound σ),
      Alike (u.give path (u.store, s)).1 (v.give path (v.store, s)).1 := fun path s =>
    ⟨congrArg (· ++ [(fileKey path, s)]) h.holders, h.nextId⟩
  have hmade : ∀ path buffer, Alike (u.give path (u.store.made path buffer)).1
        (v.give path (v.store.made path buffer)).1 ∧
      (u.give path (u.store.made path buffer)).2 = (v.give path (v.store.made path buffer)).2 := by
    intro path buffer
    simp only [give, SampleStore.made, h.nextId]
    exact ⟨⟨by rw [h.holders], rfl⟩, trivial⟩
  cases call with
  | get path =>
      rw [InUse.perform, InUse.perform, h.get? hu hv]
      cases v.store.get? v.alive path with
      | some s => exact ⟨hgive path s, fun _ => rfl⟩
      | none => exact ⟨h, fun _ => rfl⟩
  | insert path buffer =>
      rw [InUse.perform, InUse.perform, insert_eq, insert_eq, h.get? hu hv]
      cases v.store.get? v.alive path with
      | some s => exact ⟨hgive path s, fun _ => rfl⟩
      | none => exact ⟨(hmade path buffer).1, fun _ => (hmade path buffer).2⟩
  | getOrDecode path =>
      rw [InUse.perform, InUse.perform, getOrDecode_eq, getOrDecode_eq, h.get? hu hv]
      cases v.store.get? v.alive path with
      | some s => exact ⟨hgive path s, fun _ => rfl⟩
      | none =>
          cases decode path with
          | ok buffer => exact ⟨(hmade path buffer).1, fun _ => (hmade path buffer).2⟩
          | error error => exact ⟨h, fun _ => rfl⟩
  | share holder => exact ⟨⟨by simp only [InUse.perform, h.holders], h.nextId⟩, fun _ => rfl⟩
  | drop holder => exact ⟨⟨by simp only [InUse.perform, h.holders], h.nextId⟩, fun _ => rfl⟩
  | purge => exact ⟨⟨h.holders, h.nextId⟩, fun hne => absurd rfl hne⟩
  | liveCount => exact ⟨h, fun _ => congrArg Answer.number (h.live hu hv).length_eq⟩
  | memory =>
      refine ⟨h, fun _ => congrArg Answer.number ?_⟩
      rw [memory_eq, memory_eq]
      exact ((h.live hu hv).map _).sum_eq

theorem Alike.run (h : Alike u v) (hu : u.Tidy) (hv : v.Tidy) (calls : List (Call σ)) :
    Alike (u.run decode calls).1 (v.run decode calls).1 ∧
      (u.run decode calls).1.Tidy ∧ (v.run decode calls).1.Tidy := by
  induction calls using List.reverseRecOn with
  | nil => exact ⟨h, hu, hv⟩
  | append_singleton calls call ih =>
      obtain ⟨halike, hu, hv⟩ := ih
      rw [run_concat, run_concat]
      exact ⟨(halike.perform hu hv call).1, hu.perform call, hv.perform call⟩

end InUse

/-! ## One live buffer for each file -/

/-- What can be counted on after a history. -/
structure OneLiveBuffer (decode : String → Except DecodeError (AudioBuffer σ))
    (history : List (Event σ)) (u : InUse σ) : Prop where
  /-- A file has one entry at most, and that is the buffer stored for it. -/
  entries : (u.store.entries.map fun e => e.1).Nodup ∧
    ∀ e ∈ u.store.entries, stored? history e.1 = some e.2
  /-- A file has a buffer just if the one stored for it is still held. -/
  get : ∀ path, (u.perform decode (.get path)).2 = (live? history u path).elim .none .sound
  /-- A live buffer stays the stored one. -/
  insert_live : ∀ path buffer sound, live? history u path = some sound →
    (u.perform decode (.insert path buffer)).2 = .sound sound ∧
      (u.perform decode (.insert path buffer)).1.store = u.store
  /-- Else the new one, which no answer has shown before, is stored and found. -/
  insert_new : ∀ path buffer, live? history u path = none → ∃ sound : Sound σ,
    (u.perform decode (.insert path buffer)).2 = .sound sound ∧ sound.buffer = buffer ∧
      (∀ event ∈ history, ∀ other, event.2 = .sound other → other.id ≠ sound.id) ∧
      ((u.perform decode (.insert path buffer)).1.perform decode (.get path)).2 = .sound sound
  /-- A file without a live buffer is decoded, and what that gives is stored. -/
  decode_live : ∀ path sound, live? history u path = some sound →
    (u.perform decode (.getOrDecode path)).2 = .sound sound ∧
      (u.perform decode (.getOrDecode path)).1.store = u.store
  decode_new : ∀ path, live? history u path = none →
    u.perform decode (.getOrDecode path) = match decode path with
      | .ok buffer => u.perform decode (.insert path buffer)
      | .error error => (u, .undecodable error)
  /-- Two holders of buffers for one file hold the same one. -/
  identical : ∀ h ∈ u.holders, ∀ other ∈ u.holders, h.1 = other.1 → h.2 = other.2
  /-- Counts and sizes are those of the stored buffers that are held. -/
  counts : ∃ live : List (Sound σ), (live.map fun s => s.id).Nodup ∧
    (∀ s, s ∈ live ↔ (∃ key, stored? history key = some s) ∧ u.alive s.id = true) ∧
    (u.perform decode .liveCount).2 = .number live.length ∧
    (u.perform decode .memory).2 = .number (live.map fun s => s.buffer.memory).sum
  /-- A purge forgets the dead entries, and says how many. -/
  purge : ∃ n, (u.perform decode .purge).2 = .number n ∧
    (u.perform decode .purge).1.store.entries =
      u.store.entries.filter (fun e => u.alive e.2.id) ∧
    (u.perform decode .purge).1.store.entries.length + n = u.store.entries.length
  /-- No call later on is answered in another way for it. -/
  purge_unnoticed : ∀ later call, call ≠ .purge →
    (((u.perform decode .purge).1.run decode later).1.perform decode call).2 =
      ((u.run decode later).1.perform decode call).2
  purge_twice : ((u.perform decode .purge).1.perform decode .purge).2 = .number 0

/-- After any history of calls that starts with an empty store, every file has
at most one live buffer, the one that was stored for it last. -/
theorem one_live_buffer (decode : String → Except DecodeError (AudioBuffer σ))
    (calls : List (Call σ)) :
    OneLiveBuffer decode (InUse.start.run decode calls).2 (InUse.start.run decode calls).1 := by
  obtain ⟨ht, h⟩ := InUse.remembers_run decode calls
  generalize (InUse.start.run decode calls).2 = history at h
  generalize (InUse.start.run decode calls).1 = u at ht h
  exact {
    entries := ⟨ht.keys, h.stored⟩
    get := h.perform_get ht
    insert_live := by
      intro path buffer sound hlive
      rw [h.perform_insert ht, hlive]
      exact ⟨rfl, rfl⟩
    insert_new := by
      intro path buffer hnone
      refine ⟨⟨u.store.nextId, buffer⟩, ?_⟩
      have htidy : (u.perform decode (.insert path buffer)).1.Tidy := ht.perform _
      rw [h.perform_insert ht, hnone] at htidy ⊢
      refine ⟨rfl, rfl, fun event hevent other hother => ?_, ?_⟩
      · exact Nat.ne_of_lt (h.older event hevent other hother)
      · rw [InUse.perform, htidy.get?_eq_some_iff.mpr (List.mem_append_right _ List.mem_cons_self)]
        rfl
    decode_live := by
      intro path sound hlive
      rw [h.perform_getOrDecode ht, hlive]
      exact ⟨rfl, rfl⟩
    decode_new := by
      intro path hnone
      rw [h.perform_getOrDecode ht, hnone]
    identical := by
      rintro ⟨key, sound⟩ hsound ⟨_, other⟩ hother rfl
      have hstored := h.stored _ (ht.held hsound)
      exact Option.some.inj (hstored.symm.trans (h.stored _ (ht.held hother)))
    counts := ⟨u.store.live u.alive, ht.ids_live, fun _ => h.mem_live_iff ht, rfl,
      congrArg Answer.number (memory_eq _ _)⟩
    purge := u.perform_purge
    purge_unnoticed := by
      intro later call hne
      have halike : (u.perform decode .purge).1.Alike u := ⟨rfl, rfl⟩
      obtain ⟨halike, hpurged, hu⟩ := halike.run (ht.perform .purge) ht later
      exact (halike.perform hpurged hu call).2 hne
    purge_twice := u.purge_purge }

end SampleStore

end Multisample
