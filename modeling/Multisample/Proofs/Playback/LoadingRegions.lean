import Multisample.Playback.Loading
import Multisample.Proofs.Library.Paths
import Multisample.Proofs.Playback.Looping
import Multisample.Proofs.Playback.SharedBuffers

/-!
# Regions that load

A region can sound if its path leads to a file, the file can be heard and its
loop, if it has one, fits what is heard.  Nothing else decides about it, neither
the regions beside it nor what was loaded before: the store only makes those who
ask for one file share its buffer.
-/

namespace Multisample

/-! ## Files below one root -/

/-- Below one root the files are told apart by their texts. -/
theorem RelativePath.eq_of_fileKey {root text other path file : String}
    (hpath : locate root text = .ok path) (hfile : locate root other = .ok file)
    (hkey : fileKey path = fileKey file) : path = file := by
  have hnames : ∀ {text path : String}, locate root text = .ok path →
      ∃ names, (∀ name ∈ names, Files.IsName name) ∧ path = Files.join root names := by
    intro text path h
    obtain ⟨names, hresolve, hjoin⟩ := except_bind_eq_ok.mp h
    obtain ⟨-, -, rfl⟩ := resolve_eq_ok_iff.mp hresolve
    refine ⟨_, fun name hname => ?_, (Except.ok.inj hjoin).symm⟩
    obtain ⟨hmem, hup⟩ := (mem_of_mem_foldl_up hname).resolve_left List.not_mem_nil
    exact isName_of_mem_said hmem hup
  obtain ⟨names, hnames', rfl⟩ := hnames hpath
  obtain ⟨more, hmore, rfl⟩ := hnames hfile
  rw [fileKey, fileKey, Files.components_join hnames', Files.components_join hmore] at hkey
  have hinjective : Function.Injective Files.Component.name := fun _ _ h =>
    Files.Component.name.inj h
  rw [List.map_injective_iff.mpr hinjective (List.append_cancel_left hkey)]

namespace Loading

open SampleStore (InUse)

variable {σ : Type}

/-! ## What can be heard -/

/-- What a file sounds like to those who ask the store: a live buffer of it comes
before what the decoder makes of it. -/
def heard (decode : Decoder σ) (u : InUse σ) (path : String) : Except DecodeError (AudioBuffer σ) :=
  match u.store.get? u.alive path with
  | some sound => .ok sound.buffer
  | none => decode path

/-- A region can sound: its path leads to a file, the file can be heard, and the
loop, if there is one, resolves against what is heard. -/
def CanSound (hear : Decoder σ) (root : String) (file : RegionFile) : Prop :=
  ∃ path buffer, RelativePath.locate root file.path.text = .ok path ∧ hear path = .ok buffer ∧
    ∀ l ∈ file.sampleLoop, ∃ resolved, l.resolve buffer.frames = .ok resolved

/-- What a region plays is its own file with its own loop, and the loop lies in it. -/
structure Plays (hear : Decoder σ) (root : String) (file : RegionFile) (p : PlayableRegion σ) :
    Prop where
  heard : ∃ path, RelativePath.locate root file.path.text = .ok path ∧
    hear path = .ok p.sound.buffer
  sampleLoop : file.sampleLoop.map (fun l => l.resolve p.sound.buffer.frames) =
    p.sampleLoop.map .ok
  roomy : ∀ l ∈ p.sampleLoop, l.Roomy p.sound.buffer.frames

/-- What becomes of a region. -/
structure Settled (hear : Decoder σ) (root : String) (file : RegionFile)
    (entry : Option (PlayableRegion σ)) : Prop where
  isSome_iff : entry.isSome ↔ CanSound hear root file
  plays : ∀ p ∈ entry, Plays hear root file p

/-- Only the file that a region leads to has to be heard for it. -/
theorem Settled.congr {hear other : Decoder σ} {root : String} {file : RegionFile}
    {entry : Option (PlayableRegion σ)} (h : Settled hear root file entry)
    (heq : ∀ path, RelativePath.locate root file.path.text = .ok path → hear path = other path) :
    Settled other root file entry := by
  refine ⟨h.isSome_iff.trans ?_, fun p hp => ?_⟩
  · refine exists_congr fun path => exists_congr fun buffer => ?_
    refine and_congr_right fun hpath => ?_
    rw [heq path hpath]
  · obtain ⟨⟨path, hpath, hheard⟩, hloop, hroomy⟩ := h.plays p hp
    exact ⟨⟨path, hpath, heq path hpath ▸ hheard⟩, hloop, hroomy⟩

theorem settled_unheard {hear : Decoder σ} {root : String} {file : RegionFile}
    (h : ∀ path buffer, RelativePath.locate root file.path.text = .ok path →
      hear path ≠ .ok buffer) : Settled hear root file none := by
  refine ⟨?_, nofun⟩
  rw [Option.isSome_none]
  refine ⟨nofun, ?_⟩
  rintro ⟨path, buffer, hpath, hheard, -⟩
  exact absurd hheard (h path buffer hpath)

theorem settled_heard {hear : Decoder σ} {root path : String} {file : RegionFile} {sound : Sound σ}
    (hpath : RelativePath.locate root file.path.text = .ok path)
    (hheard : hear path = .ok sound.buffer) : Settled hear root file (playable? file sound) := by
  have hcan : CanSound hear root file ↔
      ∀ l ∈ file.sampleLoop, ∃ resolved, l.resolve sound.buffer.frames = .ok resolved := by
    simp [CanSound, hpath, hheard]
  unfold playable?
  cases hloop : file.sampleLoop with
  | none =>
      refine ⟨by simp [hcan, hloop], fun p hp => ?_⟩
      obtain rfl := Option.some.inj hp
      exact ⟨⟨path, hpath, hheard⟩, by rw [hloop]; rfl, nofun⟩
  | some l =>
      dsimp only
      cases hresolve : l.resolve sound.buffer.frames with
      | error e =>
          refine ⟨?_, nofun⟩
          simp [hcan, hloop, hresolve]
      | ok resolved =>
          refine ⟨by simp [hcan, hloop, hresolve], fun p hp => ?_⟩
          obtain rfl := Option.some.inj hp
          refine ⟨⟨path, hpath, hheard⟩, ?_, fun other hother => ?_⟩
          · rw [hloop]
            exact congrArg some hresolve
          · obtain rfl := Option.some.inj hother
            exact SampleLoop.resolve_roomy hresolve

theorem playable?_sound {file : RegionFile} {sound : Sound σ} {p : PlayableRegion σ}
    (h : playable? file sound = some p) : p.sound = sound := by
  unfold playable? at h
  split at h
  · rw [← Option.some.inj h]
  · split at h
    · rw [← Option.some.inj h]
    · cases h

/-! ## Regions through the store -/

section store

variable {decode : Decoder σ} {u : InUse σ}

/-- Two holders of buffers for one file hold the same one. -/
theorem held_unique (ht : u.Tidy) {key : FileKey} {s other : Sound σ} (hs : (key, s) ∈ u.holders)
    (hother : (key, other) ∈ u.holders) : s = other := by
  have heq := List.inj_on_of_nodup_map ht.keys (ht.held hs) (ht.held hother) rfl
  exact (Prod.mk.inj heq).2

theorem heard_of_held (ht : u.Tidy) {path : String} {s : Sound σ}
    (hs : (fileKey path, s) ∈ u.holders) : heard decode u path = .ok s.buffer := by
  rw [heard, ht.get?_eq_some_iff.mpr hs]

/-- What a file sounds like hangs on who holds what for it, not on the entries. -/
theorem heard_congr {v : InUse σ} (hu : u.Tidy) (hv : v.Tidy) {path : String}
    (hholders : ∀ s, (fileKey path, s) ∈ u.holders ↔ (fileKey path, s) ∈ v.holders) :
    heard decode u path = heard decode v path := by
  have hget : u.store.get? u.alive path = v.store.get? v.alive path :=
    Option.ext fun s => by rw [hu.get?_eq_some_iff, hv.get?_eq_some_iff, hholders]
  rw [heard, heard, hget]

/-- Whoever asks for a file gets a buffer with what can be heard there. -/
theorem getOrDecode_of_heard (ht : u.Tidy) {path : String} {buffer : AudioBuffer σ}
    (h : heard decode u path = .ok buffer) : ∃ store sound,
      u.store.getOrDecode u.alive decode path = .ok (store, sound) ∧ sound.buffer = buffer ∧
        (u.give path (store, sound)).1.Tidy := by
  have hperform : (u.perform decode (.getOrDecode path)).1.Tidy := ht.perform _
  rw [InUse.perform] at hperform
  rw [heard] at h
  rw [SampleStore.getOrDecode_eq] at hperform ⊢
  cases hget : u.store.get? u.alive path with
  | some sound =>
      rw [hget] at hperform h
      exact ⟨_, sound, rfl, Except.ok.inj h, hperform⟩
  | none =>
      rw [hget] at hperform h
      dsimp only at h
      rw [h] at hperform ⊢
      exact ⟨_, _, rfl, rfl, hperform⟩

theorem getOrDecode_of_unheard {path : String} {e : DecodeError}
    (h : heard decode u path = .error e) :
    u.store.getOrDecode u.alive decode path = .error e := by
  rw [heard] at h
  rw [SampleStore.getOrDecode_eq]
  cases hget : u.store.get? u.alive path with
  | some sound => simp [hget] at h
  | none =>
      rw [hget] at h
      dsimp only at h
      rw [h]
      rfl

/-- What a region that can sound holds, with the file it is for. -/
def holding (root : String) (r : Region) (entry : Option (PlayableRegion σ)) :
    List (FileKey × Sound σ) :=
  match RelativePath.locate root r.file.path.text, entry with
  | .ok path, some p => [(fileKey path, p.sound)]
  | _, _ => []

/-- What the regions of an instrument hold. -/
def holdings (root : String) (regions : List Region) (entries : List (Option (PlayableRegion σ))) :
    List (FileKey × Sound σ) :=
  (List.zipWith (holding root) regions entries).flatten

/-- The decoder is never stopped. -/
def NeverCancelled (decode : Decoder σ) : Prop :=
  ∀ path name, decode path ≠ .error (.cancelled name)

theorem NeverCancelled.heard (h : NeverCancelled decode) (path name : String) :
    heard decode u path ≠ .error (.cancelled name) := by
  unfold Loading.heard
  split
  · nofun
  · exact h path name

/-- A region becomes what it becomes by itself, and nothing else is heard otherwise
than before. -/
theorem loadRegion_settles (hcancel : NeverCancelled decode) (ht : u.Tidy) (root : String)
    (r : Region) : ∃ store entry,
      loadRegion decode root u.alive u.store r.file = .ok (store, entry) ∧
        Settled (heard decode u) root r.file entry ∧
        InUse.Tidy ⟨store, u.holders ++ holding root r entry⟩ ∧
        ∀ text path, RelativePath.locate root text = .ok path →
          heard decode ⟨store, u.holders ++ holding root r entry⟩ path = heard decode u path := by
  have hidle : ∀ store, InUse.Tidy ⟨store, u.holders⟩ →
      InUse.Tidy ⟨store, u.holders ++ []⟩ ∧
        ∀ text path, RelativePath.locate root text = .ok path →
          heard decode ⟨store, u.holders ++ []⟩ path = heard decode u path := by
    intro store htidy
    rw [List.append_nil]
    exact ⟨htidy, fun _ _ _ => heard_congr htidy ht fun _ => Iff.rfl⟩
  unfold loadRegion
  cases hpath : RelativePath.locate root r.file.path.text with
  | error e =>
      refine ⟨u.store, none, rfl, settled_unheard (by simp [hpath]), ?_⟩
      simp only [holding, hpath]
      exact hidle u.store ht
  | ok path =>
      cases hheard : heard decode u path with
      | error e =>
          have hsettled : Settled (heard decode u) root r.file none := by
            refine settled_unheard fun other buffer hother => ?_
            obtain rfl := Except.ok.inj (hpath.symm.trans hother)
            simp [hheard]
          refine ⟨u.store, none, ?_, hsettled, ?_⟩
          · dsimp only
            rw [getOrDecode_of_unheard hheard]
            cases e with
            | cancelled name => exact absurd hheard (hcancel.heard path name)
            | _ => rfl
          · simp only [holding, hpath]
            exact hidle u.store ht
      | ok buffer =>
          obtain ⟨store, sound, hgiven, rfl, htidy⟩ := getOrDecode_of_heard ht hheard
          have hsettled := settled_heard hpath hheard
          refine ⟨store, playable? r.file sound, ?_, hsettled, ?_⟩
          · dsimp only
            rw [hgiven]
          · cases hentry : playable? r.file sound with
            | none =>
                -- The buffer is dropped again, as no region keeps it.
                simp only [holding, hpath]
                exact hidle store (htidy.mono (List.subset_append_left _ _))
            | some p =>
                obtain rfl := playable?_sound hentry
                simp only [holding, hpath]
                refine ⟨htidy, fun text other hother => ?_⟩
                by_cases hkey : fileKey other = fileKey path
                · obtain rfl := RelativePath.eq_of_fileKey hother hpath hkey
                  rw [hheard]
                  exact heard_of_held htidy (List.mem_append_right _ List.mem_cons_self)
                · refine heard_congr htidy ht fun s => ?_
                  simp [InUse.give, hkey]

/-- The buffer of a region that can sound is alive next to those that were. -/
theorem alive_holding {hear : Decoder σ} {root : String} {r : Region}
    {entry : Option (PlayableRegion σ)} (h : Settled hear root r.file entry)
    (store : SampleStore σ) :
    (fun id => u.alive id || (entry.map fun p => p.sound.id) == some id) =
      InUse.alive ⟨store, u.holders ++ holding root r entry⟩ := by
  funext id
  unfold InUse.alive
  rw [List.any_append]
  cases entry with
  | none => simp [holding]
  | some p =>
      obtain ⟨⟨path, hpath, -⟩, -⟩ := h.plays p rfl
      simp [holding, hpath]

/-- Regions settle one by one, each as it does by itself. -/
theorem loadRegions_settles (hcancel : NeverCancelled decode) (root : String)
    (regions : List Region) {u : InUse σ} (ht : u.Tidy) : ∃ store entries,
      loadRegions decode root u.alive u.store regions = .ok (store, entries) ∧
        List.Forall₂ (fun r entry => Settled (heard decode u) root r.file entry) regions entries ∧
        InUse.Tidy ⟨store, u.holders ++ holdings root regions entries⟩ := by
  induction regions generalizing u with
  | nil =>
      refine ⟨u.store, [], rfl, .nil, ?_⟩
      rw [holdings, List.zipWith_nil_left, List.flatten_nil, List.append_nil]
      exact ht
  | cons r rest ih =>
      obtain ⟨store, entry, hload, hsettled, htidy, hheard⟩ := loadRegion_settles hcancel ht root r
      obtain ⟨after, entries, hrest, hsettles, htidy'⟩ := ih htidy
      refine ⟨after, entry :: entries, ?_, .cons hsettled ?_, ?_⟩
      · rw [loadRegions, hload]
        dsimp only
        rw [alive_holding hsettled store, hrest]
      · refine hsettles.imp fun other entry h => h.congr fun path hpath => ?_
        exact hheard _ path hpath
      · rw [holdings, List.zipWith_cons_cons, List.flatten_cons, ← List.append_assoc]
        exact htidy'

end store

/-! ## Instruments through the store -/

end Loading

open SampleStore (InUse)

variable {σ : Type}

/-- The buffers that an instrument keeps alive, each with the file it is for. -/
def LoadedInstrument.holdings (i : LoadedInstrument σ) : List (FileKey × Sound σ) :=
  Loading.holdings i.library.root i.instrument.regions i.regions

/-- Entry by entry the instrument has what becomes of the region in that place. -/
structure LoadedInstrument.Aligned (hear : Loading.Decoder σ) (i : LoadedInstrument σ) : Prop where
  length : i.regions.length = i.instrument.regions.length
  playable_iff : ∀ index r, i.instrument.regions[index]? = some r →
    ((i.region? index).isSome ↔ Loading.CanSound hear i.library.root r.file)
  plays : ∀ index r p, i.instrument.regions[index]? = some r → i.region? index = some p →
    Loading.Plays hear i.library.root r.file p

/-- Regions of two instruments that lead to one file have one buffer. -/
def LoadedInstrument.SharesWith (i other : LoadedInstrument σ) : Prop :=
  ∀ index place r r' p p' path path',
    i.instrument.regions[index]? = some r → i.region? index = some p →
    other.instrument.regions[place]? = some r' → other.region? place = some p' →
    RelativePath.locate i.library.root r.file.path.text = .ok path →
    RelativePath.locate other.library.root r'.file.path.text = .ok path' →
    fileKey path = fileKey path' → p.sound = p'.sound

namespace Loading

/-- What is asked of a store: calls of its own, and instruments that are loaded
through it. -/
inductive Use (σ : Type) where
  | call (call : SampleStore.Call σ)
  | load (id : ℕ) (library : Library) (name : String)

/-- A store in use after a use; an instrument holds the buffers of its regions. -/
def use (decode : Decoder σ) (u : InUse σ) : Use σ → InUse σ
  | .call call => (u.perform decode call).1
  | .load id library name =>
    match load decode u.store u.alive id library name with
    | .ok (store, loaded) => ⟨store, u.holders ++ loaded.holdings⟩
    | .error _ => u

/-- A store in use after some uses. -/
def after (decode : Decoder σ) (u : InUse σ) (uses : List (Use σ)) : InUse σ :=
  uses.foldl (use decode) u

section loads

variable {decode : Decoder σ} {u : InUse σ}

theorem aligned_of_settled {hear : Decoder σ} {i : LoadedInstrument σ}
    (h : List.Forall₂ (fun r entry => Settled hear i.library.root r.file entry)
      i.instrument.regions i.regions) : i.Aligned hear := by
  obtain ⟨hlength, hsettled⟩ := List.forall₂_iff_get.mp h
  have hentry : ∀ index r, i.instrument.regions[index]? = some r →
      Settled hear i.library.root r.file (i.region? index) := by
    intro index r hr
    obtain ⟨hindex, rfl⟩ := List.getElem?_eq_some_iff.mp hr
    have hregions : index < i.regions.length := hlength ▸ hindex
    have hregion : i.region? index = i.regions[index] := by
      rw [LoadedInstrument.region?, List.getElem?_eq_getElem hregions]
      rfl
    rw [hregion]
    exact hsettled index hindex hregions
  exact ⟨hlength.symm, fun index r hr => (hentry index r hr).isSome_iff,
    fun index r p hr hp => (hentry index r hr).plays p hp⟩

/-- A load gives every region its entry, and leaves a tidy store. -/
theorem load_settles (hcancel : NeverCancelled decode) (ht : u.Tidy) (id : ℕ) (library : Library)
    {name : String} {instrument : Instrument} (hname : library.instrument? name = some instrument) :
    ∃ store loaded, load decode u.store u.alive id library name = .ok (store, loaded) ∧
      loaded.library = library ∧ loaded.instrument = instrument ∧
      loaded.Aligned (heard decode u) ∧ InUse.Tidy ⟨store, u.holders ++ loaded.holdings⟩ := by
  obtain ⟨store, entries, hload, hsettles, htidy⟩ :=
    loadRegions_settles hcancel library.root instrument.regions ht
  refine ⟨store, ⟨id, library, instrument, entries⟩, ?_, rfl, rfl, ?_, htidy⟩
  · rw [load, hname]
    dsimp only
    rw [hload]
  · exact aligned_of_settled hsettles

theorem tidy_use (hcancel : NeverCancelled decode) (ht : u.Tidy) (next : Use σ) :
    (use decode u next).Tidy := by
  cases next with
  | call call => exact ht.perform call
  | load id library name =>
      rw [use]
      cases hname : library.instrument? name with
      | none =>
          rw [load, hname]
          exact ht
      | some instrument =>
          obtain ⟨store, loaded, hload, -, -, -, htidy⟩ := load_settles hcancel ht id library hname
          rw [hload]
          exact htidy

theorem tidy_after (hcancel : NeverCancelled decode) (ht : u.Tidy) (uses : List (Use σ)) :
    (after decode u uses).Tidy := by
  induction uses generalizing u with
  | nil => exact ht
  | cons next rest ih => exact ih (tidy_use hcancel ht next)

theorem mem_holdings {i : LoadedInstrument σ} {index : ℕ} {r : Region} {p : PlayableRegion σ}
    {path : String} (hr : i.instrument.regions[index]? = some r) (hp : i.region? index = some p)
    (hpath : RelativePath.locate i.library.root r.file.path.text = .ok path) :
    (fileKey path, p.sound) ∈ i.holdings := by
  have hentry : i.regions[index]? = some (some p) := by
    rw [LoadedInstrument.region?] at hp
    exact Option.join_eq_some_iff.mp hp
  refine List.mem_flatten.mpr ⟨[(fileKey path, p.sound)], ?_, List.mem_singleton_self _⟩
  refine List.mem_of_getElem? (i := index) ?_
  rw [List.getElem?_zipWith, hr, hentry]
  simp [holding, hpath]

/-- Instruments whose buffers are held at one time share them. -/
theorem sharesWith_of_held (ht : u.Tidy) {i other : LoadedInstrument σ}
    (hi : i.holdings ⊆ u.holders) (hother : other.holdings ⊆ u.holders) : i.SharesWith other := by
  intro index place r r' p p' path path' hr hp hr' hp' hpath hpath' hkey
  have hmem := hi (mem_holdings hr hp hpath)
  rw [hkey] at hmem
  exact held_unique ht hmem (hother (mem_holdings hr' hp' hpath'))

theorem of_mem_holdings {i : LoadedInstrument σ} {e : FileKey × Sound σ} (h : e ∈ i.holdings) :
    ∃ index r p path, i.instrument.regions[index]? = some r ∧ i.region? index = some p ∧
      RelativePath.locate i.library.root r.file.path.text = .ok path ∧
      e = (fileKey path, p.sound) := by
  obtain ⟨held, hheld, he⟩ := List.mem_flatten.mp h
  obtain ⟨index, hindex⟩ := List.mem_iff_getElem?.mp hheld
  rw [List.getElem?_zipWith] at hindex
  cases hr : i.instrument.regions[index]? with
  | none => simp [hr] at hindex
  | some r =>
      cases hentry : i.regions[index]? with
      | none => simp [hr, hentry] at hindex
      | some entry =>
          have hholding : holding i.library.root r entry = held := by
            simpa [hr, hentry] using hindex
          rw [← hholding] at he
          unfold holding at he
          split at he
          · rename_i path p hpath
            refine ⟨index, r, p, path, hr, ?_, hpath, List.mem_singleton.mp he⟩
            rw [LoadedInstrument.region?, hentry]
            rfl
          · exact absurd he List.not_mem_nil

/-! ## Stores that only decode -/

/-- Whatever is held for a file is what the decoder makes of it. -/
def Faithful (decode : Decoder σ) (u : InUse σ) : Prop :=
  ∀ e ∈ u.holders, ∀ path, fileKey path = e.1 → decode path = .ok e.2.buffer

theorem Faithful.heard_eq (h : Faithful decode u) (ht : u.Tidy) (path : String) :
    heard decode u path = decode path := by
  rw [heard]
  cases hget : u.store.get? u.alive path with
  | none => rfl
  | some sound => exact (h _ (ht.get?_eq_some_iff.mp hget) path rfl).symm

theorem Faithful.append (h : Faithful decode u) {store : SampleStore σ}
    {more : List (FileKey × Sound σ)} (hmore : Faithful decode ⟨store, more⟩) :
    Faithful decode ⟨store, u.holders ++ more⟩ := by
  intro e he
  exact (List.mem_append.mp he).elim (h e) (hmore e)

theorem Faithful.use (h : Faithful decode u) (hcancel : NeverCancelled decode) (ht : u.Tidy)
    (hfiles : ∀ path other, fileKey path = fileKey other → decode path = decode other)
    {next : Use σ} (hnext : ∀ path buffer, next ≠ .call (.insert path buffer)) :
    Faithful decode (use decode u next) := by
  have hone : ∀ (store : SampleStore σ) (path : String) (s : Sound σ),
      decode path = .ok s.buffer → Faithful decode ⟨store, [(fileKey path, s)]⟩ := by
    intro store path s hdecode e he other hkey
    obtain rfl := List.mem_singleton.mp he
    rw [hfiles other path hkey, hdecode]
  cases next with
  | load id library name =>
      rw [Loading.use]
      cases hname : library.instrument? name with
      | none =>
          rw [load, hname]
          exact h
      | some instrument =>
          obtain ⟨store, loaded, hload, -, -, haligned, -⟩ :=
            load_settles hcancel ht id library hname
          rw [hload]
          refine h.append fun e he => ?_
          obtain ⟨index, r, p, path, hr, hp, hpath, rfl⟩ := of_mem_holdings he
          obtain ⟨file, hfile, hheard⟩ := (haligned.plays index r p hr hp).heard
          obtain rfl := Except.ok.inj (hpath.symm.trans hfile)
          rw [h.heard_eq ht] at hheard
          exact hone store path p.sound hheard _ (List.mem_singleton_self _)
  | call call =>
      cases call with
      | insert path buffer => exact absurd rfl (hnext path buffer)
      | get path =>
          rw [Loading.use, InUse.perform]
          cases hget : u.store.get? u.alive path with
          | none => exact h
          | some sound =>
              exact h.append (hone _ path sound (h _ (ht.get?_eq_some_iff.mp hget) path rfl))
      | getOrDecode path =>
          rw [Loading.use, InUse.perform]
          cases hheard : heard decode u path with
          | error e =>
              rw [getOrDecode_of_unheard hheard]
              exact h
          | ok buffer =>
              obtain ⟨store, sound, hgiven, rfl, -⟩ := getOrDecode_of_heard ht hheard
              rw [hgiven]
              rw [h.heard_eq ht] at hheard
              exact h.append (hone store path sound hheard)
      | share holder =>
          have hshared : Faithful decode ⟨u.store, u.holders[holder]?.toList⟩ :=
            fun e he => h e (List.mem_of_getElem? (Option.mem_toList.mp he))
          exact h.append hshared
      | drop holder => exact fun e he => h e ((List.eraseIdx_sublist _ _).subset he)
      | _ => exact h

theorem faithful_after (h : Faithful decode u) (hcancel : NeverCancelled decode) (ht : u.Tidy)
    (hfiles : ∀ path other, fileKey path = fileKey other → decode path = decode other)
    {uses : List (Use σ)} (huses : ∀ path buffer, .call (.insert path buffer) ∉ uses) :
    Faithful decode (after decode u uses) := by
  induction uses generalizing u with
  | nil => exact h
  | cons next rest ih =>
      refine ih (h.use hcancel ht hfiles ?_) (tidy_use hcancel ht next) ?_
      · rintro path buffer rfl
        exact huses path buffer List.mem_cons_self
      · exact fun path buffer hmem => huses path buffer (List.mem_cons_of_mem _ hmem)

end loads

/-- Whatever a store has been used for, an instrument loads through it if there is one
of that name.  Region by region it then has what becomes of that region by itself,
and all regions for one file share its buffer, also with those of instruments that
are loaded while this one is held.  What is heard is what the decoder makes of the
file, unless other buffers were inserted. -/
theorem load_isolates_regions {decode : Decoder σ} (hcancel : NeverCancelled decode)
    (uses : List (Use σ)) (id : ℕ) (library : Library) (name : String) :
    let u := after decode InUse.start uses
    ((∀ i ∈ library.instruments, i.name ≠ name) →
      load decode u.store u.alive id library name = .error (.notFound "instrument" name)) ∧
    ((∃ i ∈ library.instruments, i.name = name) →
      ∃ store loaded, load decode u.store u.alive id library name = .ok (store, loaded) ∧
        loaded.library = library ∧ library.instrument? name = some loaded.instrument ∧
        loaded.Aligned (heard decode u) ∧ loaded.SharesWith loaded ∧
        ∀ more id' library' name' store' other,
          let v := after decode InUse.start (uses ++ .load id library name :: more)
          loaded.holdings ⊆ v.holders →
          load decode v.store v.alive id' library' name' = .ok (store', other) →
          loaded.SharesWith other) ∧
    ((∀ path other, fileKey path = fileKey other → decode path = decode other) →
      (∀ path buffer, .call (.insert path buffer) ∉ uses) →
      ∀ path, heard decode u path = decode path) := by
  intro u
  have ht : u.Tidy := tidy_after hcancel InUse.tidy_start uses
  refine ⟨fun hnone => ?_, fun hsome => ?_, fun hfiles huses path => ?_⟩
  · have hname : library.instrument? name = none := by
      simpa [Library.instrument?] using hnone
    rw [load, hname]
  · have hname : (library.instrument? name).isSome := by
      simpa [Library.instrument?] using hsome
    obtain ⟨instrument, hname⟩ := Option.isSome_iff_exists.mp hname
    obtain ⟨store, loaded, hload, hlibrary, rfl, haligned, htidy⟩ :=
      load_settles hcancel ht id library hname
    refine ⟨store, loaded, hload, hlibrary, hname, haligned, ?_, ?_⟩
    · have hheld : loaded.holdings ⊆ u.holders ++ loaded.holdings := List.subset_append_right _ _
      exact sharesWith_of_held htidy hheld hheld
    · intro more id' library' name' store' other v hheld hload'
      have hv : v.Tidy := tidy_after hcancel InUse.tidy_start _
      cases hname' : library'.instrument? name' with
      | none =>
          rw [load, hname'] at hload'
          cases hload'
      | some instrument' =>
          obtain ⟨_, _, hload'', -, -, -, htidy'⟩ := load_settles hcancel hv id' library' hname'
          obtain ⟨rfl, rfl⟩ := Prod.mk.inj (Except.ok.inj (hload''.symm.trans hload'))
          exact sharesWith_of_held htidy' (List.Subset.trans hheld (List.subset_append_left _ _))
            (List.subset_append_right _ _)
  · have hstart : Faithful decode (InUse.start : InUse σ) := fun e he => absurd he List.not_mem_nil
    exact (faithful_after hstart hcancel InUse.tidy_start hfiles huses).heard_eq ht path

/-- Two spellings of one file share its buffer, and neither a file that is missing nor
a loop that ends behind the audio keeps the regions beside it from sounding. -/
theorem load_isolates_regions_keys :
    let region : String → Option SampleLoop → Region := fun path sampleLoop =>
      { file := { path := ⟨path⟩, sampleLoop } }
    let library : Library := ⟨{}, "/libs/floe.lua", [{ name := "Keys", regions :=
      [region "a.wav" (some ⟨1, -1, 0, false⟩), region "b.wav" none,
        region "a.wav" (some ⟨0, 9, 0, false⟩), region "x/../a.wav" none] }], []⟩
    let decode : Decoder ℕ := fun path =>
      if path = "/libs/a.wav" then .ok (AudioBuffer.ofSamples #[1, 2, 3, 4] 1 1000)
      else .error (.format path)
    NeverCancelled decode ∧ ∃ store loaded,
      load decode .empty (fun _ => false) 0 library "Keys" = .ok (store, loaded) ∧
        (loaded.region? 0).isSome ∧ ¬ (loaded.region? 1).isSome ∧ ¬ (loaded.region? 2).isSome ∧
        (loaded.region? 3).isSome ∧
        ∀ p p', loaded.region? 0 = some p → loaded.region? 3 = some p' → p.sound = p'.sound := by
  intro region library decode
  have hcancel : NeverCancelled decode := by
    intro path name
    simp only [decode]
    split <;> simp
  obtain ⟨-, hload, -⟩ := load_isolates_regions hcancel [] 0 library "Keys"
  obtain ⟨store, loaded, hload, hlibrary, hname, haligned, hshares, -⟩ :=
    hload ⟨_, List.mem_singleton_self _, rfl⟩
  have hroot : loaded.library.root = "/libs" := by
    rw [hlibrary]
    decide
  have hinstrument : loaded.instrument = library.instruments.head (List.cons_ne_nil _ _) :=
    (Option.some.inj hname).symm
  have hcan : ∀ index r, loaded.instrument.regions[index]? = some r →
      ((loaded.region? index).isSome ↔ CanSound decode "/libs" r.file) := by
    intro index r hr
    rw [← hroot]
    exact haligned.playable_iff index r hr
  have hlocate : ∀ path file sampleLoop, RelativePath.locate "/libs" path = .ok file →
      (CanSound decode "/libs" (region path sampleLoop).file ↔ ∃ buffer, decode file = .ok buffer ∧
        ∀ l ∈ sampleLoop, ∃ resolved, l.resolve buffer.frames = .ok resolved) := by
    intro path file sampleLoop hpath
    simp [CanSound, region, hpath]
  rw [hinstrument] at hcan
  have ha : decode "/libs/a.wav" = .ok (AudioBuffer.ofSamples #[1, 2, 3, 4] 1 1000) := if_pos rfl
  have hb : decode "/libs/b.wav" = .error (.format "/libs/b.wav") := if_neg (by decide)
  refine ⟨hcancel, store, loaded, hload, ?_, ?_, ?_, ?_, ?_⟩
  · rw [hcan 0 _ rfl, hlocate _ "/libs/a.wav" _ (by decide)]
    refine ⟨_, ha, fun l hl => ?_⟩
    obtain rfl := Option.some.inj hl
    exact ⟨_, rfl⟩
  · rw [hcan 1 _ rfl, hlocate _ "/libs/b.wav" _ (by decide), hb]
    simp
  · rw [hcan 2 _ rfl, hlocate _ "/libs/a.wav" _ (by decide), ha]
    rintro ⟨buffer, hbuffer, hresolves⟩
    obtain rfl := Except.ok.inj hbuffer
    obtain ⟨resolved, hresolve⟩ := hresolves _ rfl
    cases hresolve
  · rw [hcan 3 _ rfl, hlocate _ "/libs/a.wav" _ (by decide)]
    exact ⟨_, ha, nofun⟩
  · intro p p' hp hp'
    have hregions : loaded.instrument.regions =
        (library.instruments.head (List.cons_ne_nil _ _)).regions :=
      congrArg Instrument.regions hinstrument
    refine hshares 0 3 (region "a.wav" (some ⟨1, -1, 0, false⟩)) (region "x/../a.wav" none) p p'
      "/libs/a.wav" "/libs/a.wav" ?_ hp ?_ hp' ?_ ?_ rfl
    · rw [hregions]
      rfl
    · rw [hregions]
      rfl
    · rw [hroot]
      decide
    · rw [hroot]
      decide

end Loading

end Multisample
