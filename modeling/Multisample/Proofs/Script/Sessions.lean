import Multisample.Proofs.Script.Building

/-!
# Sessions of calls

A script makes calls one after the other, catches the errors, and holds on to the
handles that it is given; between two calls it may do anything but build.  A call
that fails has built nothing, handles keep their meaning, and every library is what
the calls for it alone would have made.
-/

namespace Multisample

namespace Script

open Builtins

/-! ## What handles denote -/

namespace Build

/-- The same build, at most with more libraries, and more in those it had. -/
structure Grows (b later : Build) : Prop where
  scriptPath : later.scriptPath = b.scriptPath
  maxNameBytes : later.maxNameBytes = b.maxNameBytes
  libraries : ∀ (i : ℕ) l, b.libraries[i]? = some l →
    ∃ l', later.libraries[i]? = some l' ∧ l.Grows l'

theorem Grows.refl (b : Build) : b.Grows b :=
  ⟨rfl, rfl, fun _ l hl => ⟨l, hl, .refl l⟩⟩

theorem Grows.trans {b between later : Build} (h : b.Grows between) (h' : between.Grows later) :
    b.Grows later where
  scriptPath := h'.scriptPath.trans h.scriptPath
  maxNameBytes := h'.maxNameBytes.trans h.maxNameBytes
  libraries i l hl := by
    obtain ⟨l', hl', hgrows⟩ := h.libraries i l hl
    obtain ⟨l'', hl'', hgrows'⟩ := h'.libraries i l' hl'
    exact ⟨l'', hl'', hgrows.trans hgrows'⟩

theorem grows_append (b : Build) (more : List Library) :
    b.Grows { b with libraries := b.libraries ++ more } := by
  refine ⟨rfl, rfl, fun i l hl => ⟨l, ?_, .refl l⟩⟩
  rw [List.getElem?_append_left (List.getElem?_eq_some_iff.mp hl).1]
  exact hl

theorem grows_set {b : Build} {k : ℕ} {l later : Library} (hl : b.libraries[k]? = some l)
    (h : l.Grows later) : b.Grows { b with libraries := b.libraries.set k later } := by
  refine ⟨rfl, rfl, fun i m hm => ?_⟩
  by_cases hi : i = k
  · subst hi
    obtain rfl := Option.some.inj (hl.symm.trans hm)
    exact ⟨later, List.getElem?_set_self (List.getElem?_eq_some_iff.mp hl).1, h⟩
  · exact ⟨m, (List.getElem?_set_ne (Ne.symm hi)).trans hm, .refl m⟩

/-- The build that has one library of another, or none, and nothing else. -/
def only (b : Build) (i : ℕ) : Build :=
  { b with libraries := b.libraries[i]?.toList }

end Build

namespace Handle

def Denotes (b : Build) : Handle → Prop
  | library i => ∃ l, b.libraries[i]? = some l
  | instrument i j => ∃ l, b.libraries[i]? = some l ∧ ∃ x, l.instruments[j]? = some x

/-- A handle denotes the same thing in a later build, which has at most more in it. -/
def Keeps (b later : Build) : Handle → Prop
  | library i => ∃ l l', b.libraries[i]? = some l ∧ later.libraries[i]? = some l' ∧ l.Grows l'
  | instrument i j => ∃ l l', b.libraries[i]? = some l ∧ later.libraries[i]? = some l' ∧
      ∃ x x', l.instruments[j]? = some x ∧ l'.instruments[j]? = some x' ∧ x.Grows x'

variable {b later : Build} {h : Handle}

theorem Denotes.keeps (hh : h.Denotes b) (hgrows : b.Grows later) : h.Keeps b later := by
  cases h with
  | library i =>
      obtain ⟨l, hl⟩ := hh
      obtain ⟨l', hl', hgrows⟩ := hgrows.libraries i l hl
      exact ⟨l, l', hl, hl', hgrows⟩
  | instrument i j =>
      obtain ⟨l, hl, x, hx⟩ := hh
      obtain ⟨l', hl', hgrows⟩ := hgrows.libraries i l hl
      obtain ⟨x', hx', hgrows'⟩ := hgrows.instruments j x hx
      exact ⟨l, l', hl, hl', x, x', hx, hx', hgrows'⟩

theorem Keeps.denotes (hh : h.Keeps b later) : h.Denotes later := by
  cases h with
  | library i =>
      obtain ⟨-, l', -, hl', -⟩ := hh
      exact ⟨l', hl'⟩
  | instrument i j =>
      obtain ⟨-, l', -, hl', -, x', -, hx', -⟩ := hh
      exact ⟨l', hl', x', hx'⟩

end Handle

/-! ## Sessions -/

/-- What has been built, and the handles that were given for it, the oldest first. -/
structure Session where
  build : Build
  issued : List Handle

namespace Session

def start (scriptPath : String) (limit : ℕ) : Session where
  build := ⟨scriptPath, limit, []⟩
  issued := []

/-- A call is made; its errors are caught, and the handles that it gives are kept. -/
def perform (s : Session) (c : Call) : Session :=
  match c.outcome s.build with
  | (b, .gives values) => ⟨b, s.issued ++ values.filterMap Value.handle?⟩
  | (b, _) => ⟨b, s.issued⟩

def run (s : Session) (calls : List Call) : Session :=
  calls.foldl perform s

/-- The arguments are plain data, and the script has its handles from the calls before. -/
structure Admits (s : Session) (c : Call) : Prop extends c.Plain where
  known : ∀ h, .handle h ∈ c.arguments → h ∈ s.issued

def AdmitsAll : Session → List Call → Prop
  | _, [] => True
  | s, c :: rest => s.Admits c ∧ (s.perform c).AdmitsAll rest

/-- A call succeeds, and it makes the library at a place or is addressed to it or to
an instrument of it. -/
def concerns (s : Session) (c : Call) (i : ℕ) : Bool :=
  match (c.outcome s.build).2 with
  | .gives values =>
    values.filterMap Value.handle? == [.library i] || c.handle?.any fun h => h.place == i
  | _ => false

/-- The calls that concern one library, each for the first library of a build. -/
def addressed (i : ℕ) : Session → List Call → List Call
  | _, [] => []
  | s, c :: rest =>
    if s.concerns c i then c.movedTo 0 :: addressed i (s.perform c) rest
    else addressed i (s.perform c) rest

/-- The handles denote something, each something else. -/
structure Sound (s : Session) : Prop where
  known : ∀ h ∈ s.issued, h.Denotes s.build
  nodup : s.issued.Nodup

theorem sound_start (scriptPath : String) (limit : ℕ) : (start scriptPath limit).Sound where
  known := nofun
  nodup := List.nodup_nil

/-- A new handle is given for something that no handle denoted. -/
theorem Sound.issue {b : Build} {issued : List Handle} {h : Handle} (hnodup : issued.Nodup)
    (hkeep : ∀ h ∈ issued, h.Denotes b) (hnew : h.Denotes b) (hfresh : h ∉ issued) :
    (Session.mk b (issued ++ [h])).Sound where
  known h' hh' := by
    rcases List.mem_append.mp hh' with hold | hlast
    · exact hkeep h' hold
    · obtain rfl := List.mem_singleton.mp hlast
      exact hnew
  nodup := List.nodup_append.mpr ⟨hnodup, List.pairwise_singleton _ _, by
    rintro old hold _ hlast rfl
    obtain rfl := List.mem_singleton.mp hlast
    exact hfresh hold⟩

/-! ## One call -/

variable {s : Session} {c : Call}

theorem perform_of_gives {b : Build} {values : List Value} (h : c.outcome s.build = (b, .gives values)) :
    s.perform c = ⟨b, s.issued ++ values.filterMap Value.handle?⟩ := by
  rw [perform, h]

theorem concerns_of_gives {b : Build} {values : List Value}
    (h : c.outcome s.build = (b, .gives values)) (i : ℕ) : s.concerns c i =
      (values.filterMap Value.handle? == [.library i] || c.handle?.any fun h => h.place == i) := by
  rw [concerns, h]

/-- Nothing was built, and no error speaks of a stale handle. -/
structure Rests (s : Session) (c : Call) : Prop where
  same : s.perform c = s
  unconcerned : ∀ i, s.concerns c i = false
  own : ∀ e, (c.outcome s.build).2 = .raises e →
    ∀ what, e ≠ .of c.function.name (BuildFault.stale what).message

theorem rests_of_raises {e : Raised} (h : c.outcome s.build = (s.build, .raises e))
    (hown : ∀ what, e ≠ .of c.function.name (BuildFault.stale what).message) : s.Rests c where
  same := by rw [perform, h]
  unconcerned i := by rw [concerns, h]
  own e' he' := by
    rw [h] at he'
    obtain rfl := Conclusion.raises.inj he'
    exact hown

theorem rests_extendTable (hc : c.Plain) (hfunction : c.function = .extendTable) : s.Rests c := by
  obtain ⟨conclusion, houtcome, hmerges, hhandle⟩ := Call.outcome_extendTable hc hfunction s.build
  cases hmerges with
  | table id =>
      refine ⟨?_, fun i => ?_, fun e he => ?_⟩
      · have hnone : [Value.table id].filterMap Value.handle? = [] := rfl
        rw [perform_of_gives houtcome, hnone, List.append_nil]
      · rw [concerns_of_gives houtcome, hhandle id rfl]
        rfl
      · rw [houtcome] at he
        cases he
  | fails hown =>
      have hname : c.function.name = "extend_table" := by
        rw [hfunction]
        rfl
      refine rests_of_raises houtcome fun what => ?_
      rw [hname]
      exact hown.ne_stale _ what
  | refused => exact rests_of_raises houtcome fun what => nofun
  | cutOff =>
      refine ⟨?_, fun i => ?_, fun e he => ?_⟩
      · rw [perform, houtcome]
      · rw [concerns, houtcome]
      · rw [houtcome] at he
        cases he

/-- A library was made; in any other build the call makes the same. -/
structure Opens (s : Session) (c : Call) (info : LibraryInfo) : Prop where
  outcome_eq : c.outcome s.build =
    ({ s.build with libraries := s.build.libraries ++ [{ info, scriptPath := s.build.scriptPath }] },
      .gives [.handle (.library s.build.libraries.length)])
  unaddressed : c.handle? = none
  elsewhere : ∀ t : Session, t.build.maxNameBytes = s.build.maxNameBytes →
    (t.perform (c.movedTo 0)).build = { t.build with
      libraries := t.build.libraries ++ [{ info, scriptPath := t.build.scriptPath }] }

/-- A part was added to the library at place `k`; the call adds the same to the
library that stands first in another build. -/
structure Adds (s : Session) (c : Call) (k : ℕ) (p : Part) (l later : Library)
    (values : List Value) : Prop where
  addressed : ∃ h, c.handle? = some h ∧ h.place = k ∧ p.Fits h
  there : s.build.libraries[k]? = some l
  addTo_eq : p.addTo l k = .ok (later, values)
  outcome_eq : c.outcome s.build =
    ({ s.build with libraries := s.build.libraries.set k later }, .gives values)
  elsewhere : ∀ t : Session, t.build.maxNameBytes = s.build.maxNameBytes →
    t.build.libraries[0]? = some l → (t.perform (c.movedTo 0)).build =
      { t.build with libraries := t.build.libraries.set 0 later }

/-- The handle of an instrument that was added; the other parts have none. -/
theorem issued_of_addTo {l later : Library} {k : ℕ} {p : Part} {values : List Value}
    (h : p.addTo l k = .ok (later, values)) : values.filterMap Value.handle? = [] ∨
      values.filterMap Value.handle? = [.instrument k l.instruments.length] ∧
        ∃ x, p = .instrument x ∧ later.instruments[l.instruments.length]? = some x := by
  rcases Part.addTo_cases h with ⟨i, rfl, rfl, rfl⟩ | ⟨-, -, -, -, -, -, rfl⟩ | ⟨-, -, -, rfl⟩
  · exact Or.inr ⟨rfl, i, rfl, List.getElem?_concat_length⟩
  · exact Or.inl rfl
  · exact Or.inl rfl

theorem Opens.concerns_eq {info : LibraryInfo} (h : s.Opens c info) (i : ℕ) :
    s.concerns c i = decide (i = s.build.libraries.length) := by
  have hnew : [Value.handle (.library s.build.libraries.length)].filterMap Value.handle? =
      [.library s.build.libraries.length] := rfl
  rw [concerns_of_gives h.outcome_eq, h.unaddressed, hnew, Option.any_none, Bool.or_false]
  by_cases hi : i = s.build.libraries.length
  · simp [hi]
  · simp [hi, Ne.symm hi]

theorem Adds.concerns_eq {k : ℕ} {p : Part} {l later : Library} {values : List Value}
    (h : s.Adds c k p l later values) (i : ℕ) : s.concerns c i = decide (i = k) := by
  have hnew : (values.filterMap Value.handle? == [.library i]) = false := by
    rcases issued_of_addTo h.addTo_eq with hnone | ⟨hsome, -⟩
    · rw [hnone]
      rfl
    · rw [hsome]
      rfl
  obtain ⟨_, hhandle, rfl, -⟩ := h.addressed
  rw [concerns_of_gives h.outcome_eq, hnew, hhandle, Bool.false_or, Option.any_some]
  exact decide_eq_decide.mpr eq_comm

theorem opens (hc : c.Plain) {info : LibraryInfo}
    (hr : c.AsksFor s.build.maxNameBytes c.function.name
      (fun i => c.function.run (c.movedTo i).arguments) (.ok (.library info))) : s.Opens c info := by
  have houtcome : ∀ b : Build, b.maxNameBytes = s.build.maxNameBytes → (c.movedTo 0).outcome b =
      ({ b with libraries := b.libraries ++ [{ info, scriptPath := b.scriptPath }] },
        .gives [.handle (.library b.libraries.length)]) :=
    fun b hb => Call.outcome_movedTo hc hr 0 hb
  have hnone := hr.opens info rfl
  have hhere := houtcome s.build rfl
  rw [Call.movedTo_eq (by simp [hnone])] at hhere
  exact ⟨hhere, hnone, fun t ht => by rw [perform_of_gives (houtcome t.build ht)]⟩

/-- The library that a handle leads to, and the instrument that a region is for. -/
theorem exists_library {h : Handle} {p : Part} (hdenotes : h.Denotes s.build) (hfits : p.Fits h) :
    ∃ l, s.build.libraries[h.place]? = some l ∧
      ∀ place r, p = .region place r → ∃ x, l.instruments[place]? = some x := by
  cases h with
  | library i =>
      obtain ⟨l, hl⟩ := hdenotes
      refine ⟨l, hl, ?_⟩
      rintro place r rfl
      obtain ⟨j, ⟨⟩⟩ := hfits
  | instrument i j =>
      obtain ⟨l, hl, x, hx⟩ := hdenotes
      refine ⟨l, hl, ?_⟩
      rintro place r rfl
      obtain ⟨k, ⟨⟩⟩ := hfits
      exact ⟨x, hx⟩

theorem adds_or_rests (hs : s.Sound) (hc : s.Admits c) {p : Part}
    (hr : c.AsksFor s.build.maxNameBytes c.function.name
      (fun i => c.function.run (c.movedTo i).arguments) (.ok (.part p))) :
    s.Rests c ∨ ∃ k l later values, s.Adds c k p l later values := by
  obtain ⟨h, hhandle, hfits⟩ := hr.adds p rfl
  have hissued : h ∈ s.issued := hc.known h (Call.mem_arguments_of_handle? hhandle)
  obtain ⟨l, hl, hplace⟩ := exists_library (hs.known h hissued) hfits
  have hself : c.movedTo h.place = c := by
    refine Call.movedTo_eq fun other hother => ?_
    rw [hhandle] at hother
    obtain rfl := Option.some.inj hother
    rfl
  have hhere := Call.outcome_movedTo hc.toPlain hr h.place rfl
  rw [hself, Build.reply, Build.answer_part hl] at hhere
  cases hadd : p.addTo l h.place with
  | error e =>
      rw [hadd] at hhere
      refine Or.inl (rests_of_raises hhere ((IsOwnText.ne_stale ?_) _))
      -- the handle denotes something, so all that can be wrong is a name
      rcases Part.addTo_error hadd with ⟨kind, name, rfl, hkind⟩ | ⟨place, r, hregion, hnone⟩
      · refine isOwnText_duplicate ?_ name
        rcases hkind with rfl | rfl
        · rfl
        · rfl
      · obtain ⟨x, hx⟩ := hplace place r hregion
        rw [hnone] at hx
        cases hx
  | ok added =>
      obtain ⟨later, values⟩ := added
      rw [hadd] at hhere
      refine Or.inr ⟨h.place, l, later, values, ⟨h, hhandle, rfl, hfits⟩, hl, hadd, hhere,
        fun t ht htl => ?_⟩
      obtain ⟨values', hadd'⟩ := Part.addTo_elsewhere hadd 0
      have hthere := Call.outcome_movedTo hc.toPlain hr 0 ht
      rw [Build.reply, Build.answer_part htl, hadd'] at hthere
      rw [perform_of_gives hthere]

/-- All that a call can do. -/
theorem perform_cases (hs : s.Sound) (hc : s.Admits c) :
    s.Rests c ∨ (∃ info, s.Opens c info) ∨ ∃ k p l later values, s.Adds c k p l later values := by
  by_cases hfunction : c.function = .extendTable
  · exact Or.inl (rests_extendTable hc.toPlain hfunction)
  obtain ⟨r, hr⟩ := Call.exists_asksFor s.build.maxNameBytes hc.toPlain hfunction
  match r with
  | .error message =>
      -- moved to the place where it is, the call is itself
      have houtcome := Call.outcome_movedTo hc.toPlain hr ((c.handle?.map Handle.place).getD 0) rfl
      rw [Call.movedTo_eq (by rintro h hh; simp [hh])] at houtcome
      exact Or.inl (rests_of_raises houtcome ((hr.own message rfl).ne_stale _))
  | .ok (.library info) => exact Or.inr (Or.inl ⟨info, opens hc.toPlain hr⟩)
  | .ok (.part p) =>
      rcases adds_or_rests hs hc hr with hrests | ⟨k, l, later, values, hadds⟩
      · exact Or.inl hrests
      · exact Or.inr (Or.inr ⟨k, p, l, later, values, hadds⟩)

theorem grows_perform (hs : s.Sound) (hc : s.Admits c) : s.build.Grows (s.perform c).build := by
  rcases perform_cases hs hc with hrests | ⟨info, hopens⟩ | ⟨k, p, l, later, values, hadds⟩
  · rw [hrests.same]
    exact .refl _
  · rw [perform_of_gives hopens.outcome_eq]
    exact Build.grows_append _ _
  · rw [perform_of_gives hadds.outcome_eq]
    exact Build.grows_set hadds.there (Part.addTo_grows hadds.addTo_eq)

theorem Sound.perform (hs : s.Sound) (hc : s.Admits c) : (s.perform c).Sound := by
  have hkeep : ∀ h ∈ s.issued, h.Denotes (s.perform c).build := fun h hh =>
    ((hs.known h hh).keeps (grows_perform hs hc)).denotes
  rcases perform_cases hs hc with hrests | ⟨info, hopens⟩ | ⟨k, p, l, later, values, hadds⟩
  · rw [hrests.same]
    exact hs
  · rw [perform_of_gives hopens.outcome_eq] at hkeep ⊢
    refine .issue hs.nodup hkeep ⟨_, List.getElem?_concat_length⟩ fun hh => ?_
    -- no handle was given for a place behind the last library
    obtain ⟨l, hl⟩ := hs.known _ hh
    exact absurd (List.getElem?_eq_some_iff.mp hl).1 (Nat.lt_irrefl _)
  · rw [perform_of_gives hadds.outcome_eq] at hkeep ⊢
    rcases issued_of_addTo hadds.addTo_eq with hnone | ⟨hsome, x, -, hx⟩
    · rw [hnone, List.append_nil]
      exact ⟨hkeep, hs.nodup⟩
    · rw [hsome]
      have hplace := (List.getElem?_eq_some_iff.mp hadds.there).1
      refine .issue hs.nodup hkeep ⟨later, List.getElem?_set_self hplace, x, hx⟩ fun hh => ?_
      obtain ⟨l', hl', y, hy⟩ := hs.known _ hh
      obtain rfl := Option.some.inj (hadds.there.symm.trans hl')
      exact absurd (List.getElem?_eq_some_iff.mp hy).1 (Nat.lt_irrefl _)

/-! ## One library by itself -/

theorem only_of_concerned {t : Session} {i : ℕ} (hs : s.Sound) (hc : s.Admits c)
    (ht : t.build = s.build.only i) (hi : s.concerns c i = true) :
    (t.perform (c.movedTo 0)).build = (s.perform c).build.only i := by
  have hlimit : t.build.maxNameBytes = s.build.maxNameBytes := by
    rw [ht, Build.only]
  rcases perform_cases hs hc with hrests | ⟨info, hopens⟩ | ⟨k, p, l, later, values, hadds⟩
  · rw [hrests.unconcerned i] at hi
    cases hi
  · rw [hopens.concerns_eq i, decide_eq_true_eq] at hi
    subst hi
    -- the place of the new library was empty, so the other build was, too
    rw [hopens.elsewhere t hlimit, perform_of_gives hopens.outcome_eq, ht]
    simp [Build.only]
  · rw [hadds.concerns_eq i, decide_eq_true_eq] at hi
    subst hi
    have hfirst : t.build.libraries = [l] := by
      rw [ht, Build.only, hadds.there]
      rfl
    have hplace := (List.getElem?_eq_some_iff.mp hadds.there).1
    rw [hadds.elsewhere t hlimit (by rw [hfirst]; rfl), perform_of_gives hadds.outcome_eq, hfirst, ht]
    simp [Build.only, List.getElem?_set_self hplace]

theorem only_of_unconcerned {i : ℕ} (hs : s.Sound) (hc : s.Admits c)
    (hi : s.concerns c i = false) : (s.perform c).build.only i = s.build.only i := by
  rcases perform_cases hs hc with hrests | ⟨info, hopens⟩ | ⟨k, p, l, later, values, hadds⟩
  · rw [hrests.same]
  · rw [hopens.concerns_eq i, decide_eq_false_iff_not] at hi
    rw [perform_of_gives hopens.outcome_eq, Build.only, Build.only]
    have hsame : (s.build.libraries ++ [({ info, scriptPath := s.build.scriptPath } : Library)])[i]? =
        s.build.libraries[i]? := by
      grind
    rw [hsame]
  · rw [hadds.concerns_eq i, decide_eq_false_iff_not] at hi
    rw [perform_of_gives hadds.outcome_eq, Build.only, Build.only, List.getElem?_set_ne (Ne.symm hi)]

/-! ## Runs -/

theorem AdmitsAll.sound {calls : List Call} (hs : s.Sound) (h : s.AdmitsAll calls) :
    (s.run calls).Sound := by
  induction calls generalizing s with
  | nil => exact hs
  | cons c rest ih => exact ih (hs.perform h.1) h.2

theorem AdmitsAll.grows {calls : List Call} (hs : s.Sound) (h : s.AdmitsAll calls) :
    s.build.Grows (s.run calls).build := by
  induction calls generalizing s with
  | nil => exact .refl _
  | cons c rest ih => exact (grows_perform hs h.1).trans (ih (hs.perform h.1) h.2)

theorem admitsAll_append {before after : List Call} :
    s.AdmitsAll (before ++ after) ↔ s.AdmitsAll before ∧ (s.run before).AdmitsAll after := by
  induction before generalizing s with
  | nil => exact ⟨fun h => ⟨trivial, h⟩, And.right⟩
  | cons c rest ih => rw [List.cons_append, AdmitsAll, AdmitsAll, ih, and_assoc]; rfl

theorem run_append (s : Session) (before after : List Call) :
    s.run (before ++ after) = (s.run before).run after :=
  List.foldl_append

/-- The invariant is that the session on the left has the one library. -/
theorem run_addressed {calls : List Call} {t : Session} {i : ℕ} (hs : s.Sound)
    (h : s.AdmitsAll calls) (ht : t.build = s.build.only i) :
    (t.run (addressed i s calls)).build = (s.run calls).build.only i := by
  induction calls generalizing s t with
  | nil => exact ht
  | cons c rest ih =>
      rw [addressed]
      cases hi : s.concerns c i with
      | true => exact ih (hs.perform h.1) h.2 (only_of_concerned hs h.1 ht hi)
      | false => exact ih (hs.perform h.1) h.2 (ht.trans (only_of_unconcerned hs h.1 hi).symm)

/-! ## What scripts can rely on -/

/-- A call that does not succeed has built nothing and given no handle; no handle is
found to be stale; and the handle of an instrument comes from a call for its library. -/
structure Behaves (s : Session) (c : Call) : Prop where
  fails : (∀ values, (c.outcome s.build).2 ≠ .gives values) →
    (c.outcome s.build).1 = s.build ∧ s.perform c = s
  fresh : ∀ what, (c.outcome s.build).2 ≠
    .raises (.of c.function.name (BuildFault.stale what).message)
  created : ∀ i j, .instrument i j ∈ (s.perform c).issued →
    .instrument i j ∈ s.issued ∨ c.handle? = some (.library i)

theorem perform_build (s : Session) (c : Call) : (s.perform c).build = (c.outcome s.build).1 := by
  rw [perform]
  split
  · next h => rw [h]
  · next h => rw [h]

theorem behaves (hs : s.Sound) (hc : s.Admits c) : s.Behaves c := by
  rcases perform_cases hs hc with hrests | ⟨info, hopens⟩ | ⟨k, p, l, later, values, hadds⟩
  · refine ⟨fun _ => ⟨?_, hrests.same⟩, fun what h => hrests.own _ h what rfl, fun i j h => ?_⟩
    · rw [← perform_build, hrests.same]
    · rw [hrests.same] at h
      exact Or.inl h
  · refine ⟨fun h => absurd (congrArg Prod.snd hopens.outcome_eq) (h _), ?_, fun i j h => ?_⟩
    · rw [hopens.outcome_eq]
      exact nofun
    · rw [perform_of_gives hopens.outcome_eq] at h
      rcases List.mem_append.mp h with hold | hnew
      · exact Or.inl hold
      · cases List.mem_singleton.mp hnew
  · refine ⟨fun h => absurd (congrArg Prod.snd hadds.outcome_eq) (h _), ?_, fun i j h => ?_⟩
    · rw [hadds.outcome_eq]
      exact nofun
    · rw [perform_of_gives hadds.outcome_eq] at h
      obtain ⟨g, hhandle, hplace, hfits⟩ := hadds.addressed
      rcases List.mem_append.mp h with hold | hnew
      · exact Or.inl hold
      rcases issued_of_addTo hadds.addTo_eq with hnone | ⟨hsome, x, rfl, -⟩
      · rw [hnone] at hnew
        cases hnew
      · rw [hsome] at hnew
        obtain ⟨⟨⟩⟩ := List.mem_singleton.mp hnew
        obtain ⟨n, rfl⟩ := hfits
        subst hplace
        exact Or.inr hhandle

/-- Calls do what they say or nothing, handles go on to denote what they denoted, and
the library of a handle is the one library that the calls for it alone would make. -/
theorem run_keeps_libraries_apart (scriptPath : String) (limit : ℕ) (calls : List Call)
    (h : (start scriptPath limit).AdmitsAll calls) :
    (∀ before c after, calls = before ++ c :: after →
      ((start scriptPath limit).run before).Behaves c) ∧
    (∀ before after, calls = before ++ after →
      ∀ g ∈ ((start scriptPath limit).run before).issued,
        g.Keeps ((start scriptPath limit).run before).build
          ((start scriptPath limit).run calls).build) ∧
    ((start scriptPath limit).run calls).issued.Nodup ∧
    ∀ i, .library i ∈ ((start scriptPath limit).run calls).issued →
      ∃ l, ((start scriptPath limit).run calls).build.libraries[i]? = some l ∧
        ((start scriptPath limit).run (addressed i (start scriptPath limit) calls)).build =
          ⟨scriptPath, limit, [l]⟩ := by
  have hstart := sound_start scriptPath limit
  refine ⟨?_, ?_, (h.sound hstart).nodup, fun i hi => ?_⟩
  · rintro before c after rfl
    obtain ⟨hbefore, hc, -⟩ := admitsAll_append.mp h
    exact behaves (hbefore.sound hstart) hc
  · rintro before after rfl g hg
    obtain ⟨hbefore, hafter⟩ := admitsAll_append.mp h
    have hs := hbefore.sound hstart
    rw [run_append]
    exact (hs.known g hg).keeps (hafter.grows hs)
  · obtain ⟨l, hl⟩ := (h.sound hstart).known _ hi
    refine ⟨l, hl, ?_⟩
    have hnone : (start scriptPath limit).build = (start scriptPath limit).build.only i := rfl
    have hgrows := h.grows hstart
    rw [run_addressed hstart h hnone, Build.only, hl, hgrows.scriptPath, hgrows.maxNameBytes]
    rfl

end Session

/-! ## An orchestra -/

namespace Orchestra

def tableOf (entries : List (String × Value)) : Table :=
  entries.foldl (fun t entry => t.set (.ofString entry.1) entry.2) {}

/-- Tables for a library, an instrument and a region. -/
def world : World where
  heap := { tables := #[{},
    tableOf [("name", .ofString "Strings"), ("tagline", .ofString "warm"),
      ("author", .ofString "nobody")],
    tableOf [("name", .ofString "Violin")],
    tableOf [("file", .table 4)],
    tableOf [("path", .ofString "violin.wav"), ("root_key", .ofNat 62)]] }
  build := ⟨"orchestra.lua", 100, []⟩
  watchdog := { limit := 1 }

def state : Machine.State :=
  ⟨.values [], {}, [], world, "orchestra", 0⟩

/-- Calls end at once; the interpreter provides the memory. -/
def surroundings : Surroundings where
  call w _ _ := (w, .ok [])
  provide w bytes :=
    let (later, granted) := Machine.State.provide { state with world := w } bytes
    (later.world, granted)

def call (function : Builder) (arguments : List Value) : Call :=
  ⟨function, arguments, {}, surroundings, world⟩

theorem noMetatables : ∀ t ∈ world.heap.tables, t.metatable = none := by
  decide +kernel

theorem inTime : world.checkWatchdog.watchdog.tripped = none :=
  rfl

theorem plain (function : Builder) (arguments : List Value) : (call function arguments).Plain where
  inert id _ := ⟨_, ⟨id, rfl⟩, World.inert_of_noMetatables noMetatables⟩
  inTime := inTime
  memory w bytes := Machine.State.provide_world { state with world := w } bytes

def violin (library : ℕ) : Call :=
  call .newInstrument [.handle (.library library), .table 2]

/-- A violin for each of two libraries, and one more that is refused. -/
def calls : List Call :=
  [call .newLibrary [.table 1], call .newLibrary [.table 1], violin 1, violin 0, violin 1,
    call .extendTable [.table 1, .table 2], call .addRegion [.handle (.instrument 1 0), .table 3]]

def tuned : Session :=
  (Session.start "orchestra.lua" 100).run (calls.take 4)

/-- Whether every handle in the arguments was given by a call before. -/
def knowsHandles : Session → List Call → Bool
  | _, [] => true
  | s, c :: rest =>
    (c.arguments.filterMap Value.handle?).all (· ∈ s.issued) && knowsHandles (s.perform c) rest

theorem admitsAll_of_knowsHandles {s : Session} {calls : List Call} (hplain : ∀ c ∈ calls, c.Plain)
    (h : knowsHandles s calls = true) : s.AdmitsAll calls := by
  induction calls generalizing s with
  | nil => trivial
  | cons c rest ih =>
      obtain ⟨hknown, hrest⟩ := Bool.and_eq_true_iff.mp h
      obtain ⟨hc, hplain⟩ := List.forall_mem_cons.mp hplain
      refine ⟨⟨hc, fun g hg => ?_⟩, ih hplain hrest⟩
      have hmem : g ∈ c.arguments.filterMap Value.handle? :=
        List.mem_filterMap.mpr ⟨.handle g, hg, rfl⟩
      exact of_decide_eq_true (List.all_eq_true.mp hknown g hmem)

theorem admitted : (Session.start "orchestra.lua" 100).AdmitsAll calls := by
  refine admitsAll_of_knowsHandles ?_ (by decide +kernel)
  simp only [calls, List.forall_mem_cons]
  exact ⟨plain _ _, plain _ _, plain _ _, plain _ _, plain _ _, plain _ _, plain _ _, nofun⟩

def isRaised : Conclusion (List Value) → Bool
  | .raises _ => true
  | _ => false

theorem violin_refused : ∀ values, ((violin 1).outcome tuned.build).2 ≠ .gives values := by
  intro values hgives
  have hraised : isRaised ((violin 1).outcome tuned.build).2 = true := by decide +kernel
  rw [hgives] at hraised
  cases hraised

end Orchestra

namespace Session

/-- The violin that is refused changes nothing, and the library with the other one is
what the calls for it make. -/
theorem run_keeps_libraries_apart_orchestra :
    (start "orchestra.lua" 100).AdmitsAll Orchestra.calls ∧
    Orchestra.tuned.perform (Orchestra.violin 1) = Orchestra.tuned ∧
    ∃ l, ((start "orchestra.lua" 100).run Orchestra.calls).build.libraries[1]? = some l ∧
      ((start "orchestra.lua" 100).run
        (addressed 1 (start "orchestra.lua" 100) Orchestra.calls)).build =
          ⟨"orchestra.lua", 100, [l]⟩ := by
  obtain ⟨hcalls, -, -, hlibraries⟩ := run_keeps_libraries_apart "orchestra.lua" 100 Orchestra.calls
    Orchestra.admitted
  have hrefused := hcalls (Orchestra.calls.take 4) (Orchestra.violin 1) (Orchestra.calls.drop 5) rfl
  have hgiven : .library 1 ∈ ((start "orchestra.lua" 100).run Orchestra.calls).issued := by
    decide +kernel
  exact ⟨Orchestra.admitted, (hrefused.fails Orchestra.violin_refused).2, hlibraries 1 hgiven⟩

end Session

end Script

end Multisample
