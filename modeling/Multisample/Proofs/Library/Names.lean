import Mathlib.Data.List.Induction
import Mathlib.Data.List.Nodup
import Multisample.Library.Preparation
import Multisample.Proofs.Script.Requests

/-!
# Names that stay unique

A library takes an element only under a name that no element of that kind has.
So names stay unique whatever is added, an index that was given keeps its
meaning, and the second look at the names, before the library is prepared, finds
nothing.
-/

namespace Multisample

/-! ## Lists of things with names -/

section Named

variable {α : Type} (name : α → String) {xs : List α}

theorem find?_name_isSome {text : String} :
    (xs.find? fun x => name x == text).isSome = true ↔ text ∈ xs.map name := by
  simp [List.find?_isSome]

variable {name}

theorem find?_name_eq_some_iff (h : (xs.map name).Nodup) {text : String} {x : α} :
    xs.find? (fun x => name x == text) = some x ↔ x ∈ xs ∧ name x = text := by
  constructor
  · intro hfind
    exact ⟨List.mem_of_find?_eq_some hfind, by simpa using List.find?_some hfind⟩
  · rintro ⟨hmem, rfl⟩
    obtain ⟨y, hy⟩ := Option.isSome_iff_exists.mp
      ((find?_name_isSome name).mpr (List.mem_map_of_mem hmem))
    have hname : name y = name x := by simpa using List.find?_some hy
    rw [hy, List.inj_on_of_nodup_map h (List.mem_of_find?_eq_some hy) hmem hname]

theorem findIdx?_name_eq_some_iff (h : (xs.map name).Nodup) {text : String} {n : ℕ} :
    xs.findIdx? (fun x => name x == text) = some n ↔ xs[n]?.map name = some text := by
  rw [List.findIdx?_eq_some_iff_getElem]
  constructor
  · rintro ⟨hn, hname, -⟩
    simpa [hn] using hname
  · intro hname
    obtain ⟨x, hx, rfl⟩ := Option.map_eq_some_iff.mp hname
    obtain ⟨hn, rfl⟩ := List.getElem?_eq_some_iff.mp hx
    refine ⟨hn, by simp, fun j hj hsame => ?_⟩
    have hplace : (xs.map name)[j]? = (xs.map name)[n]? := by
      simpa [hn, Nat.lt_trans hj hn] using hsame
    have hlt : j < (xs.map name).length := by simpa using Nat.lt_trans hj hn
    exact Nat.ne_of_lt hj ((List.getElem?_inj hlt h).mp hplace)

theorem nodup_map_concat (h : (xs.map name).Nodup) {x : α} (hx : name x ∉ xs.map name) :
    ((xs ++ [x]).map name).Nodup := by
  rw [List.map_append, List.map_singleton, ← List.concat_eq_append]
  exact h.concat hx

theorem firstDuplicate?_eq_none_iff {seen names : List String} :
    firstDuplicate? seen names = none ↔ names.Nodup ∧ ∀ text ∈ names, text ∉ seen := by
  induction names generalizing seen with
  | nil => simp [firstDuplicate?]
  | cons first names ih =>
      rw [firstDuplicate?]
      split
      · rename_i hseen
        simp [hseen]
      · rename_i hnew
        rw [ih, List.nodup_cons, List.forall_mem_cons]
        simp only [List.mem_cons, not_or]
        constructor
        · rintro ⟨hnodup, hrest⟩
          exact ⟨⟨fun hmem => (hrest first hmem).1 rfl, hnodup⟩, hnew, fun t ht => (hrest t ht).2⟩
        · rintro ⟨⟨hfirst, hnodup⟩, -, hrest⟩
          exact ⟨hnodup, fun t ht => ⟨fun heq => hfirst (heq ▸ ht), hrest t ht⟩⟩

end Named

namespace Library

open Script (Part)

/-! ## What a name leads to -/

def instrumentNames (l : Library) : List String :=
  l.instruments.map fun i => i.name

def responseNames (l : Library) : List String :=
  l.responses.map fun r => r.name

/-- Of each kind, a name leads to the one element that has it. -/
structure NamesLead (l : Library) : Prop where
  instruments : l.instrumentNames.Nodup
  responses : l.responseNames.Nodup
  index : ∀ text n,
    l.instrumentIndex? text = some n ↔ l.instruments[n]?.map (fun i => i.name) = some text
  instrument : ∀ text i, l.instrument? text = some i ↔ i ∈ l.instruments ∧ i.name = text
  response : ∀ text r, l.response? text = some r ↔ r ∈ l.responses ∧ r.name = text

theorem namesLead_iff {l : Library} :
    l.NamesLead ↔ l.instrumentNames.Nodup ∧ l.responseNames.Nodup := by
  constructor
  · exact fun h => ⟨h.instruments, h.responses⟩
  · rintro ⟨hinstruments, hresponses⟩
    exact ⟨hinstruments, hresponses, fun _ _ => findIdx?_name_eq_some_iff hinstruments,
      fun _ _ => find?_name_eq_some_iff hinstruments, fun _ _ => find?_name_eq_some_iff hresponses⟩

/-! ## Adding -/

theorem addInstrument_eq (l : Library) (i : Instrument) :
    l.addInstrument i = if i.name ∈ l.instrumentNames then .error ⟨"instrument", i.name⟩
      else .ok ({ l with instruments := l.instruments ++ [i] }, l.instruments.length) := by
  rw [addInstrument, instrument?]
  simp only [find?_name_isSome fun i : Instrument => i.name]
  rfl

theorem addResponse_eq (l : Library) (r : ImpulseResponse) :
    l.addResponse r = if r.name ∈ l.responseNames then .error ⟨"impulse response", r.name⟩
      else .ok ({ l with responses := l.responses ++ [r] }, l.responses.length) := by
  rw [addResponse, response?]
  simp only [find?_name_isSome fun r : ImpulseResponse => r.name]
  rfl

/-- The library with a part added, unchanged where the part is refused; that it
is said to be the first library makes no difference. -/
def plus (l : Library) (p : Part) : Library :=
  match p.addTo l 0 with
  | .ok (later, _) => later
  | .error _ => l

theorem plus_instrument (l : Library) (i : Instrument) :
    l.plus (.instrument i) = if i.name ∈ l.instrumentNames then l
      else { l with instruments := l.instruments ++ [i] } := by
  rw [plus, Part.addTo, addInstrument_eq]
  by_cases htaken : i.name ∈ l.instrumentNames <;> simp [htaken]

theorem plus_response (l : Library) (r : ImpulseResponse) :
    l.plus (.response r) = if r.name ∈ l.responseNames then l
      else { l with responses := l.responses ++ [r] } := by
  rw [plus, Part.addTo, addResponse_eq]
  by_cases htaken : r.name ∈ l.responseNames <;> simp [htaken]

def plusAll (l : Library) (parts : List Part) : Library :=
  parts.foldl plus l

/-- The parts that are not refused when they are added one after the other. -/
def taken (l : Library) : List Part → List Part
  | [] => []
  | p :: rest => (if (p.addTo l 0).isOk then [p] else []) ++ taken (l.plus p) rest

variable {l : Library} {parts : List Part} {p : Part}

theorem plusAll_append (l : Library) (parts more : List Part) :
    l.plusAll (parts ++ more) = (l.plusAll parts).plusAll more :=
  List.foldl_append

theorem plusAll_concat (l : Library) (parts : List Part) (p : Part) :
    l.plusAll (parts ++ [p]) = (l.plusAll parts).plus p :=
  plusAll_append l parts [p]

theorem taken_append (l : Library) (parts more : List Part) :
    l.taken (parts ++ more) = l.taken parts ++ (l.plusAll parts).taken more := by
  induction parts generalizing l with
  | nil => rfl
  | cons p parts ih =>
      rw [List.cons_append, taken, ih, taken, List.append_assoc]
      rfl

theorem plus_grows (l : Library) (p : Part) : l.Grows (l.plus p) := by
  unfold plus
  split
  · rename_i later values h
    exact Part.addTo_grows h
  · exact .refl l

theorem plusAll_grows (l : Library) (parts : List Part) : l.Grows (l.plusAll parts) := by
  induction parts generalizing l with
  | nil => exact .refl l
  | cons p parts ih => exact (plus_grows l p).trans (ih (l.plus p))

/-- All that adding a part can do. -/
theorem plus_cases (l : Library) (p : Part) :
    ((p.addTo l 0).isOk = false ∧ l.plus p = l) ∨
    ((p.addTo l 0).isOk = true ∧
      ((∃ i, p = .instrument i ∧ i.name ∉ l.instrumentNames ∧
        l.plus p = { l with instruments := l.instruments ++ [i] }) ∨
      (∃ r, p = .response r ∧ r.name ∉ l.responseNames ∧
        l.plus p = { l with responses := l.responses ++ [r] }) ∨
      ∃ place r i, p = .region place r ∧ l.instruments[place]? = some i ∧
        l.plus p = { l with
          instruments := l.instruments.set place { i with regions := i.regions ++ [r] } })) := by
  cases p with
  | instrument i =>
      rw [plus_instrument, Part.addTo, addInstrument_eq]
      by_cases htaken : i.name ∈ l.instrumentNames <;> simp [htaken, Except.isOk, Except.toBool]
  | response r =>
      rw [plus_response, Part.addTo, addResponse_eq]
      by_cases htaken : r.name ∈ l.responseNames <;> simp [htaken, Except.isOk, Except.toBool]
  | region place r =>
      simp only [plus, Part.addTo, addRegion?]
      cases hplace : l.instruments[place]? with
      | none => simp [Except.isOk, Except.toBool]
      | some i => simp [Except.isOk, Except.toBool, hplace]

theorem instrumentNames_set {place : ℕ} {i : Instrument} (h : l.instruments[place]? = some i)
    (regions : List Region) :
    instrumentNames { l with instruments := l.instruments.set place { i with regions } } =
      l.instrumentNames := by
  obtain ⟨hlt, rfl⟩ := List.getElem?_eq_some_iff.mp h
  calc (l.instruments.set place { l.instruments[place] with regions }).map (fun i => i.name)
      = (l.instruments.set place l.instruments[place]).map fun i => i.name := by
        rw [List.map_set, List.map_set]
    _ = l.instrumentNames := by
        rw [List.set_getElem_self, instrumentNames]

theorem plus_namesLead (h : l.NamesLead) (p : Part) : (l.plus p).NamesLead := by
  rw [namesLead_iff]
  rcases plus_cases l p with
    ⟨-, heq⟩ | ⟨-, ⟨i, -, hi, heq⟩ | ⟨r, -, hr, heq⟩ | ⟨place, r, i, -, hplace, heq⟩⟩ <;> rw [heq]
  · exact namesLead_iff.mp h
  · exact ⟨nodup_map_concat h.instruments hi, h.responses⟩
  · exact ⟨h.instruments, nodup_map_concat h.responses hr⟩
  · exact ⟨instrumentNames_set hplace _ ▸ h.instruments, h.responses⟩

theorem plusAll_namesLead (h : l.NamesLead) (parts : List Part) : (l.plusAll parts).NamesLead := by
  induction parts generalizing l with
  | nil => exact h
  | cons p parts ih => exact ih (plus_namesLead h p)

/-! ## What has been added -/

def instrumentOf? : Part → Option Instrument
  | .instrument i => some i
  | _ => none

def responseOf? : Part → Option ImpulseResponse
  | .response r => some r
  | _ => none

def regionOf? (place : ℕ) : Part → Option Region
  | .region other r => if other = place then some r else none
  | _ => none

/-- A library holds the instruments and the impulse responses of some parts in
their order, and each instrument ends in the regions that are for it. -/
structure Holds (l : Library) (parts : List Part) : Prop where
  instruments : l.instruments = (parts.filterMap instrumentOf?).mapIdx fun n i =>
    { i with regions := i.regions ++ parts.filterMap (regionOf? n) }
  responses : l.responses = parts.filterMap responseOf?

/-- No region is for an instrument that is not there. -/
def RegionsFit (parts : List Part) : Prop :=
  ∀ n, (parts.filterMap instrumentOf?).length ≤ n → parts.filterMap (regionOf? n) = []

theorem holds_concat (h : l.Holds parts) (hfit : RegionsFit parts)
    (hok : (p.addTo l 0).isOk = true) :
    (l.plus p).Holds (parts ++ [p]) ∧ RegionsFit (parts ++ [p]) := by
  rcases plus_cases l p with
    ⟨hrefused, -⟩ | ⟨-, ⟨i, rfl, hi, heq⟩ | ⟨r, rfl, hr, heq⟩ | ⟨place, r, i, rfl, hplace, heq⟩⟩
  · rw [hrefused] at hok
    cases hok
  · rw [heq]
    refine ⟨⟨?_, ?_⟩, fun n hn => ?_⟩
    · have hnone := hfit _ (Nat.le_refl _)
      simp [List.filterMap_cons, instrumentOf?, regionOf?, hnone, h.instruments]
    · simp [responseOf?, h.responses]
    · rw [List.filterMap_append, List.length_append] at hn
      simp [List.filterMap_cons, regionOf?, hfit n (by omega)]
  · rw [heq]
    refine ⟨⟨?_, ?_⟩, fun n hn => ?_⟩
    · simp [List.filterMap_cons, instrumentOf?, regionOf?, h.instruments]
    · simp [responseOf?, h.responses]
    · rw [List.filterMap_append, List.length_append] at hn
      simp [List.filterMap_cons, regionOf?, hfit n (by omega)]
  · rw [h.instruments, List.getElem?_mapIdx, Option.map_eq_some_iff] at hplace
    obtain ⟨added, hadded, rfl⟩ := hplace
    obtain ⟨hlt, rfl⟩ := List.getElem?_eq_some_iff.mp hadded
    rw [heq]
    refine ⟨⟨List.ext_getElem? fun n => ?_, ?_⟩, fun n hn => ?_⟩
    · by_cases hn : place = n
      · subst hn
        simp [List.filterMap_cons, instrumentOf?, regionOf?, h.instruments, hlt]
      · simp [List.filterMap_cons, instrumentOf?, regionOf?, h.instruments, hn]
    · simp [responseOf?, h.responses]
    · rw [List.filterMap_append, List.length_append] at hn
      have hne : place ≠ n := by omega
      simp [regionOf?, hfit n (by omega), hne]

/-- What a library holds that was empty at first are the parts that were not refused. -/
theorem plusAll_holds (h : l.Holds []) (parts : List Part) :
    (l.plusAll parts).Holds (l.taken parts) ∧ RegionsFit (l.taken parts) := by
  -- From the last part: the index of an instrument counts what was added before it.
  induction parts using List.reverseRecOn with
  | nil => exact ⟨h, fun _ _ => rfl⟩
  | append_singleton parts p ih =>
      rw [plusAll_concat, taken_append, taken, taken, List.append_nil]
      cases hok : (p.addTo (l.plusAll parts) 0).isOk with
      | true => exact holds_concat ih.1 ih.2 hok
      | false =>
          rcases plus_cases (l.plusAll parts) p with ⟨-, heq⟩ | ⟨htrue, -⟩
          · simpa [heq] using ih
          · rw [hok] at htrue
            cases htrue

/-! ## Preparing -/

theorem prepare_eq_ok (h : l.NamesLead) :
    l.prepare = .ok { l with instruments := l.instruments.map Instrument.prepare } := by
  have hinstruments := firstDuplicate?_eq_none_iff.mpr
    ⟨h.instruments, fun _ _ => List.not_mem_nil⟩
  have hresponses := firstDuplicate?_eq_none_iff.mpr ⟨h.responses, fun _ _ => List.not_mem_nil⟩
  rw [instrumentNames] at hinstruments
  rw [responseNames] at hresponses
  rw [prepare, checkNames, hinstruments, hresponses]
  rfl

/-- A prepared library has the names of the one that it was made from, in their order, and what a
name leads to is prepared. -/
structure Prepares (l prepared : Library) : Prop where
  leads : prepared.NamesLead
  instruments : prepared.instruments = l.instruments.map Instrument.prepare
  instrumentNames : prepared.instrumentNames = l.instrumentNames
  responses : prepared.responses = l.responses
  index : ∀ text, prepared.instrumentIndex? text = l.instrumentIndex? text
  instrument : ∀ text, prepared.instrument? text = (l.instrument? text).map Instrument.prepare

theorem prepares (h : l.NamesLead) :
    Prepares l { l with instruments := l.instruments.map Instrument.prepare } := by
  have hnames : instrumentNames { l with instruments := l.instruments.map Instrument.prepare } =
      l.instrumentNames := by
    rw [instrumentNames, List.map_map]
    rfl
  exact {
    leads := namesLead_iff.mpr ⟨hnames ▸ h.instruments, h.responses⟩
    instruments := rfl
    instrumentNames := hnames
    responses := rfl
    index := fun text => by
      rw [instrumentIndex?, List.findIdx?_map]
      rfl
    instrument := fun text => by
      rw [instrument?, List.find?_map]
      rfl }

/-! ## Whatever is added -/

/-- An element is admitted to a library exactly if its name is free among those of its kind. It is
then given an index, which goes on to lead to it; otherwise nothing happens. -/
structure Admits (now : Library) (kind name : String) (names : List String)
    (given : Except DuplicateName (Library × ℕ)) (next : Library) (Leads : ℕ → Prop) : Prop where
  refused : name ∈ names → given = .error ⟨kind, name⟩ ∧ next = now
  admitted : name ∉ names → given = .ok (next, names.length) ∧ Leads names.length

/-- What holds of a library in which nothing was at first, whatever parts are added to it. -/
structure NamesStay (start : Library) (parts : List Part) : Prop where
  leads : (start.plusAll parts).NamesLead
  holds : (start.plusAll parts).Holds (start.taken parts)
  instrument : ∀ before i after, parts = before ++ .instrument i :: after →
    (start.plusAll before).Admits "instrument" i.name (start.plusAll before).instrumentNames
      ((start.plusAll before).addInstrument i) (start.plusAll (before ++ [.instrument i]))
      fun n => ∃ later, (start.plusAll parts).instruments[n]? = some later ∧ i.Grows later
  response : ∀ before r after, parts = before ++ .response r :: after →
    (start.plusAll before).Admits "impulse response" r.name (start.plusAll before).responseNames
      ((start.plusAll before).addResponse r) (start.plusAll (before ++ [.response r]))
      fun n => (start.plusAll parts).responses[n]? = some r
  prepares : ∃ prepared, (start.plusAll parts).prepare = .ok prepared ∧
    (start.plusAll parts).Prepares prepared

theorem admits_instrument (l : Library) (i : Instrument) (after : List Part) :
    l.Admits "instrument" i.name l.instrumentNames (l.addInstrument i) (l.plus (.instrument i))
      fun n => ∃ later,
        ((l.plus (.instrument i)).plusAll after).instruments[n]? = some later ∧ i.Grows later where
  refused h := by
    rw [addInstrument_eq, if_pos h, plus_instrument, if_pos h]
    exact ⟨rfl, rfl⟩
  admitted h := by
    rw [addInstrument_eq, if_neg h, plus_instrument, if_neg h, instrumentNames, List.length_map]
    exact ⟨rfl, (plusAll_grows _ after).instruments _ i List.getElem?_concat_length⟩

theorem admits_response (l : Library) (r : ImpulseResponse) (after : List Part) :
    l.Admits "impulse response" r.name l.responseNames (l.addResponse r) (l.plus (.response r))
      fun n => ((l.plus (.response r)).plusAll after).responses[n]? = some r where
  refused h := by
    rw [addResponse_eq, if_pos h, plus_response, if_pos h]
    exact ⟨rfl, rfl⟩
  admitted h := by
    rw [addResponse_eq, if_neg h, plus_response, if_neg h, responseNames, List.length_map]
    have hplace : (l.responses ++ [r])[l.responses.length]? = some r := List.getElem?_concat_length
    obtain ⟨hlt, hget⟩ := List.getElem?_eq_some_iff.mp hplace
    exact ⟨rfl, (List.prefix_iff_getElem?.mp (plusAll_grows _ after).responses _ hlt).trans
      (congrArg some hget)⟩

/-- Names stay unique in a library, so preparing it cannot fail.  Whatever is
added to an empty library, names are unique among the instruments and among the
impulse responses, and they lead to what has them.  The library holds what was
not refused; refused is exactly what has the name of something of its kind, and
that changes nothing.  An index that was given keeps its meaning.  The library
can always be prepared, which keeps all of this. -/
theorem names_stay_unique (info : LibraryInfo) (scriptPath : String) (parts : List Part) :
    NamesStay { info, scriptPath } parts := by
  have hempty : NamesLead { info, scriptPath } :=
    namesLead_iff.mpr ⟨List.nodup_nil, List.nodup_nil⟩
  have hleads := plusAll_namesLead hempty parts
  exact {
    leads := hleads
    holds := (plusAll_holds ⟨rfl, rfl⟩ parts).1
    instrument := by
      rintro before i after rfl
      rw [plusAll_concat, plusAll_append _ before (_ :: after)]
      exact admits_instrument _ i after
    response := by
      rintro before r after rfl
      rw [plusAll_concat, plusAll_append _ before (_ :: after)]
      exact admits_response _ r after
    prepares := ⟨_, prepare_eq_ok hleads, prepares hleads⟩ }

/-- An impulse response may have the name of an instrument, another instrument may not. -/
example :
    let l := plusAll { info := {}, scriptPath := "/libs/piano/floe.lua" }
      [.instrument { name := "Hall" }, .response { name := "Hall" }, .instrument { name := "Hall" }]
    (l.instrumentNames, l.responseNames) = (["Hall"], ["Hall"]) := by
  decide

end Library

end Multisample
