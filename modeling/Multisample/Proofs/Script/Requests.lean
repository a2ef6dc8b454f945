import Mathlib.Data.Nat.Notation
import Multisample.Script.Build

/-!
# What a build is asked for

A build is asked for a library, or for a part of one of its libraries.  A part is
added to that library alone; which other libraries there are, and at which place
it stands, does not matter.  What is there stays there: libraries and instruments
only grow.
-/

namespace Multisample

/-- The same instrument, at most with more regions. -/
def Instrument.Grows (i later : Instrument) : Prop :=
  ∃ more, later = { i with regions := i.regions ++ more }

/-- The same library, at most with more in it. -/
structure Library.Grows (l later : Library) : Prop where
  info : later.info = l.info
  scriptPath : later.scriptPath = l.scriptPath
  instruments : ∀ (j : ℕ) (i : Instrument), l.instruments[j]? = some i →
    ∃ i', later.instruments[j]? = some i' ∧ i.Grows i'
  responses : l.responses <+: later.responses

theorem Instrument.Grows.refl (i : Instrument) : i.Grows i :=
  ⟨[], by rw [List.append_nil]⟩

theorem Instrument.Grows.trans {i j k : Instrument} (h : i.Grows j) (h' : j.Grows k) : i.Grows k := by
  obtain ⟨more, rfl⟩ := h
  obtain ⟨more', rfl⟩ := h'
  exact ⟨more ++ more', by rw [List.append_assoc]⟩

theorem Library.Grows.refl (l : Library) : l.Grows l :=
  ⟨rfl, rfl, fun _ i hi => ⟨i, hi, .refl i⟩, List.prefix_rfl⟩

theorem Library.Grows.trans {l m n : Library} (h : l.Grows m) (h' : m.Grows n) : l.Grows n where
  info := h'.info.trans h.info
  scriptPath := h'.scriptPath.trans h.scriptPath
  instruments j i hi := by
    obtain ⟨i', hi', hgrows⟩ := h.instruments j i hi
    obtain ⟨i'', hi'', hgrows'⟩ := h'.instruments j i' hi'
    exact ⟨i'', hi'', hgrows.trans hgrows'⟩
  responses := h.responses.trans h'.responses

namespace Script

/-- What can be added to a library. -/
inductive Part where
  | instrument (i : Instrument)
  | region (instrument : ℕ) (r : Region)
  | response (r : ImpulseResponse)

inductive Request where
  | library (info : LibraryInfo)
  | part (p : Part)

/-- A library with a part added, and what the script is given for it; `index` is
the place of the library. -/
def Part.addTo (l : Library) (index : ℕ) : Part → Except BuildFault (Library × List Value)
  | .instrument i =>
    match l.addInstrument i with
    | .error e => .error (.duplicate e)
    | .ok (l, place) => .ok (l, [.handle (.instrument index place)])
  | .region place r =>
    match l.addRegion? place r with
    | none => .error (.stale "instrument")
    | some l => .ok (l, [])
  | .response r =>
    match l.addResponse r with
    | .error e => .error (.duplicate e)
    | .ok (l, _) => .ok (l, [])

/-- What is said to be stale if there is no library to add a part to. -/
def Part.owner : Part → String
  | .instrument _ | .response _ => "library"
  | .region .. => "instrument"

namespace Build

/-- A build with a request met, and what the script is given; `index` is the
place of the library that a part is for. -/
def answer (b : Build) (index : ℕ) : Request → Except BuildFault (Build × List Value)
  | .library info =>
    .ok ({ b with libraries := b.libraries ++ [{ info, scriptPath := b.scriptPath }] },
      [.handle (.library b.libraries.length)])
  | .part p =>
    match b.libraries[index]? with
    | none => .error (.stale p.owner)
    | some l => (p.addTo l index).map fun (l, values) =>
        ({ b with libraries := b.libraries.set index l }, values)

variable (b : Build) (index : ℕ)

theorem answer_instrument (i : Instrument) : b.answer index (.part (.instrument i)) =
    (b.addInstrument index i).map fun (b, h) => (b, [.handle h]) := by
  unfold answer addInstrument Part.addTo
  cases b.libraries[index]? with
  | none => rfl
  | some l => cases hl : l.addInstrument i <;> simp [hl, Except.map]

theorem answer_region (instrument : ℕ) (r : Region) :
    b.answer index (.part (.region instrument r)) =
      (b.addRegion index instrument r).map fun b => (b, []) := by
  unfold answer addRegion Part.addTo
  cases b.libraries[index]? with
  | none => rfl
  | some l => cases hl : l.addRegion? instrument r <;> simp [hl, Except.map]

theorem answer_response (r : ImpulseResponse) : b.answer index (.part (.response r)) =
    (b.addResponse index r).map fun b => (b, []) := by
  unfold answer addResponse Part.addTo
  cases b.libraries[index]? with
  | none => rfl
  | some l => cases hl : l.addResponse r <;> simp [hl, Except.map]

end Build

theorem Build.answer_part {b : Build} {index : ℕ} {l : Library} (h : b.libraries[index]? = some l)
    (p : Part) : b.answer index (.part p) = (p.addTo l index).map fun (l, values) =>
      ({ b with libraries := b.libraries.set index l }, values) := by
  rw [answer, h]

namespace Part

variable {l later : Library} {index : ℕ} {p : Part} {values : List Value}

/-- All that adding a part can do. -/
theorem addTo_cases (h : p.addTo l index = .ok (later, values)) :
    (∃ i, p = .instrument i ∧ later = { l with instruments := l.instruments ++ [i] } ∧
      values = [.handle (.instrument index l.instruments.length)]) ∨
    (∃ place r i, p = .region place r ∧ l.instruments[place]? = some i ∧
      later = { l with
        instruments := l.instruments.set place { i with regions := i.regions ++ [r] } } ∧
      values = []) ∨
    ∃ r, p = .response r ∧ later = { l with responses := l.responses ++ [r] } ∧ values = [] := by
  cases p with
  | instrument i =>
      by_cases htaken : (l.instrument? i.name).isSome
      · simp [addTo, Library.addInstrument, htaken] at h
      · simp only [addTo, Library.addInstrument, htaken] at h
        obtain ⟨rfl, rfl⟩ := Prod.mk.inj (Except.ok.inj h)
        exact Or.inl ⟨i, rfl, rfl, rfl⟩
  | region place r =>
      cases hplace : l.instruments[place]? with
      | none => simp [addTo, Library.addRegion?, hplace] at h
      | some i =>
          simp only [addTo, Library.addRegion?, hplace] at h
          obtain ⟨rfl, rfl⟩ := Prod.mk.inj (Except.ok.inj h)
          exact Or.inr (Or.inl ⟨place, r, i, rfl, hplace, rfl, rfl⟩)
  | response r =>
      by_cases htaken : (l.response? r.name).isSome
      · simp [addTo, Library.addResponse, htaken] at h
      · simp only [addTo, Library.addResponse, htaken] at h
        obtain ⟨rfl, rfl⟩ := Prod.mk.inj (Except.ok.inj h)
        exact Or.inr (Or.inr ⟨r, rfl, rfl, rfl⟩)

/-- A part is refused because its name is taken or its instrument is not there. -/
theorem addTo_error {e : BuildFault} (h : p.addTo l index = .error e) :
    (∃ kind name, e = .duplicate ⟨kind, name⟩ ∧ (kind = "instrument" ∨ kind = "impulse response")) ∨
      ∃ place r, p = .region place r ∧ l.instruments[place]? = none := by
  cases p with
  | instrument i =>
      by_cases htaken : (l.instrument? i.name).isSome
      · simp only [addTo, Library.addInstrument, htaken] at h
        exact Or.inl ⟨_, _, (Except.error.inj h).symm, Or.inl rfl⟩
      · simp [addTo, Library.addInstrument, htaken] at h
  | region place r =>
      cases hplace : l.instruments[place]? with
      | none => exact Or.inr ⟨place, r, rfl, hplace⟩
      | some i => simp [addTo, Library.addRegion?, hplace] at h
  | response r =>
      by_cases htaken : (l.response? r.name).isSome
      · simp only [addTo, Library.addResponse, htaken] at h
        exact Or.inl ⟨_, _, (Except.error.inj h).symm, Or.inr rfl⟩
      · simp [addTo, Library.addResponse, htaken] at h

/-- The place of a library has no influence on what becomes of it. -/
theorem addTo_elsewhere (h : p.addTo l index = .ok (later, values)) (other : ℕ) :
    ∃ values', p.addTo l other = .ok (later, values') := by
  cases p with
  | instrument i =>
      simp only [addTo] at h ⊢
      cases hl : l.addInstrument i with
      | error e => simp [hl] at h
      | ok added =>
          simp only [hl, Except.ok.injEq, Prod.mk.injEq] at h
          exact ⟨_, by rw [← h.1]⟩
  | region place r => exact ⟨values, h⟩
  | response r => exact ⟨values, h⟩

theorem addTo_grows (h : p.addTo l index = .ok (later, values)) : l.Grows later := by
  rcases addTo_cases h with ⟨i, -, rfl, -⟩ | ⟨place, r, i, -, hplace, rfl, -⟩ | ⟨r, -, rfl, -⟩
  · refine ⟨rfl, rfl, fun j i' hi' => ⟨i', ?_, .refl i'⟩, List.prefix_rfl⟩
    rw [List.getElem?_append_left (List.getElem?_eq_some_iff.mp hi').1]
    exact hi'
  · refine ⟨rfl, rfl, fun j i' hi' => ?_, List.prefix_rfl⟩
    by_cases hj : j = place
    · subst hj
      obtain rfl := Option.some.inj (hplace.symm.trans hi')
      have hlt := (List.getElem?_eq_some_iff.mp hi').1
      exact ⟨_, List.getElem?_set_self hlt, [r], rfl⟩
    · exact ⟨i', (List.getElem?_set_ne (Ne.symm hj)).trans hi', .refl i'⟩
  · exact ⟨rfl, rfl, fun j i hi => ⟨i, hi, .refl i⟩, List.prefix_append _ _⟩

end Part

end Script

end Multisample
