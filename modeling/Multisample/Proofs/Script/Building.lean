import Multisample.Proofs.Script.PlainData
import Multisample.Proofs.Script.Requests
import Multisample.Script.Machine.Memory

/-!
# Calls that build

Five functions build libraries.  Given plain data, a call of one of them either
fails with a text of its own, or asks the build for something and gives what it
answers.  What is asked for does not depend on what has been built so far, nor on
which library it is for.
-/

namespace Multisample.Script

open Builtins

/-- The functions that build libraries. -/
inductive Builder where
  | newLibrary
  | newInstrument
  | addRegion
  | addResponse
  | extendTable
deriving DecidableEq

namespace Builder

def name : Builder → String
  | newLibrary => "new_library"
  | newInstrument => "new_instrument"
  | addRegion => "add_region"
  | addResponse => "add_ir"
  | extendTable => "extend_table"

def run : Builder → List Value → Act (List Value)
  | newLibrary => Libraries.newLibrary
  | newInstrument => Libraries.newInstrument
  | addRegion => Libraries.addRegion
  | addResponse => Libraries.addResponse
  | extendTable => Libraries.extendTable

theorem libraries_all :
    Libraries.all = [newLibrary, newInstrument, addRegion, addResponse, extendTable].map
      fun f => Libraries.guardedFunction f.name f.run :=
  rfl

end Builder

namespace Handle

/-- The place of the library that a handle leads to. -/
def place : Handle → ℕ
  | library i => i
  | instrument i _ => i

/-- The handle of the same thing in a library at another place. -/
def movedTo (i : ℕ) : Handle → Handle
  | library _ => library i
  | instrument _ j => instrument i j

end Handle

def Value.handle? : Value → Option Handle
  | .handle h => some h
  | _ => none

/-- The handle is of a library, or a region is for the instrument of the handle. -/
def Part.Fits (h : Handle) : Part → Prop
  | .instrument _ | .response _ => ∃ i, h = .library i
  | .region k _ => ∃ j, h = .instrument j k

/-- A handle leads to a library at another place, all else is left. -/
def Value.movedTo (i : ℕ) : Value → Value
  | .handle h => .handle (h.movedTo i)
  | v => v

/-- A call by a script: where it is made, and the world then, whatever has been built. -/
structure Call where
  function : Builder
  arguments : List Value
  site : Site
  around : Surroundings
  world : World

namespace Call

/-- The handle that a call is addressed to. -/
def handle? (c : Call) : Option Handle :=
  c.arguments.head?.bind Value.handle?

/-- The same call, addressed to a library at another place. -/
def movedTo (c : Call) (i : ℕ) : Call :=
  { c with arguments := c.arguments.modifyHead (Value.movedTo i) }

/-- What a build becomes by a call, and how the call concludes. -/
def outcome (c : Call) (b : Build) : Build × Conclusion (List Value) :=
  let (later, conclusion) :=
    (Act.guarded (c.function.run c.arguments) c.site (c.world.withBuild b)).finish c.around
  (later.build, conclusion)

/-- The tables of a call hold plain data, the watchdog does not stop it, and
nothing but the heap changes while memory is asked for. -/
structure Plain (c : Call) : Prop where
  inert : ∀ id, .table id ∈ c.arguments → c.world.RunsNoCode (.table id)
  inTime : c.world.checkWatchdog.watchdog.tripped = none
  memory : ∀ w bytes, ∃ heap, (c.around.provide w bytes).1 = { w with heap }

end Call

/-- The same world with another count of the bytes in use. -/
def World.counting (w : World) (used : ℕ) : World :=
  { w with heap := { w.heap with used } }

/-- The interpreter provides memory so that only the count changes. -/
theorem Machine.State.provide_counting (s : Machine.State) (bytes : ℕ) :
    ∃ used, (s.provide bytes).1.world = s.world.counting used := by
  unfold Machine.State.provide
  split
  · exact ⟨s.world.heap.used, rfl⟩
  · split
    · exact ⟨s.reachable, rfl⟩
    · exact ⟨s.world.heap.used, rfl⟩

/-- The interpreter provides memory as plain calls need it. -/
theorem Machine.State.provide_world (s : Machine.State) (bytes : ℕ) :
    ∃ heap, (s.provide bytes).1.world = { s.world with heap } := by
  obtain ⟨used, hused⟩ := s.provide_counting bytes
  exact ⟨_, hused⟩

/-! ## Texts of errors -/

/-- The error of a function that builds. -/
def Raised.of (function message : String) : Raised :=
  .thrown (.failure s!"floe.{function}: {message}")

def BeginsWith (c : Char) (text : String) : Prop :=
  text.toList.head? = some c

theorem BeginsWith.append {c : Char} {text : String} (h : BeginsWith c text) (more : String) :
    BeginsWith c (text ++ more) := by
  rw [BeginsWith, String.toList_append, List.head?_append, h]
  rfl

/-- The texts about stale handles begin with an `s`; no other does. -/
def IsOwnText (message : String) : Prop :=
  ∃ c, BeginsWith c message ∧ c ≠ 's'

theorem IsOwnText.ne_stale {message : String} (h : IsOwnText message) (function what : String) :
    Raised.of function message ≠ Raised.of function (BuildFault.stale what).message := by
  intro heq
  have htext := Value.failure.inj (Raised.thrown.inj heq)
  have hlist := congrArg String.toList htext
  simp only [String.toList_append, List.append_cancel_left_eq] at hlist
  obtain ⟨c, hc, hne⟩ := h
  have hword : BeginsWith 's' "stale " := rfl
  have hstale : BeginsWith 's' (BuildFault.stale what).message := (hword.append _).append _
  have hmessage : message.toList.head? = some 's' := (congrArg List.head? hlist).trans hstale
  exact hne (Option.some.inj (hc.symm.trans hmessage))

theorem isOwnText_duplicate {kind : String} (h : BeginsWith 'i' kind) (name : String) :
    IsOwnText (DuplicateName.message ⟨kind, name⟩) :=
  ⟨'i', ((h.append _).append _).append _, by decide⟩

theorem isOwnText_bind {e : BindError} (h : IsOwnText e.record) : IsOwnText e.message := by
  obtain ⟨c, hc, hne⟩ := h
  exact ⟨c, (((hc.append _).append _).append _).append _, hne⟩

/-! ## Parts of calls -/

namespace Act

variable {α β : Type}

/-- Whatever has been built, the act leaves it alone and has this result, or fails
with this text of a function. -/
def Settles (around : Surroundings) (site : Site) (w : World) (limit : ℕ) (function : String)
    (x : Act α) (r : Except String α) : Prop :=
  ∀ b : Build, b.maxNameBytes = limit →
    Ends around site (w.withBuild b) x (w.withBuild b) (match r with
      | .ok a => .gives a
      | .error message => .raises (.of function message))

variable {around : Surroundings} {site : Site} {w : World} {limit : ℕ} {function : String}

theorem settles_fail (message : String) :
    Settles around site w limit function (Libraries.failIn function message : Act α)
      (.error message) :=
  fun _ _ => rfl

theorem settles_tableAt (position : ℕ) (v : Value) :
    ∃ r, Settles around site w limit function (Libraries.tableAt function position v) r ∧
      (∀ id, r = .ok id → v = .table id) ∧ ∀ message, r = .error message → IsOwnText message := by
  cases v with
  | table id =>
      refine ⟨.ok id, fun _ _ => rfl, ?_, nofun⟩
      rintro _ ⟨⟩
      rfl
  | _ =>
      refine ⟨_, settles_fail _, nofun, ?_⟩
      rintro _ ⟨⟩
      have hword : BeginsWith 'a' "argument " := rfl
      exact ⟨'a', ((hword.append _).append _).append _, by decide⟩

theorem settles_bound {among : Value → Prop} (h : w.Inert among) {id : ℕ} (hid : among (.table id))
    {schema : Schema} (hschema : IsOwnText schema.name) :
    ∃ r, Settles around site w limit function (Libraries.bound function id schema) r ∧
      ∀ message, r = .error message → IsOwnText message := by
  -- binding sees the view only, and the view does not show what has been built
  obtain ⟨bound, hbound⟩ : ∃ bound : Except BindError Values,
      Binding.bind (w.view site).reader limit id schema = bound := ⟨_, rfl⟩
  refine ⟨bound.mapError BindError.message, ?_, ?_⟩
  · intro b hb
    subst hb
    obtain ⟨_, rfl, hbind⟩ := (h.reading around site b).yields_bind b.maxNameBytes hid
      ((w.view site).agreesOn_refl id schema) (w.withBuild b) rfl
    rw [hbound] at hbind
    refine (ends_ask _).bind (Ends.bind hbind ?_)
    cases bound with
    | ok values => rfl
    | error e => rfl
  · intro message hmessage
    rw [← hbound, Reading.bind_view] at hmessage
    split at hmessage
    · cases hmessage
    · obtain rfl := Except.error.inj hmessage
      exact isOwnText_bind hschema

/-- What is not the right handle is refused alike, to whatever library it leads. -/
theorem settles_wrongHandle (expected : String) (v : Value) :
    ∃ message, (∀ i, Settles around site w limit function
        (Libraries.wrongHandle function expected (v.movedTo i) : Act α) (.error message)) ∧
      IsOwnText message := by
  have htext : ∀ i, Libraries.handleText (v.movedTo i) = Libraries.handleText v := by
    intro i
    cases v <;> rfl
  have hword : BeginsWith 'a' "argument 1 must be " := rfl
  refine ⟨s!"argument 1 must be {expected}, got {Libraries.handleText v}", fun i => ?_,
    ⟨'a', ((hword.append _).append _).append _, by decide⟩⟩
  rw [Libraries.wrongHandle, htext]
  exact settles_fail _

theorem libraryAt_cases (function : String) (v : Value) : (∃ j, v = .handle (.library j)) ∨
    ∀ i, Libraries.libraryAt function (v.movedTo i) =
      Libraries.wrongHandle function "a library" (v.movedTo i) := by
  cases v with
  | handle h =>
      cases h with
      | library j => exact Or.inl ⟨j, rfl⟩
      | instrument j k => exact Or.inr fun _ => rfl
  | _ => exact Or.inr fun _ => rfl

theorem instrumentAt_cases (function : String) (v : Value) : (∃ j k, v = .handle (.instrument j k)) ∨
    ∀ i, Libraries.instrumentAt function (v.movedTo i) =
      Libraries.wrongHandle function "an instrument" (v.movedTo i) := by
  cases v with
  | handle h =>
      cases h with
      | library j => exact Or.inr fun _ => rfl
      | instrument j k => exact Or.inl ⟨j, k, rfl⟩
  | _ => exact Or.inr fun _ => rfl

theorem settles_libraryAt (v : Value) :
    ((∃ j, v = .handle (.library j)) ∧ ∀ i, Settles around site w limit function
        (Libraries.libraryAt function (v.movedTo i)) (.ok i)) ∨
    ∃ message, (∀ i, Settles around site w limit function
        (Libraries.libraryAt function (v.movedTo i)) (.error message)) ∧ IsOwnText message := by
  rcases libraryAt_cases function v with ⟨j, rfl⟩ | hwrong
  · exact Or.inl ⟨⟨j, rfl⟩, fun _ _ _ => rfl⟩
  · simp only [hwrong]
    exact Or.inr (settles_wrongHandle "a library" v)

theorem settles_instrumentAt (v : Value) :
    (∃ j k, v = .handle (.instrument j k) ∧ ∀ i, Settles around site w limit function
        (Libraries.instrumentAt function (v.movedTo i)) (.ok (i, k))) ∨
    ∃ message, (∀ i, Settles around site w limit function
        (Libraries.instrumentAt function (v.movedTo i)) (.error message)) ∧ IsOwnText message := by
  rcases instrumentAt_cases function v with ⟨j, k, rfl⟩ | hwrong
  · exact Or.inl ⟨j, k, rfl, fun _ _ _ => rfl⟩
  · simp only [hwrong]
    exact Or.inr (settles_wrongHandle "an instrument" v)

/-! ## Whole calls -/

/-- The act fails with a text of the function, or it asks the build for something and
gives what the build answers; a part is for the library at place `i`. -/
def Asks (around : Surroundings) (site : Site) (w : World) (limit : ℕ) (function : String)
    (x : Act (List Value)) (i : ℕ) : Except String Request → Prop
  | .error message => Settles around site w limit function x (.error message)
  | .ok request => ∀ b : Build, b.maxNameBytes = limit → match b.answer i request with
    | .ok (later, values) => Ends around site (w.withBuild b) x (w.withBuild later) (.gives values)
    | .error e => Ends around site (w.withBuild b) x (w.withBuild b) (.raises (.of function e.message))

variable {i : ℕ} {r : Except String Request}

theorem Settles.asks {y : Act α} {a : α} (hy : Settles around site w limit function y (.ok a))
    {g : α → Act (List Value)} (hg : Asks around site w limit function (g a) i r) :
    Asks around site w limit function (y >>= g) i r := by
  cases r with
  | error message => exact fun b hb => (hy b hb).bind (hg b hb)
  | ok request =>
      intro b hb
      have hrest := hg b hb
      split at hrest
      · exact (hy b hb).bind hrest
      · exact (hy b hb).bind hrest

theorem Settles.asks_error {y : Act α} {message : String}
    (hy : Settles around site w limit function y (.error message)) (g : α → Act (List Value)) :
    Asks around site w limit function (y >>= g) i (.error message) :=
  fun b hb => (hy b hb).bind_raises g

section builds

variable {change : Build → Except BuildFault (Build × α)} {b : Build}

theorem ends_build {later : Build} {a : α} (h : change b = .ok (later, a)) :
    Ends around site (w.withBuild b) (Libraries.build function change) (w.withBuild later)
      (.gives a) := by
  have hask : Ends around site (w.withBuild b) (ask fun w => w.build) (w.withBuild b) (.gives b) :=
    ends_ask _
  refine hask.bind ?_
  rw [h]
  rfl

theorem ends_build_error {e : BuildFault} (h : change b = .error e) :
    Ends around site (w.withBuild b) (Libraries.build function change) (w.withBuild b)
      (.raises (.of function e.message)) := by
  have hask : Ends around site (w.withBuild b) (ask fun w => w.build) (w.withBuild b) (.gives b) :=
    ends_ask _
  refine hask.bind ?_
  rw [h]
  rfl

end builds

theorem asks_build {change : Build → Except BuildFault (Build × List Value)} {request : Request}
    (h : ∀ b, b.answer i request = change b) :
    Asks around site w limit function (Libraries.build function change) i (.ok request) := by
  intro b _
  rw [h b]
  cases hchange : change b with
  | error e => exact ends_build_error hchange
  | ok changed => exact ends_build hchange

/-- What was built is given as a handle. -/
theorem asks_build_handle {change : Build → Except BuildFault (Build × Handle)} {request : Request}
    (h : ∀ b, b.answer i request = (change b).map fun (b, h) => (b, [.handle h])) :
    Asks around site w limit function
      (do return [.handle (← Libraries.build function change)]) i (.ok request) := by
  intro b _
  rw [h b]
  cases hchange : change b with
  | error e => exact (ends_build_error hchange).bind_raises _
  | ok changed => exact (ends_build hchange).bind rfl

end Act

namespace Call

variable (c : Call)

theorem getD_zero_movedTo (i : ℕ) :
    (c.movedTo i).arguments.getD 0 .nil = (c.arguments.getD 0 .nil).movedTo i := by
  unfold movedTo
  cases c.arguments <;> rfl

theorem getD_one_movedTo (i : ℕ) :
    (c.movedTo i).arguments.getD 1 .nil = c.arguments.getD 1 .nil := by
  unfold movedTo
  cases c.arguments <;> rfl

variable {c}

theorem handle?_of_handle {h : Handle} (hc : c.arguments.getD 0 .nil = .handle h) :
    c.handle? = some h := by
  unfold handle?
  cases harguments : c.arguments with
  | nil =>
      rw [harguments] at hc
      cases hc
  | cons v rest =>
      rw [harguments] at hc
      obtain rfl : v = .handle h := hc
      rfl

theorem getD_zero_of_handle? {h : Handle} (hc : c.handle? = some h) :
    c.arguments.getD 0 .nil = .handle h := by
  obtain ⟨v, hv, hvalue⟩ := Option.bind_eq_some_iff.mp hc
  rw [List.getD_eq_getElem?_getD, ← List.head?_eq_getElem?, hv]
  cases v with
  | handle h' =>
      obtain rfl := Option.some.inj hvalue
      rfl
  | _ => cases hvalue

theorem mem_arguments_of_handle? {h : Handle} (hc : c.handle? = some h) :
    .handle h ∈ c.arguments := by
  obtain ⟨v, hv, hvalue⟩ := Option.bind_eq_some_iff.mp hc
  cases v with
  | handle h' =>
      obtain rfl := Option.some.inj hvalue
      exact List.mem_of_head? hv
  | _ => cases hvalue

theorem handle?_of_table {id : ℕ} (hc : c.arguments.getD 0 .nil = .table id) : c.handle? = none := by
  unfold handle?
  cases harguments : c.arguments with
  | nil => rfl
  | cons v rest =>
      rw [harguments] at hc
      obtain rfl : v = .table id := hc
      rfl

/-- A call for the library that it is for anyway. -/
theorem movedTo_eq {i : ℕ} (h : ∀ handle, c.handle? = some handle → handle.place = i) :
    c.movedTo i = c := by
  obtain ⟨function, arguments, site, around, world⟩ := c
  cases arguments with
  | nil => rfl
  | cons v rest =>
      cases v with
      | handle handle =>
          obtain rfl : handle.place = i := h handle rfl
          cases handle <;> rfl
      | _ => rfl

theorem Plain.runsNoCode (hc : c.Plain) (n id : ℕ) (h : c.arguments.getD n .nil = .table id) :
    c.world.RunsNoCode (.table id) := by
  refine hc.inert id ?_
  rw [List.getD_eq_getElem?_getD] at h
  cases hn : c.arguments[n]? with
  | none =>
      rw [hn] at h
      cases h
  | some v =>
      rw [hn] at h
      obtain rfl : v = .table id := h
      exact List.mem_of_getElem? hn

/-- What the acts `x i` of a call ask for, which are for the library at place `i`. -/
structure AsksFor (c : Call) (limit : ℕ) (function : String) (x : ℕ → Act (List Value))
    (r : Except String Request) : Prop where
  own : ∀ message, r = .error message → IsOwnText message
  opens : ∀ info, r = .ok (.library info) → c.handle? = none
  adds : ∀ p, r = .ok (.part p) → ∃ h, c.handle? = some h ∧ p.Fits h
  asks : ∀ i, Act.Asks c.around c.site c.world limit function (x i) i r

section functions

variable {limit : ℕ} {function : String} {g : ℕ → Values → Act (List Value)}

/-- A call whose table is checked against a schema before the build is asked. -/
theorem asks_bound (hc : c.Plain) (n position : ℕ) {schema : Schema}
    (hschema : IsOwnText schema.name) (request : Values → Request)
    (hopens : ∀ id values info, c.arguments.getD n .nil = .table id →
      request values = .library info → c.handle? = none)
    (hadds : ∀ values p, request values = .part p → ∃ h, c.handle? = some h ∧ p.Fits h)
    (hg : ∀ i values, Act.Asks c.around c.site c.world limit function (g i values) i
      (.ok (request values))) :
    ∃ r, c.AsksFor limit function (fun i => do
      let table ← Libraries.tableAt function position (c.arguments.getD n .nil)
      let values ← Libraries.bound function table schema
      g i values) r := by
  have htable : ∃ t, Act.Settles c.around c.site c.world limit function
      (Libraries.tableAt function position (c.arguments.getD n .nil)) t ∧
        (∀ id, t = .ok id → c.arguments.getD n .nil = .table id) ∧
          ∀ message, t = .error message → IsOwnText message := Act.settles_tableAt position _
  obtain ⟨t, htable, hvalue, hown⟩ := htable
  cases t with
  | error message => exact ⟨.error message, by simpa using hown, nofun, nofun, fun i => htable.asks_error _⟩
  | ok id =>
      have hid := hvalue id rfl
      obtain ⟨among, hamong, hinert⟩ := hc.runsNoCode n id hid
      have hbound : ∃ u, Act.Settles c.around c.site c.world limit function
          (Libraries.bound function id schema) u ∧
            ∀ message, u = .error message → IsOwnText message :=
        Act.settles_bound hinert hamong hschema
      obtain ⟨u, hbound, hown'⟩ := hbound
      cases u with
      | error message =>
          exact ⟨.error message, by simpa using hown', nofun, nofun,
            fun i => htable.asks (hbound.asks_error _)⟩
      | ok values =>
          refine ⟨.ok (request values), nofun, ?_, ?_,
            fun i => htable.asks (hbound.asks (hg i values))⟩
          · intro info hinfo
            exact hopens id values info hid (Except.ok.inj hinfo)
          · intro p hp
            exact hadds values p (Except.ok.inj hp)

/-- The same behind an argument that is the right handle. -/
theorem asks_behind {β : Type} {x : ℕ → Act β} {a : ℕ → β} {y : ℕ → β → Act (List Value)}
    (hx : ∀ i, Act.Settles c.around c.site c.world limit function (x i) (.ok (a i)))
    (hy : ∃ r, c.AsksFor limit function (fun i => y i (a i)) r) :
    ∃ r, c.AsksFor limit function (fun i => x i >>= y i) r := by
  obtain ⟨r, hr⟩ := hy
  exact ⟨r, hr.own, hr.opens, hr.adds, fun i => (hx i).asks (hr.asks i)⟩

theorem asks_refused {β : Type} {x : ℕ → Act β} {message : String} (hown : IsOwnText message)
    (hx : ∀ i, Act.Settles c.around c.site c.world limit function (x i) (.error message))
    (y : ℕ → β → Act (List Value)) :
    ∃ r, c.AsksFor limit function (fun i => x i >>= y i) r := by
  refine ⟨.error message, ?_, nofun, nofun, fun i => (hx i).asks_error _⟩
  rintro _ ⟨⟩
  exact hown

end functions

variable (limit : ℕ)

theorem asks_newLibrary (hc : c.Plain) :
    ∃ r, c.AsksFor limit "new_library" (fun i => Libraries.newLibrary (c.movedTo i).arguments) r := by
  -- a handle in place of the table is refused alike, to whatever library it leads
  have hfirst : ∀ i, Libraries.tableAt "new_library" 1 ((c.movedTo i).arguments.getD 0 .nil) =
      Libraries.tableAt "new_library" 1 (c.arguments.getD 0 .nil) := by
    intro i
    rw [getD_zero_movedTo]
    cases c.arguments.getD 0 .nil <;> rfl
  simp only [Libraries.newLibrary, hfirst]
  refine asks_bound hc 0 1 ⟨'L', rfl, by decide⟩ (fun values => .library values.toLibraryInfo) ?_
    (fun _ _ h => nomatch h) fun i values => Act.asks_build_handle fun b => rfl
  intro id values info hid _
  exact handle?_of_table hid

theorem asks_newInstrument (hc : c.Plain) :
    ∃ r, c.AsksFor limit "new_instrument" (fun i => Libraries.newInstrument (c.movedTo i).arguments)
      r := by
  simp only [Libraries.newInstrument, getD_zero_movedTo, getD_one_movedTo]
  rcases Act.settles_libraryAt (c.arguments.getD 0 .nil) with ⟨⟨j, hj⟩, hx⟩ | ⟨message, hx, hown⟩
  · refine asks_behind hx (asks_bound hc 1 2 ⟨'I', rfl, by decide⟩
      (fun values => .part (.instrument values.toInstrument)) (fun _ _ _ _ h => nomatch h) ?_
      fun i values => Act.asks_build_handle fun b => Build.answer_instrument b i _)
    rintro values _ ⟨⟩
    exact ⟨_, handle?_of_handle hj, j, rfl⟩
  · exact asks_refused hown hx _

theorem asks_addRegion (hc : c.Plain) :
    ∃ r, c.AsksFor limit "add_region" (fun i => Libraries.addRegion (c.movedTo i).arguments) r := by
  simp only [Libraries.addRegion, getD_zero_movedTo, getD_one_movedTo]
  rcases Act.settles_instrumentAt (c.arguments.getD 0 .nil) with ⟨j, k, hj, hx⟩ | ⟨message, hx, hown⟩
  · refine asks_behind hx (asks_bound hc 1 2 ⟨'R', rfl, by decide⟩
      (fun values => .part (.region k values.toRegion)) (fun _ _ _ _ h => nomatch h) ?_
      fun i values => Act.asks_build fun b => Build.answer_region b i k _)
    rintro values _ ⟨⟩
    exact ⟨_, handle?_of_handle hj, j, rfl⟩
  · exact asks_refused hown hx _

theorem asks_addResponse (hc : c.Plain) :
    ∃ r, c.AsksFor limit "add_ir" (fun i => Libraries.addResponse (c.movedTo i).arguments) r := by
  simp only [Libraries.addResponse, getD_zero_movedTo, getD_one_movedTo]
  rcases Act.settles_libraryAt (c.arguments.getD 0 .nil) with ⟨⟨j, hj⟩, hx⟩ | ⟨message, hx, hown⟩
  · refine asks_behind hx (asks_bound hc 1 2 ⟨'I', rfl, by decide⟩
      (fun values => .part (.response values.toImpulseResponse)) (fun _ _ _ _ h => nomatch h) ?_
      fun i values => Act.asks_build fun b => Build.answer_response b i _)
    rintro values _ ⟨⟩
    exact ⟨_, handle?_of_handle hj, j, rfl⟩
  · exact asks_refused hown hx _

/-- What a call asks for is the same whatever has been built, and for whatever library. -/
theorem exists_asksFor (hc : c.Plain) (hfunction : c.function ≠ .extendTable) :
    ∃ r, c.AsksFor limit c.function.name (fun i => c.function.run (c.movedTo i).arguments) r := by
  cases hf : c.function with
  | newLibrary => exact asks_newLibrary limit hc
  | newInstrument => exact asks_newInstrument limit hc
  | addRegion => exact asks_addRegion limit hc
  | addResponse => exact asks_addResponse limit hc
  | extendTable => exact absurd hf hfunction

end Call

/-! ## Merging tables -/

/-- How merging tables concludes: with a table, with a text of its own, or without memory. -/
inductive Merges : Conclusion (List Value) → Prop where
  | table (id : ℕ) : Merges (.gives [.table id])
  | fails {message : String} (h : IsOwnText message) : Merges (.raises (.of "extend_table" message))
  | refused : Merges (.raises .refused)
  | cutOff : Merges .cutOff

namespace Act

variable {around : Surroundings} {site : Site}

theorem ends_mergeOnce {w : World} {base upper : ℕ} {merged : Heap × ℕ}
    (h : w.heap.merge base upper = .ok merged) :
    Ends around site w (Libraries.mergeOnce base upper) { w with heap := merged.1 }
      (.gives (.ok merged.2)) := by
  simp only [Ends, Libraries.mergeOnce, h, Step.finish]

theorem ends_mergeOnce_error {w : World} {base upper : ℕ} {e : Heap.MergeFault}
    (h : w.heap.merge base upper = .error e) :
    Ends around site w (Libraries.mergeOnce base upper) w (.gives (.error e)) := by
  simp only [Ends, Libraries.mergeOnce, h, Step.finish]

/-- The act merges tables or fails to, and changes nothing but the heap. -/
def MergesTables (around : Surroundings) (site : Site) (w : World) (x : Act (List Value)) : Prop :=
  ∃ heap conclusion, Ends around site w x { w with heap } conclusion ∧ Merges conclusion

theorem mergesTables_tooDeep (w : World) :
    MergesTables around site w Libraries.extendTable.tooDeep := by
  have hword : BeginsWith 't' "tables are nested more than " := rfl
  exact ⟨w.heap, _, rfl, .fails ⟨'t', (hword.append _).append _, by decide⟩⟩

theorem MergesTables.after {α : Type} {w : World} {heap : Heap} {y : Act α} {a : α}
    {f : α → Act (List Value)} (hy : Ends around site w y { w with heap } (.gives a))
    (hf : MergesTables around site { w with heap } (f a)) : MergesTables around site w (y >>= f) := by
  obtain ⟨later, conclusion, hends, hmerges⟩ := hf
  exact ⟨later, conclusion, hy.bind hends, hmerges⟩

/-- Merging is tried once more when there is memory; `again` is what happens if it
is refused even then. -/
theorem mergesTables_once {w : World} {base upper : ℕ} {again : Act (List Value)}
    (h : MergesTables around site w again) :
    MergesTables around site w (do
      match ← Libraries.mergeOnce base upper with
      | .ok id => return [.table id]
      | .error .tooDeep => Libraries.extendTable.tooDeep
      | .error .refused => again) := by
  cases hmerge : w.heap.merge base upper with
  | ok merged => exact ⟨merged.1, _, (ends_mergeOnce hmerge).bind rfl, .table merged.2⟩
  | error e =>
      cases e with
      | tooDeep => exact .after (ends_mergeOnce_error hmerge) (mergesTables_tooDeep w)
      | refused => exact .after (ends_mergeOnce_error hmerge) h

theorem mergesTables_reserve {w : World} (hmemory : ∀ w bytes, ∃ heap, (around.provide w bytes).1 =
    { w with heap }) (bytes : ℕ) {f : Unit → Act (List Value)}
    (hf : ∀ heap, MergesTables around site { w with heap } (f ())) :
    MergesTables around site w (reserve bytes >>= f) := by
  obtain ⟨heap, hheap⟩ := hmemory w bytes
  cases hgranted : (around.provide w bytes).2 with
  | true =>
      exact .after (hheap ▸ ends_reserve hgranted) (hf heap)
  | false =>
      have hreserve : Ends around site w (reserve bytes) { w with heap } .cutOff :=
        hheap ▸ ends_reserve_cutOff hgranted
      exact ⟨heap, _, hreserve.bind_cutOff f, .cutOff⟩

theorem mergesTables_tableAt (w : World) (position : ℕ) (v : Value) {f : ℕ → Act (List Value)}
    (hf : ∀ id, MergesTables around site w (f id)) :
    MergesTables around site w (Libraries.tableAt "extend_table" position v >>= f) := by
  have htable : ∃ r, Settles around site w w.build.maxNameBytes "extend_table"
      (Libraries.tableAt "extend_table" position v) r ∧ (∀ id, r = .ok id → v = .table id) ∧
        ∀ message, r = .error message → IsOwnText message := settles_tableAt position v
  obtain ⟨r, hr, -, hown⟩ := htable
  have hends := hr w.build rfl
  cases r with
  | ok id => exact .after hends (hf id)
  | error message => exact ⟨w.heap, _, hends.bind_raises f, .fails (hown message rfl)⟩

theorem mergesTables_extendTable (hmemory : ∀ w bytes, ∃ heap, (around.provide w bytes).1 =
    { w with heap }) (w : World) (arguments : List Value) :
    MergesTables around site w (Libraries.extendTable arguments) := by
  refine mergesTables_tableAt w 1 _ fun base => mergesTables_tableAt w 2 _ fun upper =>
    mergesTables_once ?_
  have hask : Ends around site w (ask fun w => w.heap.limit - w.heap.used + 1) { w with heap := w.heap }
      (.gives (w.heap.limit - w.heap.used + 1)) := ends_ask _
  refine .after hask (mergesTables_reserve hmemory _ fun heap => mergesTables_once ?_)
  exact ⟨heap, _, rfl, .refused⟩

end Act

/-! ## Outcomes -/

/-- A build with a request met, and how the call concludes; or the error of a function. -/
def Build.reply (b : Build) (function : String) (i : ℕ) :
    Except String Request → Build × Conclusion (List Value)
  | .error message => (b, .raises (.of function message))
  | .ok request =>
    match b.answer i request with
    | .ok (later, values) => (later, .gives values)
    | .error e => (b, .raises (.of function e.message))

namespace Call

variable {c : Call}

theorem outcome_of_ends {b : Build} {later : World} {conclusion : Conclusion (List Value)}
    (h : Act.Ends c.around c.site (c.world.withBuild b) (c.function.run c.arguments) later conclusion)
    (htime : later.checkWatchdog.watchdog.tripped = none) :
    c.outcome b = (later.build, conclusion) := by
  obtain ⟨watchdog, hguarded⟩ := h.guarded htime
  have hfinish : (Act.guarded (c.function.run c.arguments) c.site (c.world.withBuild b)).finish c.around =
      ({ later with watchdog }, conclusion) := hguarded
  rw [outcome, hfinish]

/-- Merging tables leaves the build alone; a handle is no table. -/
theorem outcome_extendTable (hc : c.Plain) (hfunction : c.function = .extendTable) (b : Build) :
    ∃ conclusion, c.outcome b = (b, conclusion) ∧ Merges conclusion ∧
      ∀ id, conclusion = .gives [.table id] → c.handle? = none := by
  have hmerges : Act.MergesTables c.around c.site (c.world.withBuild b)
      (c.function.run c.arguments) := by
    rw [hfunction]
    exact Act.mergesTables_extendTable hc.memory _ _
  obtain ⟨heap, conclusion, hends, hconclusion⟩ := hmerges
  refine ⟨conclusion, outcome_of_ends hends hc.inTime, hconclusion, ?_⟩
  rintro id rfl
  cases hhandle : c.handle? with
  | none => rfl
  | some h =>
      have hrefused : ∃ later e, Act.Ends c.around c.site (c.world.withBuild b)
          (c.function.run c.arguments) later (.raises e) := by
        rw [hfunction, Builder.run, Libraries.extendTable, getD_zero_of_handle? hhandle]
        have hfail : Act.Ends c.around c.site (c.world.withBuild b)
            (Libraries.tableAt "extend_table" 1 (.handle h)) (c.world.withBuild b) (.raises _) :=
          Act.ends_fail _
        exact ⟨_, _, hfail.bind_raises _⟩
      obtain ⟨later, e, hraises⟩ := hrefused
      exact nomatch (Prod.mk.inj (hends.symm.trans hraises)).2

/-- What a build becomes by a call that asks for something, moved to another library. -/
theorem outcome_movedTo {limit : ℕ} {r : Except String Request} (hc : c.Plain)
    (hr : c.AsksFor limit c.function.name (fun i => c.function.run (c.movedTo i).arguments) r)
    (i : ℕ) {b : Build} (hb : b.maxNameBytes = limit) :
    (c.movedTo i).outcome b = b.reply c.function.name i r := by
  have hasks := hr.asks i
  have hends : ∀ {later conclusion}, Act.Ends c.around c.site (c.world.withBuild b)
      (c.function.run (c.movedTo i).arguments) (c.world.withBuild later) conclusion →
        (c.movedTo i).outcome b = (later, conclusion) :=
    fun h => outcome_of_ends (c := c.movedTo i) h hc.inTime
  cases r with
  | error message => exact hends (hasks b hb)
  | ok request =>
      have hanswer := hasks b hb
      unfold Build.reply
      dsimp only
      split at hanswer
      · exact hends hanswer
      · exact hends hanswer

end Call

end Multisample.Script
