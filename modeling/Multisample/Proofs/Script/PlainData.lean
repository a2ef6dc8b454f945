import Multisample.Proofs.Script.Views

/-!
# Plain data

A table is plain data if no look-up in it, or in the tables it holds or falls
back on, runs code.  Looking something up in plain data leaves the world alone,
and the answer does not depend on what has been built.
-/

namespace Multisample.Script

open Builtins

def Value.IsCode : Value → Prop
  | .closure .. | .builtin .. => True
  | _ => False

namespace World

def withBuild (w : World) (b : Build) : World :=
  { w with build := b }

@[simp] theorem withBuild_build (w : World) (b : Build) : (w.withBuild b).build = b := rfl

@[simp] theorem withBuild_withBuild (w : World) (b c : Build) :
    (w.withBuild b).withBuild c = w.withBuild c := rfl

/-- Values whose look-ups run no code, with all that they lead to. -/
structure Inert (w : World) (among : Value → Prop) : Prop where
  noCode : ∀ v, among v → ¬ (w.behaviour v "__index").IsCode
  fallback : ∀ v, among v → w.behaviour v "__index" ≠ .nil → among (w.behaviour v "__index")
  entries : ∀ id, among (.table id) → ∀ k next, w.heap.get id k = .table next → among (.table next)

def RunsNoCode (w : World) (v : Value) : Prop :=
  ∃ among, among v ∧ w.Inert among

theorem behaviour_of_noMetatables {w : World} (h : ∀ t ∈ w.heap.tables, t.metatable = none)
    (id : ℕ) (event : String) : w.behaviour (.table id) event = .nil := by
  have hmetatable : (w.heap.table id).metatable = none := by
    rw [Heap.table, Array.getD_eq_getD_getElem?]
    cases ht : w.heap.tables[id]? with
    | none => rfl
    | some t => exact h t (Array.mem_of_getElem? ht)
  rw [behaviour, metatable?, Heap.metatable?, hmetatable]

/-- Tables without metatables are plain data. -/
theorem inert_of_noMetatables {w : World} (h : ∀ t ∈ w.heap.tables, t.metatable = none) :
    w.Inert fun v => ∃ id, v = .table id := by
  have hbehaviour := fun id => behaviour_of_noMetatables h id "__index"
  refine ⟨?_, ?_, fun _ _ _ next _ => ⟨next, rfl⟩⟩
  · rintro _ ⟨id, rfl⟩
    rw [hbehaviour id]
    exact False.elim
  · rintro _ ⟨id, rfl⟩ hne
    exact absurd (hbehaviour id) hne

end World

/-! ## Acts that only read -/

namespace Act

variable {α β : Type}

/-- Whatever has been built, the act leaves the world alone and has this result,
or this message as its error. -/
def Reads (x : Act α) (site : Site) (w : World) (r : Except String α) : Prop :=
  ∀ b, x site (w.withBuild b) = match r with
    | .ok a => .done (w.withBuild b) a
    | .error message => .raised (w.withBuild b) (.thrown (.ofString message))

variable {site : Site} {w : World}

theorem reads_pure (a : α) : (pure a : Act α).Reads site w (.ok a) :=
  fun _ => rfl

theorem reads_ask {f : World → α} (h : ∀ b, f (w.withBuild b) = f w) :
    (ask f).Reads site w (.ok (f w)) :=
  fun b => congrArg (Step.done (w.withBuild b)) (h b)

theorem reads_fault (message : String) :
    (fault message : Act α).Reads site w (.error (site.fault ++ message)) :=
  fun _ => rfl

theorem Reads.bind {x : Act α} {a : α} (hx : x.Reads site w (.ok a)) {f : α → Act β}
    {r : Except String β} (hf : (f a).Reads site w r) : (x >>= f).Reads site w r := by
  intro b
  have hstep : (x >>= f) site (w.withBuild b) =
      (x site (w.withBuild b)).bind fun a w => f a site w := rfl
  rw [hstep, hx b]
  exact hf b

theorem reads_getRaw (id : ℕ) (k : Value) : (getRaw id k).Reads site w (.ok (w.heap.get id k)) :=
  reads_ask fun _ => rfl

theorem reads_typeName (v : Value) : ∃ name, (typeName v).Reads site w (.ok name) :=
  ⟨_, reads_ask fun _ => rfl⟩

/-! ## Look-ups -/

/-- What is stored under a key in a value itself. -/
def storedIn (v k : Value) : Act Value :=
  match v with
  | .table id => getRaw id k
  | _ => pure .nil

/-- Looks a key up where the handler of a value says. -/
def answerBy (fuel : ℕ) (origin : Option Origin) (v k handler : Value) : Act Value :=
  match handler, v with
  | .nil, .table _ => return .nil
  | .nil, _ => do
    fault s!"attempt to index a {← typeName v} value{Origin.describe origin}"
  | .closure .., _ | .builtin .., _ => callOne handler [v, k]
  | _, _ => indexFrom fuel none handler k

theorem indexFrom_succ (fuel : ℕ) (origin : Option Origin) (v k : Value) :
    indexFrom (fuel + 1) origin v k = storedIn v k >>= fun stored =>
      if !stored.isNil then pure stored
      else (ask fun w => w.behaviour v "__index") >>= answerBy fuel origin v k := by
  cases v <;> rfl

/-- A look-up that runs no code only reads, and the tables that it leads to run
none either. -/
theorem reads_indexFrom (site : Site) {among : Value → Prop} (h : w.Inert among) (k : Value)
    (fuel : ℕ) (origin : Option Origin) {v : Value} (hv : among v) :
    ∃ r, (indexFrom fuel origin v k).Reads site w r ∧
      ∀ id, r = .ok (.table id) → among (.table id) := by
  induction fuel generalizing origin v with
  | zero => exact ⟨_, reads_fault _, fun id hid => nomatch hid⟩
  | succ fuel ih =>
      rw [indexFrom_succ]
      obtain ⟨stored, hstored, hamong⟩ : ∃ stored, (storedIn v k).Reads site w (.ok stored) ∧
          ∀ id, stored = .table id → among (.table id) := by
        cases v with
        | table id => exact ⟨_, reads_getRaw id k, fun next hnext => h.entries id hv k next hnext⟩
        | _ => exact ⟨.nil, reads_pure _, fun id hid => nomatch hid⟩
      cases hnil : stored.isNil with
      | false =>
          refine ⟨.ok stored, hstored.bind ?_, fun id hid => hamong id (Except.ok.inj hid)⟩
          rw [hnil]
          exact reads_pure _
      | true =>
          have hrest : ∃ r, (answerBy fuel origin v k (w.behaviour v "__index")).Reads site w r ∧
              ∀ id, r = .ok (.table id) → among (.table id) := by
            have hnoCode := h.noCode v hv
            have hfallback := h.fallback v hv
            generalize w.behaviour v "__index" = handler at hnoCode hfallback
            cases handler with
            | nil =>
                cases v with
                | table id => exact ⟨.ok .nil, reads_pure _, fun id hid => nomatch hid⟩
                | _ =>
                    obtain ⟨name, hname⟩ : ∃ name, (typeName _).Reads site w (.ok name) :=
                      reads_typeName _
                    exact ⟨_, hname.bind (reads_fault _), fun id hid => nomatch hid⟩
            | closure id f cells => exact absurd trivial hnoCode
            | builtin id state => exact absurd trivial hnoCode
            | _ => exact ih none (hfallback (by simp))
          obtain ⟨r, hr, hreached⟩ := hrest
          refine ⟨r, hstored.bind ?_, hreached⟩
          rw [hnil]
          exact (reads_ask fun _ => rfl).bind hr

end Act

/-! ## What plain data shows -/

namespace World

/-- The answer to a look-up, and the text of its error. -/
def answer (w : World) (site : Site) (id : ℕ) (name : String) : Except String Value :=
  match Act.index (.table id) (.ofString name) none site w with
  | .done _ v => .ok v
  | .raised _ (.thrown (.text message)) => .error s!"runtime error: {message.display}"
  | _ => .error ""

def view (w : World) (site : Site) : View where
  field := w.answer site
  table := w.heap.table

variable {w : World} {among : Value → Prop}

/-- Without metatables a look-up answers what the table holds itself. -/
theorem answer_of_noMetatables (h : ∀ t ∈ w.heap.tables, t.metatable = none) (site : Site) (id : ℕ)
    (name : String) : w.answer site id name = .ok (w.heap.get id (.ofString name)) := by
  have hindex : Act.index (.table id) (.ofString name) none site w =
      (if !(w.heap.get id (.ofString name)).isNil then pure (w.heap.get id (.ofString name))
        else Act.answerBy 1999 none (.table id) (.ofString name)
          (w.behaviour (.table id) "__index") : Act Value) site w := by
    rw [Act.index, Act.maxChain, Act.indexFrom_succ]
    show (if _ then _ else _ : Act Value) site w = _
    cases (w.heap.get id (.ofString name)).isNil <;> rfl
  rw [answer, hindex, behaviour_of_noMetatables h]
  cases hstored : w.heap.get id (.ofString name) <;> rfl

/-- How a look-up in plain data ends, and how its error is told. -/
theorem Inert.answer_eq (h : w.Inert among) (site : Site) {id : ℕ} (hid : among (.table id))
    (name : String) :
    ∃ r, (Act.index (.table id) (.ofString name) none).Reads site w r ∧
      w.answer site id name =
        r.mapError (fun message => s!"runtime error: {(Bytes.ofString message).display}") ∧
      ∀ next, r = .ok (.table next) → among (.table next) := by
  obtain ⟨r, hr, hreached⟩ := Act.reads_indexFrom site h (.ofString name) Act.maxChain none hid
  refine ⟨r, hr, ?_, hreached⟩
  have hindex : Act.index (.table id) (.ofString name) none site w = _ := hr w.build
  rw [answer, hindex]
  cases r <;> rfl

/-- Whatever has been built, a look-up in plain data leaves the world alone. -/
theorem Inert.field_eq (h : w.Inert among) (site : Site) {id : ℕ} (hid : among (.table id))
    (name : String) (b : Build) :
    Libraries.reader.field id name site (w.withBuild b) =
      .done (w.withBuild b) (w.answer site id name) := by
  obtain ⟨r, hr, hanswer, -⟩ := h.answer_eq site hid name
  show ((Act.index (.table id) (.ofString name) none site (w.withBuild b)).settle
    fun r w => .done w r).bind _ = _
  rw [hr b, hanswer]
  cases r <;> rfl

/-- Look-ups in plain data lead to plain data. -/
theorem Inert.reaches (h : w.Inert among) (site : Site) {id : ℕ} (hid : among (.table id))
    {name : String} {next : ℕ} (hnext : w.answer site id name = .ok (.table next)) :
    among (.table next) := by
  obtain ⟨r, -, hanswer, hreached⟩ := h.answer_eq site hid name
  rw [hanswer] at hnext
  cases r with
  | ok v => exact hreached next hnext
  | error message => exact nomatch hnext

/-- Plain data gives definite answers, whatever surrounds it. -/
def Inert.reading (h : w.Inert among) (around : Surroundings) (site : Site) (b : Build) : Reading where
  around := around
  site := site
  view := w.view site
  reach id := among (.table id)
  kept u := u = w.withBuild b
  field id hid name := by
    rintro _ rfl
    refine ⟨_, rfl, ?_⟩
    rw [Act.Ends, h.field_eq site hid]
    rfl
  table id hid := by
    rintro _ rfl
    rfl
  closed id hid name next := h.reaches site hid

end World

end Multisample.Script
