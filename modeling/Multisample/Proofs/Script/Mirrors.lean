import Mathlib.Data.List.Forall2
import Multisample.Script.Machine.Run

/-!
# States up to what acts go on with

An act may do what another one does and look at the watchdog before it is done.
States of the interpreter mirror each other if they are the same but for such acts,
of which they hold what they go on with.  Nothing else shows the difference: not the
memory that is in use, and not the places that errors name.
-/

namespace Multisample.Script

/-! ## Acts -/

/-- The first act does what the second does, and may look at the watchdog before it
is done. -/
inductive Step.Mirrors : Step (List Value) → Step (List Value) → Prop
  | done (w : World) (values : List Value) : Mirrors (.done w values) (.done w values)
  | looks (site : Site) (w : World) (values : List Value) :
      Mirrors (Builtins.protect values site w) (.done w values)
  | raised (w : World) (e : Raised) : Mirrors (.raised w e) (.raised w e)
  | call (w : World) (f : Value) (arguments : List Value)
      {next next' : Except Raised (List Value) → World → Step (List Value)}
      (hnext : ∀ r w, (next r w).Mirrors (next' r w)) :
      Mirrors (.call w f arguments next) (.call w f arguments next')
  | pause (w : World) (bytes : ℕ) {next next' : World → Step (List Value)}
      (hnext : ∀ w, (next w).Mirrors (next' w)) :
      Mirrors (.pause w bytes next) (.pause w bytes next')

theorem Step.mirrors_self (s : Step (List Value)) : s.Mirrors s := by
  induction s with
  | done w values => exact .done w values
  | raised w e => exact .raised w e
  | call w f arguments next ih => exact .call w f arguments ih
  | pause w bytes next ih => exact .pause w bytes ih

theorem Step.mirrors_protect (s : Step (List Value)) (site : Site) :
    (s.bind fun values w => Builtins.protect values site w).Mirrors s := by
  induction s with
  | done w values => exact .looks site w values
  | raised w e => exact .raised w e
  | call w f arguments next ih => exact .call w f arguments ih
  | pause w bytes next ih => exact .pause w bytes ih

namespace Machine

/-! ## States -/

/-- The same task, up to what an act goes on with. -/
inductive Task.Mirrors : Task → Task → Prop
  | same (task : Task) : Mirrors task task
  | host {next next' : Except Raised (List Value) → World → Step (List Value)}
      (hnext : ∀ r w, (next r w).Mirrors (next' r w)) (nesting levels : ℕ) (kept : List Value) :
      Mirrors (.host next nesting levels kept) (.host next' nesting levels kept)

inductive Control.Mirrors : Control → Control → Prop
  | same (control : Control) : Mirrors control control
  | host {next next' : World → Step (List Value)} (hnext : ∀ w, (next w).Mirrors (next' w))
      (levels : ℕ) (kept : List Value) : Mirrors (.host next levels kept) (.host next' levels kept)

theorem Control.Mirrors.of_host {control : Control} {next : World → Step (List Value)}
    {levels : ℕ} {kept : List Value} (h : Control.Mirrors (.host next levels kept) control) :
    ∃ next', control = .host next' levels kept ∧ ∀ w, (next w).Mirrors (next' w) := by
  cases h with
  | same => exact ⟨next, rfl, fun w => Step.mirrors_self _⟩
  | @host _ next' hnext => exact ⟨next', rfl, hnext⟩

/-- The same states, up to what acts go on with. -/
inductive State.Mirrors : State → State → Prop
  | mk {control control' : Control} (hcontrol : control.Mirrors control') (frame : Frame)
      {tasks tasks' : List Task} (htasks : List.Forall₂ Task.Mirrors tasks tasks') (world : World)
      (chunk : String) (nextCheck : ℕ) :
      Mirrors ⟨control, frame, tasks, world, chunk, nextCheck⟩
        ⟨control', frame, tasks', world, chunk, nextCheck⟩

theorem State.mirrors_self (s : State) : s.Mirrors s :=
  ⟨.same _, _, List.forall₂_same.mpr fun task _ => .same task, _, _, _⟩

variable {s t : State}

namespace State.Mirrors

theorem frame_eq (h : s.Mirrors t) : s.frame = t.frame := by
  cases h
  rfl

theorem world_eq (h : s.Mirrors t) : s.world = t.world := by
  cases h
  rfl

theorem chunk_eq (h : s.Mirrors t) : s.chunk = t.chunk := by
  cases h
  rfl

theorem control (h : s.Mirrors t) : s.control.Mirrors t.control := by
  cases h
  assumption

theorem tasks (h : s.Mirrors t) : List.Forall₂ Task.Mirrors s.tasks t.tasks := by
  cases h
  assumption

theorem withControl (h : s.Mirrors t) (control : Control) :
    (s.withControl control).Mirrors (t.withControl control) := by
  obtain ⟨-, frame, htasks, world, chunk, nextCheck⟩ := h
  exact ⟨.same control, frame, htasks, world, chunk, nextCheck⟩

theorem withLine (h : s.Mirrors t) (line : ℕ) : (s.withLine line).Mirrors (t.withLine line) := by
  obtain ⟨hcontrol, frame, htasks, world, chunk, nextCheck⟩ := h
  exact ⟨hcontrol, frame.setLine line, htasks, world, chunk, nextCheck⟩

theorem push (h : s.Mirrors t) (task : Task) : (s.push task).Mirrors (t.push task) := by
  obtain ⟨hcontrol, frame, htasks, world, chunk, nextCheck⟩ := h
  exact ⟨hcontrol, frame, .cons (.same task) htasks, world, chunk, nextCheck⟩

theorem declare (h : s.Mirrors t) (slot : ℕ) (v : Value) :
    (s.declare slot v).Mirrors (t.declare slot v) := by
  obtain ⟨hcontrol, frame, htasks, world, chunk, nextCheck⟩ := h
  exact ⟨hcontrol, frame.declare slot v, htasks, world, chunk, nextCheck⟩

theorem mapHeap (h : s.Mirrors t) (f : Heap → Heap) : (s.mapHeap f).Mirrors (t.mapHeap f) := by
  obtain ⟨hcontrol, frame, htasks, world, chunk, nextCheck⟩ := h
  exact ⟨hcontrol, frame, htasks, world.mapHeap f, chunk, nextCheck⟩

theorem giveValue (h : s.Mirrors t) (v : Value) : (s.giveValue v).Mirrors (t.giveValue v) :=
  h.withControl _

theorem evaluate (h : s.Mirrors t) (e : Expr) : (s.evaluate e).Mirrors (t.evaluate e) :=
  h.withControl _

theorem proceed (h : s.Mirrors t) : s.proceed.Mirrors t.proceed :=
  h.withControl _

theorem enter (h : s.Mirrors t) (body : List Stmt) : (s.enter body).Mirrors (t.enter body) :=
  (h.push _).proceed

theorem quick?_eq (h : s.Mirrors t) (e : Expr) : s.quick? e = t.quick? e := by
  cases h
  rfl

end State.Mirrors

variable {tasks tasks' : List Task}

/-! ## Leaving -/

theorem unwind_mirrors (signal : Signal) (frame : Frame)
    (htasks : List.Forall₂ Task.Mirrors tasks tasks') (world : World) (chunk : String)
    (nextCheck : ℕ) :
    (unwind signal frame tasks world chunk nextCheck).Mirrors
      (unwind signal frame tasks' world chunk nextCheck) := by
  induction htasks generalizing frame with
  | nil => exact State.mirrors_self _
  | @cons task task' rest rest' htask hrest ih =>
      cases htask with
      | host hnext nesting levels kept =>
          cases signal with
          | raise e =>
              exact ⟨.host (fun w => hnext _ w) levels kept, { frame with nesting }, hrest, world,
                chunk, nextCheck⟩
          | _ => exact ih frame
      | same =>
          cases task with
          | close v =>
              cases signal <;>
                exact ⟨.same _, frame, .cons (.same _) hrest, world, chunk, nextCheck⟩
          | back caller =>
              cases signal with
              | give values => exact ⟨.same _, caller, hrest, world, chunk, nextCheck⟩
              | raise e => exact ih caller
              | _ => exact ih frame
          | host next nesting levels kept =>
              cases signal with
              | raise e => exact ⟨.same _, { frame with nesting }, hrest, world, chunk, nextCheck⟩
              | _ => exact ih frame
          | loopWhile | loopUntil | loopCount | loopEach =>
              cases signal with
              | leave => exact ⟨.same _, frame, hrest, world, chunk, nextCheck⟩
              | _ => exact ih frame
          | block all todo =>
              cases signal with
              | jump label =>
                  simp only [unwind]
                  cases behindLabel? label all with
                  | some stmts =>
                      exact ⟨.same _, frame, .cons (.same _) hrest, world, chunk, nextCheck⟩
                  | none => exact ih frame
              | _ => exact ih frame
          | _ => cases signal <;> exact ih frame

theorem State.Mirrors.signal (h : s.Mirrors t) (signal : Signal) :
    (s.signal signal).Mirrors (t.signal signal) := by
  obtain ⟨-, frame, htasks, world, chunk, nextCheck⟩ := h
  exact unwind_mirrors signal frame htasks world chunk nextCheck

/-- An error at the line that is being run. -/
theorem State.Mirrors.throw (h : s.Mirrors t) (message : String) :
    ((s.throw message).2.signal (s.throw message).1).Mirrors
      ((t.throw message).2.signal (t.throw message).1) := by
  have hsignal : (s.throw message).1 = (t.throw message).1 := by
    simp only [State.throw, h.chunk_eq, h.frame_eq]
  rw [hsignal]
  exact h.signal _

/-! ## Memory and places -/

theorem Task.Mirrors.values_eq {task task' : Task} (h : task.Mirrors task') (heap : Heap) :
    task.values heap = task'.values heap := by
  cases h <;> rfl

theorem Control.Mirrors.held_eq {control control' : Control} (h : control.Mirrors control') :
    control.held = control'.held := by
  cases h <;> rfl

theorem heldValues_eq (htasks : List.Forall₂ Task.Mirrors tasks tasks') (heap : Heap)
    (start : List Value) :
    tasks.foldl (fun held task => task.values heap ++ held) start =
      tasks'.foldl (fun held task => task.values heap ++ held) start := by
  induction htasks generalizing start with
  | nil => rfl
  | cons htask hrest ih => rw [List.foldl_cons, List.foldl_cons, htask.values_eq, ih]

theorem State.Mirrors.reachable_eq (h : s.Mirrors t) : s.reachable = t.reachable := by
  obtain ⟨hcontrol, frame, htasks, world, chunk, nextCheck⟩ := h
  simp only [State.reachable, heldValues_eq htasks, hcontrol.held_eq]

theorem State.Mirrors.isShort_eq (h : s.Mirrors t) (bytes : ℕ) :
    isShort s bytes = isShort t bytes := by
  rw [isShort, isShort, h.world_eq, h.frame_eq]

theorem State.Mirrors.provide (h : s.Mirrors t) (bytes : ℕ) :
    (s.provide bytes).1.Mirrors (t.provide bytes).1 ∧
      (s.provide bytes).2 = (t.provide bytes).2 := by
  have hshort := h.isShort_eq bytes
  have hreachable := h.reachable_eq
  unfold State.provide
  rw [hshort, hreachable]
  split
  · exact ⟨h, rfl⟩
  · split
    · have hcounted := h.mapHeap ({ · with used := t.reachable })
      exact ⟨hcounted, congrArg not (hcounted.isShort_eq bytes)⟩
    · exact ⟨h, rfl⟩

theorem places_eq {tasks tasks' : List Task} (htasks : List.Forall₂ Task.Mirrors tasks tasks')
    (chunk : String) (line : ℕ) : places chunk line tasks = places chunk line tasks' := by
  induction htasks generalizing line with
  | nil => rfl
  | @cons task task' _ _ htask hrest ih =>
      cases htask with
      | host hnext nesting levels kept => simp only [places, ih]
      | same => cases task <;> simp only [places, ih]

theorem State.Mirrors.placeAt_eq (h : s.Mirrors t) :
    placeAt s.chunk s.frame.line s.tasks = placeAt t.chunk t.frame.line t.tasks := by
  funext level
  rw [placeAt, placeAt, h.chunk_eq, h.frame_eq, places_eq h.tasks]

end Machine

end Multisample.Script
