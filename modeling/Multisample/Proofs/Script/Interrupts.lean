import Multisample.Proofs.Script.WatchedActs
import Multisample.Script.Evaluation

/-!
# Interrupts are final

Seen from the host an evaluation is a finite nesting of things that follow each
other: the watchdog is looked at between steps, functions of the host are called
and call back, errors are raised.  Of scripts nothing is assumed but that an
error goes to the innermost act of the host that waits for a call; meanwhile any
time passes, and the evaluation may be cancelled at any moment.

However calls are nested and errors are caught, what trips the watchdog first is
what the evaluation ends with.
-/

namespace Multisample.Script

/-! ## What the watchdog watches -/

/-- The looks between steps, the calls that catch errors, and the functions that
build libraries. -/
inductive Watched where
  | tick
  | protectedCall (f : Value) (arguments : List Value)
  | protectedCallWith (f handler : Value) (arguments : List Value)
  | build (f : Builder) (arguments : List Value)

namespace Watched

def act : Watched → Act (List Value)
  | tick => do
      Act.checkWatchdog
      return []
  | protectedCall f arguments => Builtins.protectedCall (f :: arguments)
  | protectedCallWith f handler arguments => Builtins.protectedCallWith (f :: handler :: arguments)
  | build f arguments => Act.guarded (f.run arguments)

theorem keepsStop_act (what : Watched) : what.act.KeepsStop := by
  cases what with
  | tick => exact Act.keepsStop_checkWatchdog.bind fun _ => (Act.keeps_pure _).stop
  | protectedCall f arguments => exact Builtins.keepsStop_protectedCall f arguments
  | protectedCallWith f handler arguments =>
      exact Builtins.keepsStop_protectedCallWith f handler arguments
  | build f arguments => exact (f.keeps_run arguments).guarded

theorem looksLast_act (what : Watched) : what.act.LooksLast := by
  cases what with
  | tick => exact Act.looksLast_checkWatchdog fun _ _ hw => hw
  | protectedCall f arguments => exact Builtins.looksLast_protectedCall f arguments
  | protectedCallWith f handler arguments =>
      exact Builtins.looksLast_protectedCallWith f handler arguments
  | build f arguments => exact Act.looksLast_guarded _

end Watched

/-! ## Runs -/

/-- The end of something watched: its outcome, and the world then. -/
structure Moment where
  what : Watched
  outcome : Except Raised (List Value)
  world : World

/-- What is going on: a script, or an act of the host. -/
inductive Job where
  | script (w : World)
  | host (s : Step (List Value))

/-- A job may go through these moments, one after the other, and end with this
outcome in this world. -/
inductive Runs : Job → List Moment → Except Raised (List Value) → World → Prop
  /-- A script may end at any point, with values or with an error. -/
  | stops (w : World) (outcome : Except Raised (List Value)) : Runs (.script w) [] outcome w
  /-- It changes anything but the watchdog; time passes, and there may be a cancellation. -/
  | works {w later last : World} {path : List Moment} {outcome : Except Raised (List Value)}
      (hkeeps : later.watchdog = w.watchdog) (hrest : Runs (.script later) path outcome last) :
      Runs (.script w) path outcome last
  /-- Something watched is due.  After an error there may be variables to be closed, but the
  script ends with an error. -/
  | asks {w between last : World} (site : Site) (what : Watched) {inner path : List Moment}
      {answer outcome : Except Raised (List Value)}
      (hhost : Runs (.host (what.act site w)) inner answer between)
      (hrest : Runs (.script between) path outcome last)
      (hpasses : ∀ e, answer = .error e → ∃ e', outcome = .error e') :
      Runs (.script w) (inner ++ ⟨what, answer, between⟩ :: path) outcome last
  | done (w : World) (values : List Value) : Runs (.host (.done w values)) [] (.ok values) w
  | raised (w : World) (e : Raised) : Runs (.host (.raised w e)) [] (.error e) w
  /-- A call by an act is a script of its own, whose outcome the act is given. -/
  | calls {w between last : World} {f : Value} {arguments : List Value}
      {next : Except Raised (List Value) → World → Step (List Value)} {inner path : List Moment}
      {answer outcome : Except Raised (List Value)}
      (hbody : Runs (.script w) inner answer between)
      (hrest : Runs (.host (next answer between)) path outcome last) :
      Runs (.host (.call w f arguments next)) (inner ++ path) outcome last
  /-- An act that asks for memory gets it, or is over. -/
  | granted {w later last : World} {bytes : ℕ} {next : World → Step (List Value)}
      {path : List Moment} {outcome : Except Raised (List Value)}
      (hkeeps : later.watchdog = w.watchdog) (hrest : Runs (.host (next later)) path outcome last) :
      Runs (.host (.pause w bytes next)) path outcome last
  | refused {w later : World} {bytes : ℕ} {next : World → Step (List Value)}
      (hkeeps : later.watchdog = w.watchdog) :
      Runs (.host (.pause w bytes next)) [] (.error .refused) later

/-- The outcome that an interrupt leaves to something watched: it is raised in its
place, unless memory was refused before the look at the watchdog. -/
def Interrupt.Ends (i : Interrupt) (outcome : Except Raised (List Value)) : Prop :=
  outcome = .error (.thrown (.failure i.message)) ∨ outcome = .error .refused

/-- The job keeps what has tripped the watchdog, or that nothing has. -/
def Job.Keeps (t : Option Interrupt) (given : Prop) : Job → Prop
  | script w => given → w.watchdog.tripped = t
  | host s => s.Keeps t given

theorem World.StoppedBy.congr {i : Interrupt} {w later : World} (h : w.StoppedBy i)
    (hkeeps : later.watchdog = w.watchdog) : later.StoppedBy i := by
  rw [StoppedBy, hkeeps]
  exact h

namespace Runs

variable {i : Interrupt} {job : Job} {path : List Moment} {outcome : Except Raised (List Value)}
  {last : World}

/-- From a stopped world on, every world is stopped by the same. -/
theorem keeps {given : Prop} (h : Runs job path outcome last) (hjob : job.Keeps (some i) given)
    (hgiven : given) : (∀ m ∈ path, m.world.StoppedBy i) ∧ last.StoppedBy i := by
  induction h generalizing given with
  | stops w outcome => exact ⟨List.forall_mem_nil _, hjob hgiven⟩
  | works hkeeps hrest ih => exact ih (fun _ => World.StoppedBy.congr (hjob hgiven) hkeeps) trivial
  | @asks w between last site what inner path answer outcome hhost hrest hpasses ihhost ihrest =>
      -- what an act keeps is said of the world that it was given, hence the other `given`
      obtain ⟨hinner, hbetween⟩ := ihhost (what.keepsStop_act i site w) (hjob hgiven)
      obtain ⟨hpath, hlast⟩ := ihrest (fun _ => hbetween) trivial
      refine ⟨?_, hlast⟩
      simpa [or_imp, forall_and] using ⟨hinner, hbetween, hpath⟩
  | done w values => exact ⟨List.forall_mem_nil _, hjob hgiven⟩
  | raised w e => exact ⟨List.forall_mem_nil _, hjob hgiven⟩
  | calls hbody hrest ihbody ihrest =>
      obtain ⟨hinner, hbetween⟩ := ihbody (fun _ => hjob.1 hgiven) trivial
      obtain ⟨hpath, hlast⟩ := ihrest (hjob.2 _ _) hbetween
      refine ⟨?_, hlast⟩
      simpa [or_imp, forall_and] using ⟨hinner, hpath⟩
  | granted hkeeps hrest ih => exact ih (hjob.2 _) (World.StoppedBy.congr (hjob.1 hgiven) hkeeps)
  | refused hkeeps => exact ⟨List.forall_mem_nil _, World.StoppedBy.congr (hjob.1 hgiven) hkeeps⟩

/-- An act that looks last ends, in a stopped world, with what stopped it. -/
theorem ends_of_looksLast {s : Step (List Value)} (h : Runs (.host s) path outcome last)
    (hs : s.LooksLast) (hlast : last.StoppedBy i) : i.Ends outcome := by
  generalize hjob : Job.host s = job at h
  induction h generalizing s with
  | stops | works | asks => cases hjob
  | done w values =>
      cases hjob
      exact absurd (hs.symm.trans hlast) (by simp)
  | raised w e =>
      cases hjob
      exact Or.inl (congrArg Except.error (hs i hlast))
  | calls hbody hrest ihbody ihrest =>
      cases hjob
      exact ihrest (hs _ _) hlast rfl
  | granted hkeeps hrest ih =>
      cases hjob
      exact ih (hs _) hlast rfl
  | refused hkeeps => exact Or.inr rfl

theorem ends_of_mem (h : Runs job path outcome last) :
    ∀ m ∈ path, m.world.StoppedBy i → i.Ends m.outcome := by
  induction h with
  | asks site what hhost hrest hpasses ihhost ihrest =>
      intro m hm hstopped
      rcases List.mem_append.mp hm with hm | hm
      · exact ihhost m hm hstopped
      rcases List.mem_cons.mp hm with rfl | hm
      · exact hhost.ends_of_looksLast (what.looksLast_act site _) hstopped
      · exact ihrest m hm hstopped
  | calls hbody hrest ihbody ihrest =>
      intro m hm
      rcases List.mem_append.mp hm with hm | hm
      · exact ihbody m hm
      · exact ihrest m hm
  | works hkeeps hrest ih => exact ih
  | granted hkeeps hrest ih => exact ih
  | _ => exact List.forall_mem_nil _

/-- A script in which the watchdog trips ends with an error: whatever trips it is
itself stopped, and a script does not go on after an error. -/
theorem fails {w : World} (h : Runs (.script w) path outcome last)
    (hclear : w.watchdog.tripped = none) (hlast : last.StoppedBy i) : ∃ e, outcome = .error e := by
  generalize hjob : Job.script w = job at h
  induction h generalizing w with
  | stops w outcome =>
      cases hjob
      exact absurd (hclear.symm.trans hlast) (by simp)
  | works hkeeps hrest ih =>
      cases hjob
      exact ih (hkeeps ▸ hclear) hlast rfl
  | @asks _ between _ site what _ _ _ _ hhost hrest hpasses ihhost ihrest =>
      cases hjob
      cases htripped : between.watchdog.tripped with
      | none => exact ihrest htripped hlast rfl
      | some j =>
          -- it tripped in what was due, which has failed, and the script fails with it
          rcases hhost.ends_of_looksLast (what.looksLast_act site _) htripped with h | h
          · exact hpasses _ h
          · exact hpasses _ h
  | _ => cases hjob

/-- A moment that finds the watchdog tripped leaves it so to all that follow. -/
theorem persists (h : Runs job path outcome last)
    (hjob : ∀ s, job = .host s → ∃ given, s.Keeps (some i) given) :
    (path.Pairwise fun m later => m.world.StoppedBy i → later.world.StoppedBy i) ∧
      ∀ m ∈ path, m.world.StoppedBy i → last.StoppedBy i := by
  induction h with
  | works hkeeps hrest ih => exact ih nofun
  | @asks w between last site what inner path answer outcome hhost hrest hpasses ihhost ihrest =>
      obtain ⟨hinner, hbetween⟩ := ihhost (by rintro _ ⟨⟩; exact ⟨_, what.keepsStop_act i site w⟩)
      obtain ⟨hpath, -⟩ := ihrest nofun
      -- the moments inside come first, then the moment itself, then the rest of the script
      have hafter : between.StoppedBy i → (∀ m ∈ path, m.world.StoppedBy i) ∧ last.StoppedBy i :=
        fun hstopped => hrest.keeps (fun _ => hstopped) trivial
      rw [List.pairwise_append, List.pairwise_cons]
      refine ⟨⟨hinner, ⟨fun later hlater hm => (hafter hm).1 later hlater, hpath⟩, ?_⟩, ?_⟩
      · intro m hm later hlater hstopped
        have hreached := hbetween m hm hstopped
        rcases List.mem_cons.mp hlater with rfl | hlater
        · exact hreached
        · exact (hafter hreached).1 later hlater
      · intro m hm hstopped
        rcases List.mem_append.mp hm with hm | hm
        · exact (hafter (hbetween m hm hstopped)).2
        rcases List.mem_cons.mp hm with rfl | hm
        · exact (hafter hstopped).2
        · exact (ihrest nofun).2 m hm hstopped
  | @calls w between last f arguments next inner path answer outcome hbody hrest ihbody ihrest =>
      obtain ⟨given, -, hnext⟩ := hjob _ rfl
      obtain ⟨hinner, hbetween⟩ := ihbody nofun
      obtain ⟨hpath, hlast⟩ := ihrest (by rintro _ ⟨⟩; exact ⟨_, hnext answer between⟩)
      have hafter : between.StoppedBy i → (∀ m ∈ path, m.world.StoppedBy i) ∧ last.StoppedBy i :=
        fun hstopped => hrest.keeps (hnext answer between) hstopped
      rw [List.pairwise_append]
      refine ⟨⟨hinner, hpath, ?_⟩, ?_⟩
      · intro m hm later hlater hstopped
        exact (hafter (hbetween m hm hstopped)).1 later hlater
      · intro m hm hstopped
        rcases List.mem_append.mp hm with hm | hm
        · exact (hafter (hbetween m hm hstopped)).2
        · exact hlast m hm hstopped
  | @granted w later last bytes next path outcome hkeeps hrest ih =>
      obtain ⟨given, -, hnext⟩ := hjob _ rfl
      exact ih (by rintro _ ⟨⟩; exact ⟨_, hnext later⟩)
  | _ => exact ⟨List.Pairwise.nil, List.forall_mem_nil _⟩

end Runs

/-! ## The interpreter -/

namespace Machine

/-- Where it is time the interpreter's look at the watchdog is a tick. -/
theorem watch_eq (s : State) (h : s.nextCheck ≤ s.world.steps) (site : Site) :
    watch s = match Watched.tick.act site s.world with
      | .done w _ => { s with world := w, nextCheck := s.world.steps + checkInterval }
      | .raised w e => unwind (.raise e) s.frame s.tasks w s.chunk (s.world.steps + checkInterval)
      | _ => s := by
  have htick : Watched.tick.act site s.world =
      (Act.checkWatchdog site s.world).bind fun _ w => .done w [] := rfl
  rw [htick, watch, if_neg (Nat.not_lt.mpr h)]
  unfold Act.checkWatchdog
  dsimp only
  cases s.world.checkWatchdog.watchdog.tripped <;> rfl

/-- A task that an error does not stop at. -/
def Task.IsPassed : Task → Prop
  | .host .. | .close _ => False
  | _ => True

/-- With no variable to close on its way an error goes to the innermost act of
the host that waits for a call. -/
theorem unwind_raise (e : Raised) {inner : List Task} (hinner : ∀ task ∈ inner, task.IsPassed)
    (frame : Frame) (next : Except Raised (List Value) → World → Step (List Value))
    (nesting levels : ℕ) (kept : List Value) (rest : List Task) (world : World) (chunk : String)
    (nextCheck : ℕ) : ∃ caller,
      unwind (.raise e) frame (inner ++ .host next nesting levels kept :: rest) world chunk
        nextCheck = ⟨.host (next (.error e)) levels kept, caller, rest, world, chunk, nextCheck⟩ := by
  induction inner generalizing frame with
  | nil => exact ⟨_, rfl⟩
  | cons task inner ih =>
      have hpassed := hinner task List.mem_cons_self
      have hrest := ih fun task htask => hinner task (List.mem_cons_of_mem _ htask)
      cases task with
      | host => exact hpassed.elim
      | close => exact hpassed.elim
      | back caller => exact hrest caller
      | _ => exact hrest frame

end Machine

/-! ## Evaluations -/

namespace Evaluation

/-- What an evaluation comes to that ends with this outcome in this world. -/
def conclude (e : Evaluation) (last : World) (outcome : Except Raised (List Value)) :
    Except ScriptError Library := do
  e.returned last.build.libraries (← outcome.mapError (e.classify last))

theorem world_clear (e : Evaluation) : e.world.watchdog.tripped = none := by
  unfold world
  obtain ⟨heap, globals, texts⟩ := Builtins.start
  rfl

/-- An evaluation is what its run comes to, which starts with nothing tripped. -/
theorem evaluate_eq_conclude (e : Evaluation) {s : Machine.State} (h : e.start = .ok s) :
    s.world.watchdog.tripped = none ∧
      evaluate e = e.conclude (Machine.run Machine.maxSteps s).world
        (Machine.outcome (Machine.run Machine.maxSteps s)) := by
  constructor
  · have hclear := e.world_clear
    unfold start at h
    generalize e.world = w at h hclear
    cases hprogram : e.program with
    | act body =>
        simp only [hprogram, Except.ok.injEq] at h
        exact h ▸ hclear
    | script text =>
        simp only [hprogram] at h
        split at h
        · cases h
          exact hclear
        · cases h
  · unfold evaluate run ending
    rw [h]
    rfl

theorem conclude_of_stopped (e : Evaluation) {i : Interrupt} {last : World}
    (h : last.StoppedBy i) (raised : Raised) :
    e.conclude last (.error raised) = .error (e.interrupted i) := by
  have hclassify : e.classify last raised = e.interrupted i := by
    have htripped : last.watchdog.tripped = some i := h
    simp only [classify, htripped]
  show Except.error (e.classify last raised) = _
  rw [hclassify]

/-- However the calls of an evaluation are nested and its errors caught, whatever
time passes and whenever it is cancelled: what trips the watchdog stays, nothing
watched succeeds after that, and the evaluation ends with it. -/
theorem interrupt_is_final (e : Evaluation) {start last : World} {path : List Moment}
    {outcome : Except Raised (List Value)} (hstart : start.watchdog.tripped = none)
    (h : Runs (.script start) path outcome last) (i : Interrupt) :
    path.Pairwise (fun m later => m.world.StoppedBy i → later.world.StoppedBy i) ∧
      (∀ m ∈ path, m.world.StoppedBy i → i.Ends m.outcome ∧ last.StoppedBy i ∧ ∀ site,
        Act.checkWatchdog site m.world = .raised m.world (.thrown (.failure i.message))) ∧
      (last.StoppedBy i → e.conclude last outcome = .error (e.interrupted i) ∧
        ∀ s, e.start = .ok s → (Machine.run Machine.maxSteps s).world = last →
          Machine.outcome (Machine.run Machine.maxSteps s) = outcome →
            evaluate e = .error (e.interrupted i)) := by
  obtain ⟨hpath, hlast⟩ := h.persists (i := i) nofun
  refine ⟨hpath, fun m hm hstopped => ?_, fun hstopped => ?_⟩
  · exact ⟨h.ends_of_mem m hm hstopped, hlast m hm hstopped,
      Act.checkWatchdog_of_stopped hstopped⟩
  · obtain ⟨raised, rfl⟩ := h.fails hstart hstopped
    have hconclude := e.conclude_of_stopped hstopped raised
    refine ⟨hconclude, fun s hs hworld houtcome => ?_⟩
    rw [(e.evaluate_eq_conclude hs).2, hworld, houtcome]
    exact hconclude

/-- A protected call runs out of time, and what it is given to catch is raised
again. -/
theorem interrupt_is_final_in_protected_call :
    let e : Evaluation := ⟨.script .empty, "floe.lua", { time := ⟨0⟩ }, false⟩
    let start : World := { build := default, watchdog := { limit := 0 } }
    let last := start.checkWatchdog
    let outcome : Except Raised (List Value) :=
      .error (.thrown (.failure Interrupt.timeout.message))
    let path := [⟨.tick, outcome, last⟩, ⟨.protectedCall .nil [], outcome, last⟩]
    start.watchdog.tripped = none ∧ Runs (.script start) path outcome last ∧
      last.StoppedBy .timeout ∧ e.conclude last outcome = .error (e.interrupted .timeout) := by
  intro e start last outcome path
  have hstart : start.watchdog.tripped = none := rfl
  have hlast : last.StoppedBy .timeout := rfl
  have htick : Runs (.host (Watched.tick.act default start)) [] outcome last := .raised last _
  have hbody : Runs (.script start) [⟨.tick, outcome, last⟩] outcome last :=
    .asks default .tick htick (.stops last outcome) fun e h => ⟨e, h⟩
  have hcall : Runs (.host ((Watched.protectedCall .nil []).act default start))
      [⟨.tick, outcome, last⟩] outcome last :=
    .calls hbody (.raised last _)
  have hruns : Runs (.script start) path outcome last :=
    .asks default (.protectedCall .nil []) hcall (.stops last outcome) fun e h => ⟨e, h⟩
  exact ⟨hstart, hruns, hlast, ((interrupt_is_final e hstart hruns .timeout).2.2 hlast).1⟩

end Evaluation

end Multisample.Script
