import Multisample.Proofs.Script.Interrupts
import Multisample.Proofs.Script.TwoHosts

/-!
# Protected calls and those of the language

The calls that catch errors are wrapped: once the watchdog has tripped, nothing is
caught any more.  A refusal of memory is told by what a call hands back, which is
the text that the language raises then.  As long as a look at the watchdog finds
nothing, an interpreter with the wrapped calls and one with those of the language
make the same steps, unless the script raises that very text itself.
-/

namespace Multisample.Script

/-! ## The calls of the language -/

namespace Builtins

open Act

/-- The call that catches errors, as the language has it. -/
def plainCall (arguments : List Value) : Act (List Value) :=
  match arguments with
  | [] => fail "not enough arguments to pcall"
  | f :: arguments => do
    match ← attempt f arguments with
    | .ok values => return succeeded values
    | .error e => return failed e.value

/-- The one with a handler. -/
def plainCallWith (arguments : List Value) : Act (List Value) :=
  match arguments with
  | f :: handler :: arguments => do
    match ← attempt f arguments with
    | .ok values => return succeeded values
    | .error e => handleError handler 10 e
  | _ => fail "not enough arguments to xpcall"

theorem protectedCall_eq (arguments : List Value) :
    protectedCall arguments = plainCall arguments >>= protect := by
  cases arguments with
  | nil => rfl
  | cons f arguments =>
      funext site w
      refine congrArg (Step.call w f arguments) (funext fun r => ?_)
      cases r <;> rfl

theorem protectedCallWith_eq (arguments : List Value) :
    protectedCallWith arguments = plainCallWith arguments >>= protect := by
  match arguments with
  | [] => rfl
  | [_] => rfl
  | f :: handler :: arguments =>
      funext site w
      refine congrArg (Step.call w f arguments) (funext fun r => ?_)
      cases r <;> rfl

/-- They call something before they are done. -/
theorem plainCall_ne_done (arguments : List Value) (site : Site) (w later : World)
    (values : List Value) : plainCall arguments site w ≠ .done later values := by
  cases arguments <;> exact nofun

theorem plainCallWith_ne_done (arguments : List Value) (site : Site) (w later : World)
    (values : List Value) : plainCallWith arguments site w ≠ .done later values := by
  match arguments with
  | [] => exact nofun
  | [_] => exact nofun
  | _ :: _ :: _ => exact nofun

end Builtins

/-- The call of the language in place of a function that wraps it. -/
def Builtin.unwrapped (b : Builtin) : Builtin :=
  if b.name = "pcall" then { b with run := fun _ => Builtins.plainCall }
  else if b.name = "xpcall" then { b with run := fun _ => Builtins.plainCallWith }
  else b

/-- The host with the calls of the language, called through one function more, as the
wrapped ones are. -/
abbrev plainHost : Machine.Host := ⟨Builtins.all.map Builtin.unwrapped⟩

namespace Builtins

theorem run_of_mem : ∀ b ∈ all.toList,
    (b.name = "pcall" → ∀ state arguments, b.run state arguments = protectedCall arguments) ∧
      (b.name = "xpcall" →
        ∀ state arguments, b.run state arguments = protectedCallWith arguments) := by
  simp [all, steps, base, Texts.all, Tables.all, Numbers.all, Unicode.all, Libraries.all,
    Libraries.guardedFunction, Builtin.plain, toString]

/-- The wrapped calls are told by their names. -/
theorem run_of_name (id : ℕ) :
    let b := all.getD id default
    (b.name = "pcall" → ∀ state arguments, b.run state arguments = protectedCall arguments) ∧
      (b.name = "xpcall" →
        ∀ state arguments, b.run state arguments = protectedCallWith arguments) := by
  rw [Array.getD_eq_getD_getElem?]
  cases hb : all[id]? with
  | none => exact ⟨nofun, nofun⟩
  | some b => exact run_of_mem b (Array.mem_toList_iff.mpr (Array.mem_of_getElem? hb))

end Builtins

namespace Builtin

theorem unwrapped_name (b : Builtin) : b.unwrapped.name = b.name := by
  unfold unwrapped
  split
  · rfl
  · split <;> rfl

theorem unwrapped_levels (b : Builtin) : b.unwrapped.levels = b.levels := by
  unfold unwrapped
  split
  · rfl
  · split <;> rfl

theorem unwrapped_mirrors {b : Builtin}
    (hcall : b.name = "pcall" →
      ∀ state arguments, b.run state arguments = Builtins.protectedCall arguments)
    (hcallWith : b.name = "xpcall" →
      ∀ state arguments, b.run state arguments = Builtins.protectedCallWith arguments)
    (state : Option ℕ) (arguments : List Value) (site : Site) (w : World) :
    (b.run state arguments site w).Mirrors (b.unwrapped.run state arguments site w) := by
  unfold unwrapped
  split
  · rename_i hname
    rw [hcall hname, Builtins.protectedCall_eq]
    exact Step.mirrors_protect _ site
  · split
    · rename_i hname
      rw [hcallWith hname, Builtins.protectedCallWith_eq]
      exact Step.mirrors_protect _ site
    · exact Step.mirrors_self _

theorem unwrapped_done {b : Builtin} {state : Option ℕ} {arguments : List Value} {site : Site}
    {w later : World} {values : List Value}
    (h : b.unwrapped.run state arguments site w = .done later values) :
    b.run state arguments site w = .done later values := by
  unfold unwrapped at h
  split at h
  · exact absurd h (Builtins.plainCall_ne_done arguments site w later values)
  · split at h
    · exact absurd h (Builtins.plainCallWith_ne_done arguments site w later values)
    · exact h

end Builtin

theorem plainHost_functions (id : ℕ) :
    plainHost.functions.getD id default = (Builtins.all.getD id default).unwrapped := by
  show (Builtins.all.map Builtin.unwrapped).getD id default = _
  rw [Array.getD_eq_getD_getElem?, Array.getD_eq_getD_getElem?, Array.getElem?_map]
  cases Builtins.all[id]? <;> rfl

/-- The host of every evaluation wraps the calls of the language and changes nothing
else. -/
theorem host_mirrors_plainHost : Machine.Host.Mirrors inferInstance plainHost where
  name id := by
    rw [plainHost_functions]
    exact (Builtin.unwrapped_name _).symm
  levels id := by
    rw [plainHost_functions]
    exact (Builtin.unwrapped_levels _).symm
  run id := by
    obtain ⟨hcall, hcallWith⟩ := Builtins.run_of_name id
    rw [plainHost_functions]
    exact Builtin.unwrapped_mirrors hcall hcallWith
  done id state arguments site w later values h := by
    rw [plainHost_functions] at h
    exact Builtin.unwrapped_done h

/-! ## Looks at the watchdog -/

theorem Watchdog.check_of_clear {d : Watchdog} {elapsed : ℕ} {cancelled : Bool}
    (h : (d.check elapsed cancelled).tripped = none) : d.check elapsed cancelled = d := by
  unfold check at h ⊢
  split
  · rfl
  · rename_i htripped
    rw [if_neg htripped] at h
    split at h
    · cases h
    · rename_i hcancelled
      rw [if_neg hcancelled]
      split at h
      · cases h
      · rename_i hlimit
        rw [if_neg hlimit]

theorem Watchdog.refuse_tripped_ne (d : Watchdog) : d.refuse.tripped ≠ none := by
  unfold refuse
  split
  · rename_i h
    exact Option.isSome_iff_ne_none.mp h
  · exact Option.some_ne_none _

theorem World.checkWatchdog_of_clear {w : World} (h : w.checkWatchdog.watchdog.tripped = none) :
    w.checkWatchdog = w := by
  have hcheck : w.watchdog.check w.elapsed w.cancelled = w.watchdog := Watchdog.check_of_clear h
  rw [World.checkWatchdog, hcheck]

theorem Watchdog.refuse_of_clear {d : Watchdog} (h : d.tripped = none) :
    d.refuse.tripped = some .refused := by
  rw [refuse, if_neg (by simp [h])]

/-- A look at the watchdog finds nothing: memory has not been refused, the time is not
up, and nobody has cancelled. -/
def World.IsCalm (w : World) : Prop :=
  w.checkWatchdog.watchdog.tripped = none

instance (w : World) : Decidable w.IsCalm :=
  inferInstanceAs (Decidable (_ = _))

theorem World.IsCalm.tripped {w : World} (h : w.IsCalm) : w.watchdog.tripped = none := by
  rwa [IsCalm, checkWatchdog_of_clear h] at h

namespace Builtins

theorem protect_eq (values : List Value) (site : Site) (w : World) :
    protect values site w =
      (Act.checkWatchdog site
          (if saysRefused values then { w with watchdog := w.watchdog.refuse } else w)).bind
        fun _ w => .done w values := by
  unfold protect
  cases saysRefused values <;> rfl

theorem protect_of_calm {values : List Value} {w : World} (hvalues : saysRefused values = false)
    (h : w.IsCalm) (site : Site) : protect values site w = .done w values := by
  have hlook : Act.checkWatchdog site w = .done w () := by
    unfold Act.checkWatchdog
    rw [World.checkWatchdog_of_clear h]
    simp only [h.tripped]
  rw [protect_eq, hvalues, if_neg Bool.false_ne_true, hlook, Step.bind]

/-- What is taken for a refusal trips the watchdog. -/
theorem protect_of_refused {values : List Value} (hvalues : saysRefused values = true)
    (site : Site) (w : World) :
    ∃ e, protect values site w = .raised { w with watchdog := w.watchdog.refuse } e := by
  obtain ⟨i, hi⟩ := Option.ne_none_iff_exists'.mp w.watchdog.refuse_tripped_ne
  have hstopped : World.StoppedBy i { w with watchdog := w.watchdog.refuse } := hi
  refine ⟨.thrown (.failure i.message), ?_⟩
  rw [protect_eq, hvalues, if_pos rfl, Act.checkWatchdog_of_stopped hstopped, Step.bind]

end Builtins

/-! ## Runs -/

namespace Machine

/-- A run with the calls of the language. -/
def plainRun (n : ℕ) (s : State) : State :=
  @run plainHost n s

/-- The next step ends a protected call, and takes what this hands back for a refusal. -/
def State.TakesRefusal (s : State) : Prop :=
  ∃ next levels kept w values site, (ready s).control = .host next levels kept ∧
    next (ready s).world = Builtins.protect values site w ∧ Builtins.saysRefused values = true

variable {s : State}

theorem plainRun_succ (n : ℕ) (s : State) : plainRun (n + 1) s = @turn plainHost (plainRun n s) :=
  @run_succ_apply plainHost n s

/-- The interpreter does the same with both hosts, up to where a wrapped call takes
something for a refusal. -/
theorem run_mirrors (hcalm : ∀ n, (plainRun n s).world.IsCalm) (n : ℕ)
    (hread : ∀ m < n, ¬ (run m s).TakesRefusal) : (run n s).Mirrors (plainRun n s) := by
  induction n with
  | zero => exact State.mirrors_self s
  | succ n ih =>
      replace ih := ih fun m hm => hread m (Nat.lt_succ_of_lt hm)
      have hcalmer := hcalm (n + 1)
      rw [plainRun_succ] at hcalmer ⊢
      rw [run_succ_apply]
      refine turn_mirrors host_mirrors_plainHost ih ?_
      intro next next' levels kept w values hcontrol hcontrol' hdone
      obtain ⟨-, hw⟩ := @turn_of_done _ plainHost _ _ _ _ _ hcontrol' hdone
      rw [hw] at hcalmer
      have hnext : (next (ready (run n s)).world).Mirrors (.done w values) := by
        have hready := (ready_mirrors ih).control
        rw [hcontrol, hcontrol'] at hready
        rw [← hdone, (ready_mirrors ih).world_eq]
        cases hready with
        | same => exact Step.mirrors_self _
        | host hnext => exact hnext _
      generalize hstep : next (ready (run n s)).world = step at hnext ⊢
      cases hnext with
      | done => rfl
      | looks site =>
          refine Builtins.protect_of_calm ?_ hcalmer site
          by_contra hrefused
          rw [Bool.not_eq_false] at hrefused
          refine hread n n.lt_succ_self ?_
          exact ⟨next, levels, kept, w, values, site, hcontrol, hstep, hrefused⟩

/-- Where a wrapped call takes something for a refusal, the one of the language hands
it on; but the watchdog trips. -/
theorem stopped_of_takesRefusal {n : ℕ} (hcalm : (plainRun (n + 1) s).world.IsCalm)
    (h : (run n s).Mirrors (plainRun n s)) (htakes : (run n s).TakesRefusal) :
    (∃ values, Builtins.saysRefused values = true ∧
        (plainRun (n + 1) s).control = .values values) ∧
      (run (n + 1) s).world.StoppedBy .refused := by
  obtain ⟨next, levels, kept, w, values, site, hcontrol, hnext, hrefused⟩ := htakes
  obtain ⟨e, hraised⟩ := Builtins.protect_of_refused hrefused site w
  rw [plainRun_succ] at hcalm ⊢
  rw [run_succ_apply]
  have hready := ready_mirrors h
  have hcontrols := hready.control
  rw [hcontrol] at hcontrols
  obtain ⟨next', hcontrol', hmirrors⟩ := hcontrols.of_host
  have hstep := hmirrors (ready (run n s)).world
  rw [hnext, hraised] at hstep
  generalize hnext' : next' (ready (run n s)).world = step' at hstep
  rw [hready.world_eq] at hnext'
  generalize hstopped : Step.raised _ e = step at hstep
  cases hstep with
  | done | call | pause => cases hstopped
  | raised later e' =>
      -- the act is no protected call, and the watchdog has tripped all the same
      cases hstopped
      rw [@turn_of_raised _ plainHost _ _ _ _ _ hcontrol' hnext'] at hcalm
      exact absurd hcalm.tripped w.watchdog.refuse_tripped_ne
  | looks site' w' values' =>
      obtain ⟨hvalues, hworld⟩ := @turn_of_done _ plainHost _ _ _ _ _ hcontrol' hnext'
      rw [hworld] at hcalm
      have hrefused' : Builtins.saysRefused values' = true := by
        by_contra hread
        rw [Bool.not_eq_true] at hread
        rw [Builtins.protect_of_calm hread hcalm] at hstopped
        cases hstopped
      obtain ⟨e', hraised'⟩ := Builtins.protect_of_refused hrefused' site' w'
      refine ⟨⟨values', hrefused', hvalues⟩, ?_⟩
      rw [turn_of_raised hcontrol (hnext.trans (hraised.trans (hstopped.trans hraised')))]
      exact Watchdog.refuse_of_clear hcalm.tripped

/-- Nothing is taken for a refusal if the calls of the language hand nothing on that
says so. -/
theorem not_takesRefusal (hcalm : ∀ n, (plainRun n s).world.IsCalm)
    (hread : ∀ n values, (plainRun n s).control = .values values →
      Builtins.saysRefused values = false) (n : ℕ) : ¬ (run n s).TakesRefusal := by
  induction n using Nat.strongRecOn with
  | _ n ih =>
      intro htakes
      obtain ⟨⟨values, hrefused, hvalues⟩, -⟩ :=
        stopped_of_takesRefusal (hcalm (n + 1)) (run_mirrors hcalm n ih) htakes
      cases hrefused.symm.trans (hread (n + 1) values hvalues)

/-! ### Runs that are over soon -/

def State.isHalted (s : State) : Bool :=
  match s.control with
  | .halt _ => true
  | _ => false

theorem exists_halt_of_isHalted (h : s.isHalted = true) :
    ∃ outcome, s.control = .halt outcome := by
  unfold State.isHalted at h
  split at h
  · exact ⟨_, ‹_›⟩
  · cases h

/-- Whether values are handed on that say that memory was refused. -/
def State.handsOnRefusal (s : State) : Bool :=
  match s.control with
  | .values values => Builtins.saysRefused values
  | _ => false

/-- Whether a run with the calls of the language is over after fewer steps than
these, in states that all pass a check. -/
def endsWithin (check : State → Bool) : ℕ → State → Bool
  | 0, _ => false
  | n + 1, s => check s && (s.isHalted || endsWithin check n (@turn plainHost s))

theorem check_of_endsWithin {check : State → Bool} {fuel : ℕ}
    (h : endsWithin check fuel s = true) (n : ℕ) : check (plainRun n s) = true := by
  induction fuel generalizing n s with
  | zero => cases h
  | succ fuel ih =>
      rw [endsWithin, Bool.and_eq_true, Bool.or_eq_true] at h
      obtain ⟨hcheck, hhalted | hrest⟩ := h
      · obtain ⟨outcome, houtcome⟩ := exists_halt_of_isHalted hhalted
        rwa [plainRun, @run_of_halted s plainHost outcome houtcome]
      · cases n with
        | zero => exact hcheck
        | succ n =>
            have hrun := ih hrest n
            rwa [plainRun, ← @run_succ plainHost] at hrun

end Machine

/-! ## Evaluations -/

namespace Evaluation

/-- Whether the error that ends an evaluation is taken for a refusal of memory. -/
def TakesForRefusal (e : Evaluation) (last : World) (outcome : Except Raised (List Value)) : Prop :=
  ∃ v, outcome = .error (.thrown v) ∧ (∀ message, v ≠ .failure message) ∧
    Machine.uncaughtText v last (ChunkName.ofFileName e.filename) = refusedMessage

theorem returned_kind (e : Evaluation) {libraries : List Library} {values : List Value}
    {failure : ScriptError} (h : e.returned libraries values = .error failure) :
    failure.kind ≠ .outOfMemory := by
  unfold returned at h
  dsimp only at h
  split at h
  · split at h
    · cases h
    · cases h
      simp [Evaluation.failure]
  all_goals
    cases h
    simp [Evaluation.failure]

theorem classify_outOfMemory_iff (e : Evaluation) {last : World} (v : Value)
    (hlast : last.watchdog.tripped = none) :
    (e.classify last (.thrown v)).kind = .outOfMemory ↔
      (∀ message, v ≠ .failure message) ∧
        Machine.uncaughtText v last (ChunkName.ofFileName e.filename) = refusedMessage := by
  cases v with
  | failure message => simp [classify, hlast, runtimeFailure, Evaluation.failure]
  | _ =>
      simp only [classify, hlast]
      split
      · simp_all [Evaluation.failure]
      · simp_all [runtimeFailure, Evaluation.failure]

theorem conclude_outOfMemory_iff (e : Evaluation) {last : World}
    {outcome : Except Raised (List Value)} (hlast : last.watchdog.tripped = none)
    (houtcome : outcome ≠ .error .refused) :
    (∃ failure, e.conclude last outcome = .error failure ∧ failure.kind = .outOfMemory) ↔
      e.TakesForRefusal last outcome := by
  cases outcome with
  | ok values =>
      constructor
      · rintro ⟨failure, hfailure, hkind⟩
        exact absurd hkind (e.returned_kind hfailure)
      · rintro ⟨v, hv, -⟩
        cases hv
  | error raised =>
      cases raised with
      | refused => exact absurd rfl houtcome
      | thrown v =>
          have hconclude : e.conclude last (.error (.thrown v)) =
              .error (e.classify last (.thrown v)) := rfl
          simp only [hconclude, Except.error.injEq, exists_eq_left', TakesForRefusal,
            Raised.thrown.injEq, e.classify_outOfMemory_iff v hlast]

/-! ### Evaluations that are over soon -/

/-- Whether the calls of the language let an evaluation end with values, in states
that all pass a check. -/
def endsPlainly (check : Machine.State → Bool) (e : Evaluation) : Bool :=
  match e.start with
  | .ok start =>
    Machine.endsWithin check Machine.maxSteps start &&
      match Machine.outcome (Machine.plainRun Machine.maxSteps start) with
      | .ok _ => true
      | .error _ => false
  | .error _ => false

theorem parts_of_endsPlainly {check : Machine.State → Bool} {e : Evaluation}
    (h : e.endsPlainly check = true) :
    ∃ start values, e.start = .ok start ∧
      (∀ n, check (Machine.plainRun n start) = true) ∧
      Machine.outcome (Machine.plainRun Machine.maxSteps start) = .ok values := by
  unfold endsPlainly at h
  split at h
  · rename_i start hstart
    rw [Bool.and_eq_true] at h
    obtain ⟨hcheck, houtcome⟩ := h
    split at houtcome
    · rename_i values hvalues
      exact ⟨start, values, hstart, Machine.check_of_endsWithin hcheck, hvalues⟩
    · cases houtcome
  · cases h

/-- How an evaluation fails, if it does. -/
def failure? (e : Evaluation) : Option ScriptFailure :=
  match evaluate e with
  | .ok _ => none
  | .error failure => some failure.kind

/-- A script that catches an error of its own with this text and then returns a
library.  It may take any memory. -/
def catching (message : String) : Evaluation where
  program := .script (Bytes.ofString ("pcall(error, '" ++ message ++ "', 0) " ++
    "return floe.new_library(\x7bname = 'L', tagline = 't', author = 'me'\x7d)"))
  path := "/libs/floe.lua"
  limits := { bytes := 0 }

/-! ### What the wrapping changes -/

/-- Let nothing interrupt an evaluation that has the calls of the language, and let it
not end for want of memory.  Then the wrapped calls do the same as those of the
language, and the evaluation does not fail for want of memory either, exactly if no
wrapped call takes what it is handed back for a refusal and no error with that text
ends the evaluation.  Where a wrapped call does take it for one, that of the language
just hands it on. -/
theorem protected_calls_plain_iff (e : Evaluation) {start : Machine.State}
    (hstart : e.start = .ok start) (hcalm : ∀ n, (Machine.plainRun n start).world.IsCalm)
    (hgranted : Machine.outcome (Machine.plainRun Machine.maxSteps start) ≠ .error .refused) :
    let last := Machine.plainRun Machine.maxSteps start
    (((∀ n, (Machine.run n start).Mirrors (Machine.plainRun n start)) ∧
          ∀ failure, evaluate e = .error failure → failure.kind ≠ .outOfMemory) ↔
        (∀ n, ¬ (Machine.run n start).TakesRefusal) ∧
          ¬ e.TakesForRefusal last.world (Machine.outcome last)) ∧
      ∀ n, (Machine.run n start).Mirrors (Machine.plainRun n start) →
        (Machine.run n start).TakesRefusal →
          (∃ values, Builtins.saysRefused values = true ∧
              (Machine.plainRun (n + 1) start).control = .values values) ∧
            (Machine.run (n + 1) start).world.StoppedBy .refused := by
  intro last
  have hstopped (n : ℕ) := Machine.stopped_of_takesRefusal (hcalm (n + 1))
  have hconclude (hsame : ∀ n, (Machine.run n start).Mirrors (Machine.plainRun n start)) :
      evaluate e = e.conclude last.world (Machine.outcome last) := by
    rw [(e.evaluate_eq_conclude hstart).2, (hsame _).world_eq, Machine.outcome_eq (hsame _)]
  have hmemory := e.conclude_outOfMemory_iff (hcalm Machine.maxSteps).tripped hgranted
  refine ⟨⟨?_, ?_⟩, hstopped⟩
  · rintro ⟨hsame, hkind⟩
    rw [hconclude hsame] at hkind
    refine ⟨fun n htakes => ?_, fun htaken => ?_⟩
    · have htripped := (hstopped n (hsame n) htakes).2
      rw [(hsame (n + 1)).world_eq] at htripped
      cases (hcalm (n + 1)).tripped.symm.trans htripped
    · obtain ⟨failure, hfailure, houtOfMemory⟩ := hmemory.mpr htaken
      exact hkind failure hfailure houtOfMemory
  · rintro ⟨hread, htaken⟩
    have hsame (n : ℕ) := Machine.run_mirrors hcalm n fun m _ => hread m
    refine ⟨hsame, fun failure hfailure hkind => ?_⟩
    rw [hconclude hsame] at hfailure
    exact htaken (hmemory.mp ⟨failure, hfailure, hkind⟩)

/-- An error is caught, and nobody sees the wrapping. -/
theorem protected_calls_plain_of_boom :
    ∃ start, (catching "boom").start = .ok start ∧
      (∀ n, (Machine.plainRun n start).world.IsCalm) ∧
      Machine.outcome (Machine.plainRun Machine.maxSteps start) ≠ .error .refused ∧
      (∀ n, (Machine.run n start).Mirrors (Machine.plainRun n start)) ∧
      ∀ failure, evaluate (catching "boom") = .error failure → failure.kind ≠ .outOfMemory := by
  have hends : (catching "boom").endsPlainly
      (fun s => decide s.world.IsCalm && !s.handsOnRefusal) = true := by
    decide +kernel
  obtain ⟨start, values, hstart, hcheck, houtcome⟩ := parts_of_endsPlainly hends
  simp only [Bool.and_eq_true, decide_eq_true_eq, Bool.not_eq_true', forall_and] at hcheck
  obtain ⟨hcalm, hread⟩ := hcheck
  have hgranted : Machine.outcome (Machine.plainRun Machine.maxSteps start) ≠ .error .refused := by
    rw [houtcome]
    exact nofun
  have htakes := Machine.not_takesRefusal hcalm fun n values hvalues => by
    simpa only [Machine.State.handsOnRefusal, hvalues] using hread n
  have htaken : ¬ (catching "boom").TakesForRefusal
      (Machine.plainRun Machine.maxSteps start).world
      (Machine.outcome (Machine.plainRun Machine.maxSteps start)) := by
    rw [houtcome]
    rintro ⟨v, hv, -⟩
    cases hv
  obtain ⟨⟨-, hplain⟩, -⟩ := protected_calls_plain_iff _ hstart hcalm hgranted
  obtain ⟨hsame, hkind⟩ := hplain ⟨htakes, htaken⟩
  exact ⟨start, hstart, hcalm, hgranted, hsame, hkind⟩

/-- A text of the script's own is taken for a refusal, though memory has no limit and
nothing interrupts the script: with the calls of the language it ends with a value. -/
theorem refusal_text_is_not_caught :
    (catching refusedMessage).limits.bytes = 0 ∧
      (catching refusedMessage).endsPlainly (fun s => decide s.world.IsCalm) = true ∧
      (catching refusedMessage).failure? = some .outOfMemory := by
  decide +kernel

end Evaluation

end Multisample.Script
