import Multisample.Proofs.Script.Mirrors

/-!
# One interpreter with two hosts

The interpreter knows the functions of its host by their places only.  Two hosts
may have functions that do the same, but that those of the first one look at the
watchdog before they are done.  Then the interpreter makes the same steps with
both hosts, as long as these looks find nothing.
-/

namespace Multisample.Script.Machine

variable {W P : Host} {s t : State} {tasks tasks' : List Task}

/-- The functions of the first host do what those of the second do, and look at the
watchdog at most after a call of theirs. -/
structure Host.Mirrors (W P : Host) : Prop where
  name : ∀ id, (W.functions.getD id default).name = (P.functions.getD id default).name
  levels : ∀ id, (W.functions.getD id default).levels = (P.functions.getD id default).levels
  run : ∀ id state arguments site w,
    ((W.functions.getD id default).run state arguments site w).Mirrors
      ((P.functions.getD id default).run state arguments site w)
  done : ∀ id state arguments site w later values,
    (P.functions.getD id default).run state arguments site w = .done later values →
      (W.functions.getD id default).run state arguments site w = .done later values

/-! ## Calls -/

theorem follow_mirrors {call call' : Value → List Value → State → State}
    (hcall : ∀ f arguments s t, s.Mirrors t → (call f arguments s).Mirrors (call' f arguments t))
    (levels : ℕ) (kept : List Value) {step step' : Step (List Value)} (hstep : step.Mirrors step')
    (hdone : ∀ w values, step' = .done w values → step = .done w values) (frame : Frame)
    (htasks : List.Forall₂ Task.Mirrors tasks tasks') (chunk : String) (nextCheck : ℕ) :
    (follow call levels kept step frame tasks chunk nextCheck).Mirrors
      (follow call' levels kept step' frame tasks' chunk nextCheck) := by
  cases hstep with
  | done w values => exact ⟨.same _, frame, htasks, w, chunk, nextCheck⟩
  | looks site w values =>
      rw [hdone w values rfl]
      exact ⟨.same _, frame, htasks, w, chunk, nextCheck⟩
  | raised w e => exact unwind_mirrors _ frame htasks w chunk nextCheck
  | call w f arguments hnext =>
      have hwaiting := List.Forall₂.cons (Task.Mirrors.host hnext frame.nesting levels kept) htasks
      unfold follow
      dsimp only
      split
      · exact unwind_mirrors _ frame hwaiting w chunk nextCheck
      · exact hcall f arguments _ _ ⟨.same _, _, hwaiting, w, chunk, nextCheck⟩
  | pause w bytes hnext =>
      obtain ⟨hprovided, hgranted⟩ := State.Mirrors.provide
        ⟨.host hnext levels kept, frame, htasks, w, chunk, nextCheck⟩ bytes
      unfold follow
      dsimp only
      rw [hgranted]
      split
      · exact hprovided
      · exact hprovided.signal _

theorem callValue_mirrors (hosts : W.Mirrors P) (fuel : ℕ) (callee : Value)
    (arguments : List Value) (origin : Option Origin) (h : s.Mirrors t) :
    (@callValue W fuel callee arguments origin s).Mirrors
      (@callValue P fuel callee arguments origin t) := by
  induction fuel generalizing callee arguments origin s t with
  | zero => exact h
  | succ fuel ih =>
      cases callee with
      | closure id f cells =>
          have hthrown := h.throw "stack overflow"
          obtain ⟨-, frame, htasks, world, chunk, nextCheck⟩ := h
          unfold callValue
          dsimp only
          split
          · exact hthrown
          · exact ⟨.same _, _, .cons (.same _) (.cons (.same _) htasks), world, chunk, nextCheck⟩
      | builtin id state =>
          have hsite : functionSite s (W.functions.getD id default) origin =
              functionSite t (P.functions.getD id default) origin := by
            rw [functionSite, functionSite, h.placeAt_eq, hosts.name]
          obtain ⟨-, frame, htasks, world, chunk, nextCheck⟩ := h
          unfold callValue
          dsimp only
          rw [hsite, hosts.levels]
          exact follow_mirrors (fun f arguments s t h => ih f arguments none h) _ arguments
            (hosts.run id state arguments _ world) (hosts.done id state arguments _ world) frame
            htasks chunk nextCheck
      | _ =>
          unfold callValue
          rw [h.world_eq]
          dsimp only
          split
          · exact h.throw _
          · exact ih _ _ _ h

theorem call_mirrors (hosts : W.Mirrors P) (callee : Value) (arguments : List Value)
    (origin : Option Origin) (h : s.Mirrors t) :
    (@call W callee arguments origin s).Mirrors (@call P callee arguments origin t) :=
  callValue_mirrors hosts maxCallChain callee arguments origin h

/-- The same act, done with either host. -/
theorem perform_mirrors (hosts : W.Mirrors P) (act : Act (List Value)) (h : s.Mirrors t) :
    (@perform W act s).Mirrors (@perform P act t) := by
  have hsite : operatorSite s = operatorSite t := by
    rw [operatorSite, operatorSite, h.placeAt_eq, h.chunk_eq, h.frame_eq]
  unfold perform
  rw [hsite]
  obtain ⟨-, frame, htasks, world, chunk, nextCheck⟩ := h
  exact follow_mirrors (fun f arguments s t h => call_mirrors hosts f arguments none h) 0 []
    (Step.mirrors_self _) (fun _ _ => id) frame htasks chunk nextCheck

/-! ## Operators -/

theorem indexValue_mirrors (hosts : W.Mirrors P) (object key : Value) (origin : Option Origin)
    (line : ℕ) (h : s.Mirrors t) :
    (@indexValue W object key origin line s).Mirrors (@indexValue P object key origin line t) := by
  unfold indexValue
  rw [h.world_eq]
  dsimp only
  split
  · exact perform_mirrors hosts _ (h.withLine line)
  · exact h.giveValue _

theorem storeValue_mirrors (hosts : W.Mirrors P) (target : Target) (v : Value) (line : ℕ)
    (h : s.Mirrors t) :
    (@storeValue W target v line s).Mirrors (@storeValue P target v line t) := by
  unfold storeValue
  rw [h.world_eq, h.frame_eq]
  cases target with
  | place p =>
      cases p with
      | own i =>
          dsimp only
          split
          · exact (h.mapHeap _).proceed
          · exact (h.declare i v).proceed
      | captured i => exact (h.mapHeap _).proceed
  | field object key origin =>
      have hslow := perform_mirrors hosts (do Act.setIndex object key v origin; return [])
        ((h.withLine line).push .drop)
      dsimp only
      split
      · split
        · exact (h.mapHeap _).proceed
        · exact hslow
      · exact hslow

theorem operate_mirrors (hosts : W.Mirrors P) (op : BinaryOp) (a b : Value × Option Origin)
    (line : ℕ) (h : s.Mirrors t) :
    (@operate W op a b line s).Mirrors (@operate P op a b line t) := by
  unfold operate
  split
  · exact h.giveValue _
  · exact perform_mirrors hosts _ (h.withLine line)

/-! ## Rows of values -/

theorem guardRest_mirrors (v : Value) (h : s.Mirrors t) :
    (declareAll.guardRest v s).Mirrors (declareAll.guardRest v t) := by
  obtain ⟨hcontrol, frame, htasks, world, chunk, nextCheck⟩ := h
  cases htasks with
  | nil => exact ⟨hcontrol, frame, .nil, world, chunk, nextCheck⟩
  | @cons task _ _ _ htask hrest =>
      cases htask with
      | host hnext nesting levels kept =>
          exact ⟨hcontrol, frame, .cons (.host hnext nesting levels kept) hrest, world, chunk,
            nextCheck⟩
      | same =>
          cases task with
          | block all rest =>
              have hsplit := hrest.cons (.same (.block all [])) |>.cons (.same (.close v))
              exact ⟨hcontrol, frame, .cons (.same _) hsplit, world, chunk, nextCheck⟩
          | _ => exact ⟨hcontrol, frame, .cons (.same _) hrest, world, chunk, nextCheck⟩

theorem declareAll_mirrors (names : List Declared) (values : List Value) (h : s.Mirrors t) :
    (declareAll names values s).Mirrors (declareAll names values t) := by
  induction names generalizing values s t with
  | nil => exact h.proceed
  | cons d names ih =>
      have hdeclared := h.declare d.slot (values.headD .nil)
      have hclosable : isClosable (s.declare d.slot (values.headD .nil)) (values.headD .nil) =
          isClosable (t.declare d.slot (values.headD .nil)) (values.headD .nil) := by
        rw [isClosable, isClosable, hdeclared.world_eq]
      unfold declareAll
      dsimp only
      rw [hclosable]
      split
      · split
        · exact ih _ (guardRest_mirrors _ hdeclared)
        · exact hdeclared.throw _
      · exact ih _ hdeclared

theorem startEach_mirrors (slots : List ℕ) (body : List Stmt) (line : ℕ) (values : List Value)
    (h : s.Mirrors t) :
    (startEach slots body line values s).Mirrors (startEach slots body line values t) := by
  have hclosable : isClosable s (values.getD 3 .nil) = isClosable t (values.getD 3 .nil) := by
    rw [isClosable, isClosable, h.world_eq]
  unfold startEach
  dsimp only
  rw [hclosable]
  split
  · split
    · exact ((h.push _).push _).proceed
    · exact h.throw _
  · exact (h.push _).proceed

/-- The function that is left for a call in its place is the same. -/
theorem dropFunction_mirrors (htasks : List.Forall₂ Task.Mirrors tasks tasks') :
    (dropFunction tasks = none ∧ dropFunction tasks' = none) ∨
      ∃ caller rest rest', dropFunction tasks = some (caller, rest) ∧
        dropFunction tasks' = some (caller, rest') ∧ List.Forall₂ Task.Mirrors rest rest' := by
  induction htasks with
  | nil => exact Or.inl ⟨rfl, rfl⟩
  | @cons task _ rest rest' htask hrest ih =>
      cases htask with
      | host => exact ih
      | same =>
          cases task with
          | back caller => exact Or.inr ⟨caller, rest, rest', rfl, rfl, hrest⟩
          | close v => exact Or.inl ⟨rfl, rfl⟩
          | _ => exact ih

theorem callLast_mirrors (hosts : W.Mirrors P) (callee : Value) (arguments : List Value)
    (origin : Option Origin) (h : s.Mirrors t) :
    (@callLast W callee arguments origin s).Mirrors (@callLast P callee arguments origin t) := by
  have hgathered := call_mirrors hosts callee arguments origin (h.push (.gather [] [] .give))
  cases callee with
  | closure id f cells =>
      unfold callLast
      rcases dropFunction_mirrors h.tasks with
        ⟨hs, ht⟩ | ⟨caller, rest, rest', hs, ht, hrest⟩
      · rw [hs, ht]
        exact hgathered
      · rw [hs, ht]
        obtain ⟨hcontrol, frame, htasks, world, chunk, nextCheck⟩ := h
        exact call_mirrors hosts _ arguments origin
          ⟨hcontrol, caller, hrest, world, chunk, nextCheck⟩
  | _ => exact hgathered

theorem useValues_mirrors (hosts : W.Mirrors P) (use : Use) (values : List Value)
    (h : s.Mirrors t) :
    (@useValues W use values s).Mirrors (@useValues P use values t) := by
  cases use with
  | call callee origin line last =>
      unfold useValues
      dsimp only
      split
      · exact callLast_mirrors hosts callee values origin (h.withLine line)
      · exact call_mirrors hosts callee values origin (h.withLine line)
  | give => exact h.signal _
  | declare names => exact declareAll_mirrors names values h
  | assign targets line =>
      unfold useValues
      dsimp only
      split
      · exact h.proceed
      · exact storeValue_mirrors hosts _ _ line h
      · exact storeValue_mirrors hosts _ _ line (h.push _)
  | loopCount slot body line =>
      unfold useValues
      dsimp only
      split
      · exact (h.withLine line).throw _
      · exact h.proceed
      · exact (h.push _).proceed
  | loopEach slots body line => exact startEach_mirrors slots body line values (h.withLine line)

theorem gather_mirrors (hosts : W.Mirrors P) (done : List Value) (todo : List Expr) (use : Use)
    (h : s.Mirrors t) :
    (@gather W done todo use s).Mirrors (@gather P done todo use t) := by
  induction todo generalizing done with
  | nil => exact useValues_mirrors hosts use done.reverse h
  | cons e rest ih =>
      unfold gather
      rw [h.quick?_eq]
      split
      · exact ih _
      · exact (h.push _).evaluate e

/-! ## Expressions -/

theorem fill_mirrors (filling : Filling) (h : s.Mirrors t) :
    (fill filling s).Mirrors (fill filling t) := by
  unfold fill
  split
  · exact h.giveValue _
  · exact (h.push _).evaluate _
  · exact (h.push _).evaluate _

theorem startTable_mirrors (fields : List Field) (h : s.Mirrors t) :
    (startTable fields s).Mirrors (startTable fields t) := by
  obtain ⟨hcontrol, frame, htasks, world, chunk, nextCheck⟩ := h
  exact fill_mirrors _ ⟨hcontrol, frame, htasks, _, chunk, nextCheck⟩

theorem evaluateIndex_mirrors (hosts : W.Mirrors P) (object key : Expr) (line : ℕ)
    (h : s.Mirrors t) :
    (@evaluateIndex W object key line s).Mirrors (@evaluateIndex P object key line t) := by
  unfold evaluateIndex
  rw [h.quick?_eq, h.quick?_eq]
  split
  · exact indexValue_mirrors hosts _ _ _ line h
  · exact (h.push _).evaluate _
  · exact (h.push _).evaluate _

theorem evaluateCall_mirrors (hosts : W.Mirrors P) (callee : Expr) (arguments : List Expr)
    (line : ℕ) (last : Bool) (h : s.Mirrors t) :
    (@evaluateCall W callee arguments line last s).Mirrors
      (@evaluateCall P callee arguments line last t) := by
  unfold evaluateCall
  rw [h.quick?_eq]
  split
  · exact gather_mirrors hosts [] arguments _ h
  · exact (h.push _).evaluate _

theorem evaluateMethod_mirrors (object : Expr) (name : Bytes) (arguments : List Expr) (line : ℕ)
    (last : Bool) (h : s.Mirrors t) :
    (evaluateMethod object name arguments line last s).Mirrors
      (evaluateMethod object name arguments line last t) :=
  (h.push _).evaluate _

theorem evaluateBinary_mirrors (hosts : W.Mirrors P) (op : BinaryOp) (a b : Expr) (line : ℕ)
    (h : s.Mirrors t) :
    (@evaluateBinary W op a b line s).Mirrors (@evaluateBinary P op a b line t) := by
  unfold evaluateBinary
  rw [h.quick?_eq, h.quick?_eq]
  split
  · exact operate_mirrors hosts op _ _ line h
  · exact (h.push _).evaluate _
  · exact (h.push _).evaluate _

theorem makeClosure_mirrors (f : Function) (h : s.Mirrors t) :
    (makeClosure f s).Mirrors (makeClosure f t) := by
  obtain ⟨-, frame, htasks, world, chunk, nextCheck⟩ := h
  exact ⟨.same _, _, htasks, _, chunk, nextCheck⟩

theorem evaluate_mirrors (hosts : W.Mirrors P) (e : Expr) (h : s.Mirrors t) :
    (@evaluate W e s).Mirrors (@evaluate P e t) := by
  cases e with
  | nil | bool | number | text => exact h.giveValue _
  | surplus =>
      unfold evaluate
      rw [h.frame_eq]
      exact h.withControl _
  | var place name =>
      unfold evaluate
      rw [h.frame_eq, h.world_eq]
      exact h.giveValue _
  | global environment name line =>
      unfold evaluate
      rw [h.frame_eq, h.world_eq]
      exact indexValue_mirrors hosts _ _ _ line h
  | index object key line => exact evaluateIndex_mirrors hosts object key line h
  | call callee arguments line => exact evaluateCall_mirrors hosts callee arguments line false h
  | method object name arguments line => exact (h.push _).evaluate object
  | function f => exact makeClosure_mirrors f h
  | unary op e line => exact (h.push _).evaluate e
  | binary op a b line => exact evaluateBinary_mirrors hosts op a b line h
  | both a b => exact (h.push _).evaluate a
  | either a b => exact (h.push _).evaluate a
  | table fields line => exact startTable_mirrors fields h
  | single e => exact (h.push _).evaluate e

/-! ## Statements -/

theorem aim_mirrors (hosts : W.Mirrors P) (done : List Target) (todo values : List Expr) (line : ℕ)
    (h : s.Mirrors t) :
    (@aim W done todo values line s).Mirrors (@aim P done todo values line t) := by
  induction todo generalizing done with
  | nil => exact gather_mirrors hosts [] values _ h
  | cons e todo ih =>
      cases e with
      | global environment name line =>
          unfold aim
          rw [h.frame_eq, h.world_eq]
          exact ih _
      | index object key line =>
          unfold aim
          rw [h.quick?_eq, h.quick?_eq]
          split
          · exact ih _
          · exact (h.push _).evaluate object
      | _ => exact ih _

theorem chooseArm_mirrors (arms : List Arm) (otherwise : List Stmt) (h : s.Mirrors t) :
    (execute.chooseArm arms otherwise s).Mirrors (execute.chooseArm arms otherwise t) := by
  cases arms with
  | nil => exact h.enter otherwise
  | cons arm arms =>
      obtain ⟨condition, body⟩ := arm
      exact (h.push _).evaluate condition

theorem execute_mirrors (hosts : W.Mirrors P) (stmt : Stmt) (h : s.Mirrors t) :
    (@execute W stmt s).Mirrors (@execute P stmt t) := by
  cases stmt with
  | declare names values line => exact gather_mirrors hosts [] values _ (h.withLine line)
  | assign targets values line => exact aim_mirrors hosts [] targets values line h
  | run e => exact (h.push _).evaluate e
  | block body => exact h.enter body
  | loopWhile condition body => exact (h.push _).proceed
  | loopUntil body condition => exact (h.push _).enter body
  | choose arms otherwise => exact chooseArm_mirrors arms otherwise h
  | loopCount slot start stop step body line => exact gather_mirrors hosts [] _ _ h
  | loopEach slots values body line => exact gather_mirrors hosts [] values _ h
  | declareFunction slot f => exact ((h.declare slot .nil).push _).evaluate _
  | label name => exact h.proceed
  | jump label => exact h.signal _
  | leave => exact h.signal _
  | give values line =>
      unfold execute
      dsimp only
      split
      · exact evaluateCall_mirrors hosts _ _ _ true h
      · exact evaluateMethod_mirrors _ _ _ _ true h
      · exact gather_mirrors hosts [] _ _ (h.withLine line)

/-! ## Tasks -/

theorem askEach_mirrors (hosts : W.Mirrors P) (loop : EachLoop) (h : s.Mirrors t) :
    (@askEach W loop s).Mirrors (@askEach P loop t) :=
  call_mirrors hosts _ _ _ ((h.withLine _).push _)

theorem resume_mirrors (hosts : W.Mirrors P) {task task' : Task} (htask : task.Mirrors task')
    (h : s.Mirrors t) : (@resume W task s).Mirrors (@resume P task' t) := by
  cases htask with
  | host => exact h.proceed
  | same =>
      cases task with
      | block all rest =>
          cases rest with
          | nil => exact h.proceed
          | cons stmt rest => exact execute_mirrors hosts stmt (h.push _)
      | loopWhile condition body => exact (h.push _).evaluate condition
      | loopUntil body condition => exact (h.push _).evaluate condition
      | loopCount slot counter body =>
          unfold resume
          dsimp only
          split
          · exact h.proceed
          · exact ((h.declare slot _).push _).enter body
      | loopEach loop => exact askEach_mirrors hosts loop h
      | store pending line =>
          unfold resume
          dsimp only
          split
          · exact h.proceed
          · exact storeValue_mirrors hosts _ _ line h
          · exact storeValue_mirrors hosts _ _ line (h.push _)
      | back caller =>
          obtain ⟨-, frame, htasks, world, chunk, nextCheck⟩ := h
          exact ⟨.same _, caller, htasks, world, chunk, nextCheck⟩
      | close v =>
          obtain ⟨-, frame, htasks, world, chunk, nextCheck⟩ := h
          exact ⟨.same _, frame, .cons (.same _) htasks, world, chunk, nextCheck⟩
      | _ => exact h.proceed

theorem declareNil_mirrors (slots : List ℕ) (h : s.Mirrors t) :
    (slots.foldl (fun s slot => s.declare slot .nil) s).Mirrors
      (slots.foldl (fun s slot => s.declare slot .nil) t) := by
  induction slots generalizing s t with
  | nil => exact h
  | cons slot slots ih => exact ih (h.declare slot .nil)

theorem accept_mirrors (hosts : W.Mirrors P) {task task' : Task} (htask : task.Mirrors task')
    (v : Value) (h : s.Mirrors t) : (@accept W task v s).Mirrors (@accept P task' v t) := by
  have hresumed := resume_mirrors hosts htask h
  cases htask with
  | host hnext nesting levels kept =>
      obtain ⟨-, frame, htasks, world, chunk, nextCheck⟩ := h
      exact ⟨.host (fun w => hnext _ w) levels kept, { frame with nesting }, htasks, world, chunk,
        nextCheck⟩
  | same =>
      cases task with
      | gather done todo use => exact gather_mirrors hosts _ todo use h
      | operandRight op b origin line =>
          unfold accept
          dsimp only
          rw [h.quick?_eq]
          split
          · exact operate_mirrors hosts op _ _ line h
          · exact (h.push _).evaluate b
      | operate op a origin line => exact operate_mirrors hosts op a _ line h
      | operateOne op origin line =>
          unfold accept
          dsimp only
          split
          · exact h.giveValue _
          · exact perform_mirrors hosts _ (h.withLine line)
      | both b =>
          unfold accept
          dsimp only
          split
          · exact (h.push _).evaluate b
          · exact h.giveValue v
      | either b =>
          unfold accept
          dsimp only
          split
          · exact h.giveValue v
          · exact (h.push _).evaluate b
      | single => exact h.giveValue v
      | indexKey key origin line =>
          unfold accept
          dsimp only
          rw [h.quick?_eq]
          split
          · exact indexValue_mirrors hosts v _ origin line h
          · exact (h.push _).evaluate key
      | index object origin line => exact indexValue_mirrors hosts object v origin line h
      | arguments es origin line last => exact gather_mirrors hosts [] es _ h
      | method name es origin line last =>
          exact indexValue_mirrors hosts v _ origin line (h.push _)
      | methodArguments object name es line last => exact gather_mirrors hosts _ es _ h
      | item filling => exact fill_mirrors _ (h.mapHeap _)
      | entryValue filling value => exact (h.push _).evaluate value
      | entry filling key =>
          unfold accept
          dsimp only
          split
          · exact fill_mirrors filling (h.mapHeap _)
          · exact h.throw _
      | targetKey done key todo values line origin =>
          unfold accept
          dsimp only
          rw [h.quick?_eq]
          split
          · exact aim_mirrors hosts _ todo values line h
          · exact (h.push _).evaluate key
      | target done object todo values line origin => exact aim_mirrors hosts _ todo values line h
      | choose body arms otherwise =>
          unfold accept
          dsimp only
          split
          · exact h.enter body
          · exact chooseArm_mirrors arms otherwise h
      | testWhile condition body =>
          unfold accept
          dsimp only
          split
          · exact (h.push _).enter body
          · exact h.proceed
      | testUntil body condition =>
          unfold accept
          dsimp only
          split
          · exact h.proceed
          · exact (h.push _).enter body
      | eachValues loop =>
          unfold accept
          dsimp only
          split
          · exact h.proceed
          · split
            · exact h.proceed
            · exact ((declareNil_mirrors _ (h.declare _ v)).push _).enter loop.body
      | drop => exact h.proceed
      | host next nesting levels kept =>
          obtain ⟨-, frame, htasks, world, chunk, nextCheck⟩ := h
          exact ⟨.same _, { frame with nesting }, htasks, world, chunk, nextCheck⟩
      | closed signal =>
          cases signal with
          | none => exact h.proceed
          | some signal => exact h.signal signal
      | _ => exact hresumed

/-- The variables of a loop get the values in turn. -/
theorem declareEach_mirrors (slots : List ℕ) (values : List Value) (h : s.Mirrors t) :
    (slots.foldl (fun (s, vs) slot => (State.declare s slot (vs.headD .nil), vs.drop 1))
        (s, values)).1.Mirrors
      (slots.foldl (fun (s, vs) slot => (State.declare s slot (vs.headD .nil), vs.drop 1))
        (t, values)).1 := by
  induction slots generalizing values s t with
  | nil => exact h
  | cons slot slots ih => exact ih (values.drop 1) (h.declare slot _)

theorem acceptAll_mirrors (hosts : W.Mirrors P) {task task' : Task} (htask : task.Mirrors task')
    (values : List Value) (h : s.Mirrors t) :
    (@acceptAll W task values s).Mirrors (@acceptAll P task' values t) := by
  have haccepted := accept_mirrors hosts htask (values.headD .nil) h
  cases htask with
  | host hnext nesting levels kept =>
      obtain ⟨-, frame, htasks, world, chunk, nextCheck⟩ := h
      exact ⟨.host (fun w => hnext _ w) levels kept, { frame with nesting }, htasks, world, chunk,
        nextCheck⟩
  | same =>
      cases task with
      | gather done todo use =>
          cases todo with
          | nil => exact useValues_mirrors hosts use _ h
          | cons e todo => exact haccepted
      | item filling =>
          unfold acceptAll
          dsimp only
          split
          · exact (h.mapHeap _).giveValue _
          · exact haccepted
      | eachValues loop =>
          unfold acceptAll
          dsimp only
          split
          · exact h.proceed
          · exact ((declareEach_mirrors loop.slots values h).push _).enter loop.body
      | host next nesting levels kept =>
          obtain ⟨-, frame, htasks, world, chunk, nextCheck⟩ := h
          exact ⟨.same _, { frame with nesting }, htasks, world, chunk, nextCheck⟩
      | _ => exact haccepted

/-! ## Steps -/

/-- The next step of the second state is the last one of an act, that of the first
state too. -/
def State.EndsAlike (s t : State) : Prop :=
  ∀ next next' levels kept w values, s.control = .host next levels kept →
    t.control = .host next' levels kept → next' t.world = .done w values →
      next s.world = .done w values

theorem step_mirrors (hosts : W.Mirrors P) (h : s.Mirrors t) (hends : s.EndsAlike t) :
    (@step W s).Mirrors (@step P t) := by
  have hcall (f : Value) (arguments : List Value) (s t : State) (h : s.Mirrors t) :=
    call_mirrors hosts f arguments none h
  cases h with
  | @mk control control' hcontrol frame tasks tasks' htasks world chunk nextCheck =>
      have hproceed {rest rest' : List Task} (h : List.Forall₂ Task.Mirrors rest rest') :
          State.Mirrors ⟨.proceed, frame, rest, world, chunk, nextCheck⟩
            ⟨.proceed, frame, rest', world, chunk, nextCheck⟩ :=
        ⟨.same _, frame, h, world, chunk, nextCheck⟩
      cases hcontrol with
      | host hnext levels kept =>
          have hdone (w : World) (values : List Value) := hends _ _ levels kept w values rfl rfl
          exact follow_mirrors hcall levels kept (hnext world) hdone frame htasks chunk nextCheck
      | same =>
          cases control with
          | eval e => exact evaluate_mirrors hosts e (hproceed htasks)
          | host next levels kept =>
              exact follow_mirrors hcall levels kept (Step.mirrors_self _) (fun _ _ => id) frame
                htasks chunk nextCheck
          | halt outcome => exact ⟨.same _, frame, htasks, world, chunk, nextCheck⟩
          | value v =>
              cases htasks with
              | nil => exact ⟨.same _, frame, .nil, world, chunk, nextCheck⟩
              | cons htask hrest => exact accept_mirrors hosts htask v (hproceed hrest)
          | values values =>
              cases htasks with
              | nil => exact ⟨.same _, frame, .nil, world, chunk, nextCheck⟩
              | cons htask hrest => exact acceptAll_mirrors hosts htask values (hproceed hrest)
          | proceed =>
              cases htasks with
              | nil => exact ⟨.same _, frame, .nil, world, chunk, nextCheck⟩
              | cons htask hrest => exact resume_mirrors hosts htask (hproceed hrest)

theorem watch_mirrors (h : s.Mirrors t) : (watch s).Mirrors (watch t) := by
  obtain ⟨hcontrol, frame, htasks, world, chunk, nextCheck⟩ := h
  unfold watch
  dsimp only
  split
  · exact ⟨hcontrol, frame, htasks, world, chunk, nextCheck⟩
  · split
    · exact unwind_mirrors _ frame htasks _ chunk _
    · exact ⟨hcontrol, frame, htasks, _, chunk, _⟩

theorem checkMemory_mirrors (h : s.Mirrors t) : (checkMemory s).Mirrors (checkMemory t) := by
  obtain ⟨hprovided, hgranted⟩ := h.provide 0
  unfold checkMemory
  rw [h.isShort_eq]
  dsimp only
  rw [hgranted]
  split
  · split
    · exact hprovided
    · exact hprovided.signal _
  · exact h

theorem tick_mirrors (h : s.Mirrors t) : (tick s).Mirrors (tick t) := by
  obtain ⟨hcontrol, frame, htasks, world, chunk, nextCheck⟩ := h
  exact ⟨hcontrol, frame, htasks, world.tick, chunk, nextCheck⟩

/-- The state that the next step is made from. -/
def ready (s : State) : State :=
  if s.control.isOpen then checkMemory (watch (tick s)) else tick s

/-- What a run does at a time. -/
def turn [Host] (s : State) : State :=
  match s.control with
  | .halt _ => s
  | _ => step (ready s)

theorem run_of_halted [Host] {outcome : Except Raised (List Value)}
    (h : s.control = .halt outcome) (n : ℕ) : run n s = s := by
  cases n with
  | zero => rfl
  | succ n => simp only [run, h, Control.isOpen]

theorem run_succ [Host] (n : ℕ) (s : State) : run (n + 1) s = run n (turn s) := by
  unfold turn ready
  cases h : s.control with
  | halt outcome => simp only [run_of_halted h]
  | _ => simp [run, h, Control.isOpen]

theorem run_succ_apply [Host] (n : ℕ) (s : State) : run (n + 1) s = turn (run n s) := by
  induction n generalizing s with
  | zero => rw [run_succ, run, run]
  | succ n ih => rw [run_succ, ih, ← run_succ]

theorem Control.Mirrors.isOpen_eq {control control' : Control} (h : control.Mirrors control') :
    control.isOpen = control'.isOpen := by
  cases h <;> rfl

theorem ready_mirrors (h : s.Mirrors t) : (ready s).Mirrors (ready t) := by
  have hticked := tick_mirrors h
  unfold ready
  rw [h.control.isOpen_eq]
  split
  · exact checkMemory_mirrors (watch_mirrors hticked)
  · exact hticked

/-- With mirroring hosts the interpreter does the same, unless a look at the watchdog
does not let an act be done. -/
theorem turn_mirrors (hosts : W.Mirrors P) (h : s.Mirrors t)
    (hends : (ready s).EndsAlike (ready t)) : (@turn W s).Mirrors (@turn P t) := by
  have hstep := step_mirrors hosts (ready_mirrors h) hends
  have hcontrol := h.control
  unfold turn
  generalize s.control = control at hcontrol ⊢
  generalize t.control = control' at hcontrol ⊢
  cases hcontrol with
  | host => exact hstep
  | same =>
      cases control with
      | halt outcome => exact h
      | _ => exact hstep

/-- The ends of two runs. -/
theorem outcome_eq (h : s.Mirrors t) : outcome s = outcome t := by
  have hcontrol := h.control
  unfold outcome
  generalize s.control = control at hcontrol ⊢
  generalize t.control = control' at hcontrol ⊢
  cases hcontrol <;> rfl

/-! ### Steps of acts -/

theorem unwind_world (signal : Signal) (frame : Frame) (tasks : List Task) (world : World)
    (chunk : String) (nextCheck : ℕ) :
    (unwind signal frame tasks world chunk nextCheck).world = world := by
  induction tasks generalizing frame with
  | nil => rfl
  | cons task rest ih =>
      unfold unwind
      split
      case h_9 => split; exacts [rfl, ih frame]
      all_goals first | rfl | exact ih _

theorem turn_of_host [Host] {next : World → Step (List Value)} {levels : ℕ}
    {kept : List Value} (h : (ready s).control = .host next levels kept) :
    turn s = step (ready s) := by
  unfold turn
  split
  · rename_i outcome hhalted
    have hclosed : s.control.isOpen = false := by rw [hhalted, Control.isOpen]
    rw [ready, if_neg (by rw [hclosed]; exact Bool.false_ne_true)] at h
    cases hhalted.symm.trans h
  · rfl

/-- A step that ends an act. -/
theorem turn_of_done [Host] {next : World → Step (List Value)} {levels : ℕ}
    {kept : List Value} {w : World} {values : List Value}
    (hcontrol : (ready s).control = .host next levels kept)
    (hnext : next (ready s).world = .done w values) :
    (turn s).control = .values values ∧ (turn s).world = w := by
  rw [turn_of_host hcontrol]
  generalize ready s = t at hcontrol hnext ⊢
  cases t
  cases hcontrol
  rw [step, hnext]
  exact ⟨rfl, rfl⟩

theorem turn_of_raised [Host] {next : World → Step (List Value)} {levels : ℕ}
    {kept : List Value} {w : World} {e : Raised}
    (hcontrol : (ready s).control = .host next levels kept)
    (hnext : next (ready s).world = .raised w e) : (turn s).world = w := by
  rw [turn_of_host hcontrol]
  generalize ready s = t at hcontrol hnext ⊢
  cases t
  cases hcontrol
  rw [step, hnext]
  exact unwind_world ..

end Multisample.Script.Machine
