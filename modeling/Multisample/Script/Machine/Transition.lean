import Multisample.Script.Machine.Memory

/-!
# Steps of the interpreter

One step looks at what is being done and at the innermost task, and no further.
Operators that no metatable takes part in are done at once; all others, and
calls of host functions, are acts whose calls become tasks.
-/

namespace Multisample.Script.Machine

/-- How many slots all open functions may take. -/
def maxDepth : Nat := 1000000

/-- How many host functions may call back inside each other. -/
def maxNesting : Nat := 190

/-! ## Leaving -/

namespace State

/-- Lets an error out. -/
def throw (s : State) (message : String) : Signal × State :=
  (.raise (.thrown (.ofString (showPlace s.chunk s.frame.line ++ message))), s)

end State

/-- The statements behind a label. -/
def behindLabel? (label : String) : List Stmt → Option (List Stmt)
  | [] => none
  | .label name :: rest => if name == label then some rest else behindLabel? label rest
  | _ :: rest => behindLabel? label rest

/-- What a variable that is to be closed gets to see of the reason. -/
def Signal.errorValue : Signal → Value
  | .raise e => e.value
  | _ => .nil

/-- Asks for closing a variable, and goes on with a signal after it. -/
def closeThen (v : Value) (signal : Option Signal) (frame : Frame) (tasks : List Task)
    (world : World) (chunk : String) (nextCheck : Nat) : State :=
  let error := (signal.map Signal.errorValue).getD .nil
  let next (w : World) : Step (List Value) :=
    .call w (w.behaviour v "__close") [v, error] fun outcome w =>
      match outcome with
      | .ok _ => .done w []
      | .error e => .raised w e
  ⟨.host next 0 [v], frame, .closed signal :: tasks, world, chunk, nextCheck⟩

/-- Drops tasks until one that the signal is for. -/
def unwind (signal : Signal) (frame : Frame) (tasks : List Task) (world : World) (chunk : String)
    (nextCheck : Nat) : State :=
  match tasks with
  | [] =>
    let outcome := match signal with
      | .give vs => .ok vs
      | .raise e => .error e
      | _ => .ok []
    ⟨.halt outcome, frame, [], world, chunk, nextCheck⟩
  | task :: rest =>
    match signal, task with
    | _, .close v => closeThen v (some signal) frame rest world chunk nextCheck
    | .give vs, .back caller => ⟨.values vs, caller, rest, world, chunk, nextCheck⟩
    | .raise e, .back caller => unwind (.raise e) caller rest world chunk nextCheck
    | .raise e, .host next nesting levels kept =>
      ⟨.host (next (.error e)) levels kept, { frame with nesting }, rest, world, chunk, nextCheck⟩
    | .leave, .loopWhile .. | .leave, .loopUntil .. | .leave, .loopCount .. | .leave, .loopEach .. =>
      ⟨.proceed, frame, rest, world, chunk, nextCheck⟩
    | .jump label, .block all _ =>
      match behindLabel? label all with
      | some stmts => ⟨.proceed, frame, .block all stmts :: rest, world, chunk, nextCheck⟩
      | none => unwind signal frame rest world chunk nextCheck
    | _, _ => unwind signal frame rest world chunk nextCheck

/-! ## Calls -/

/-- The slots of a function that is called: parameters first, then room for its variables. -/
def argumentSlots (f : Function) (arguments : List Value) : Array Slot :=
  let filled := (arguments.take f.params).foldl (fun slots v => slots.push (Slot.value v))
    (Array.mkEmpty f.slots)
  filled ++ Array.replicate (f.slots - filled.size) (Slot.value .nil)

/-- The site of an act of the running function itself. -/
def operatorSite (s : State) : Site where
  fault := showPlace s.chunk s.frame.line
  place := placeAt s.chunk s.frame.line s.tasks

/-- The site of a host function; an unnamed one is called by its own name. -/
def functionSite (s : State) (b : Builtin) (origin : Option Origin) : Site where
  place := placeAt s.chunk s.frame.line s.tasks
  called := origin.getD ⟨"", Bytes.ofString b.name⟩

/-- Goes on as an act of the host says; `levels` counts on the call stack while it calls. -/
def follow (call : Value → List Value → State → State) (levels : Nat) (kept : List Value)
    (step : Step (List Value)) (frame : Frame) (tasks : List Task) (chunk : String)
    (nextCheck : Nat) : State :=
  match step with
  | .done w vs => ⟨.values vs, frame, tasks, w, chunk, nextCheck⟩
  | .raised w e => unwind (.raise e) frame tasks w chunk nextCheck
  | .pause w bytes next =>
    let (s, granted) :=
      State.provide ⟨.host next levels kept, frame, tasks, w, chunk, nextCheck⟩ bytes
    if granted then s
    else
      match s with
      | ⟨_, frame, tasks, world, chunk, nextCheck⟩ =>
        unwind (.raise .refused) frame tasks world chunk nextCheck
  | .call w f arguments next =>
    let tasks := .host next frame.nesting levels kept :: tasks
    if maxNesting ≤ frame.nesting then
      unwind (.raise (.thrown (.ofString "C stack overflow"))) frame tasks w chunk nextCheck
    else
      call f arguments
        ⟨.proceed, { frame with nesting := frame.nesting + 1 }, tasks, w, chunk, nextCheck⟩

/-- The functions of the host; values name them by their places. -/
class Host where
  functions : Array Builtin

instance : Host := ⟨Builtins.all⟩

/-- Calls a value: a function, or what its metatable says in its place. -/
def callValue [Host] : Nat → Value → List Value → Option Origin → State → State
  | 0, _, _, _, s => s
  | fuel + 1, callee, arguments, origin, s =>
    match callee with
    | .closure _ f cells =>
      let depth := s.frame.depth + f.slots + 5
      if maxDepth < depth then
        let (signal, ⟨_, frame, tasks, world, chunk, nextCheck⟩) := s.throw "stack overflow"
        unwind signal frame tasks world chunk nextCheck
      else
        match s with
        | ⟨_, frame, tasks, world, chunk, nextCheck⟩ =>
          let callee : Frame := {
            slots := argumentSlots f arguments
            cells
            surplus := if f.takesSurplus then arguments.drop f.params else []
            depth
            nesting := frame.nesting }
          ⟨.proceed, callee, .block f.body f.body :: .back frame :: tasks, world, chunk, nextCheck⟩
    | .builtin id state =>
      let b := Host.functions.getD id default
      let site := functionSite s b origin
      match s with
      | ⟨_, frame, tasks, world, chunk, nextCheck⟩ =>
        follow (fun f arguments s => callValue fuel f arguments none s) b.levels arguments
          (b.run state arguments site world) frame tasks chunk nextCheck
    | v =>
      match s.world.behaviour v "__call" with
      | .nil =>
        let name := match v, s.world.behaviour v "__name" with
          | .table _, .text b => b.display
          | _, _ => v.typeName
        let (signal, ⟨_, frame, tasks, world, chunk, nextCheck⟩) :=
          s.throw s!"attempt to call a {name} value{Origin.describe origin}"
        unwind signal frame tasks world chunk nextCheck
      | handler => callValue fuel handler (v :: arguments) none s

/-- How many values in a row may stand in for a function. -/
def maxCallChain : Nat := 200

def call [Host] (callee : Value) (arguments : List Value) (origin : Option Origin) (s : State) :
    State :=
  callValue maxCallChain callee arguments origin s

/-- Does an act of the running function itself. -/
def perform [Host] (act : Act (List Value)) (s : State) : State :=
  let site := operatorSite s
  match s with
  | ⟨_, frame, tasks, world, chunk, nextCheck⟩ =>
    follow (fun f arguments s => call f arguments none s) 0 [] (act site world) frame tasks chunk
      nextCheck

/-- Does an act that gives one value. -/
def performOne [Host] (act : Act Value) (s : State) : State :=
  perform (do return [← act]) s

def performNone [Host] (act : Act Unit) (s : State) : State :=
  perform (do act; return []) s

namespace State

def withLine (s : State) (line : Nat) : State :=
  match s with
  | ⟨control, frame, tasks, world, chunk, nextCheck⟩ =>
    ⟨control, frame.setLine line, tasks, world, chunk, nextCheck⟩

def withControl (s : State) (control : Control) : State :=
  match s with
  | ⟨_, frame, tasks, world, chunk, nextCheck⟩ => ⟨control, frame, tasks, world, chunk, nextCheck⟩

def push (s : State) (task : Task) : State :=
  match s with
  | ⟨control, frame, tasks, world, chunk, nextCheck⟩ =>
    ⟨control, frame, task :: tasks, world, chunk, nextCheck⟩

def giveValue (s : State) (v : Value) : State :=
  s.withControl (.value v)

def evaluate (s : State) (e : Expr) : State :=
  s.withControl (.eval e)

def proceed (s : State) : State :=
  s.withControl .proceed

def signal (s : State) (signal : Signal) : State :=
  match s with
  | ⟨_, frame, tasks, world, chunk, nextCheck⟩ => unwind signal frame tasks world chunk nextCheck

/-- Starts a block. -/
def enter (s : State) (body : List Stmt) : State :=
  (s.push (.block body body)).proceed

def declare (s : State) (slot : Nat) (v : Value) : State :=
  match s with
  | ⟨control, frame, tasks, world, chunk, nextCheck⟩ =>
    ⟨control, frame.declare slot v, tasks, world, chunk, nextCheck⟩

def mapHeap (s : State) (f : Heap → Heap) : State :=
  match s with
  | ⟨control, frame, tasks, world, chunk, nextCheck⟩ =>
    ⟨control, frame, tasks, world.mapHeap f, chunk, nextCheck⟩

def quick? (s : State) (e : Expr) : Option Value :=
  Machine.quick? s.frame s.world.heap e

end State

/-! ## Operators -/

/-- Looks up a field: at once where it is stored in the table. -/
def indexValue [Host] (object key : Value) (origin : Option Origin) (line : Nat) (s : State) :
    State :=
  let stored := match object with
    | .table id => s.world.heap.get id key
    | _ => .nil
  match stored with
  | .nil => performOne (Act.index object key origin) (s.withLine line)
  | v => s.giveValue v

/-- Whether a field of a table can be stored at once. -/
def isPlainStore (h : Heap) (id : Nat) (key : Value) : Bool :=
  (h.table id).metatable.isNone || !(h.get id key).isNil

/-- Stores a value and goes on with the statement. -/
def storeValue [Host] (target : Target) (v : Value) (line : Nat) (s : State) : State :=
  match target with
  | .place (.own i) =>
    match s.frame.slots[i]? with
    | some (.cell id) => (s.mapHeap (·.setCell id v)).proceed
    | _ => (s.declare i v).proceed
  | .place (.captured i) =>
    let id := s.frame.cells.getD i 0
    (s.mapHeap (·.setCell id v)).proceed
  | .field object key origin =>
    match object, key.key? with
    | .table id, some k =>
      if isPlainStore s.world.heap id k then (s.mapHeap (·.set id k v)).proceed
      else performNone (Act.setIndex object key v origin) ((s.withLine line).push .drop)
    | _, _ => performNone (Act.setIndex object key v origin) ((s.withLine line).push .drop)

/-- What a binary operator makes of plain operands, if it is that simple. -/
def operateQuick? (op : BinaryOp) (a b : Value) : Option Value :=
  match op, a, b with
  | .arith op, .number m, .number n =>
    match op.onNumbers m n with
    | some (.ok r) => some (.number r)
    | _ => none
  | .eq, .number m, .number n => some (.bool (m.eq n))
  | .eq, .text s, .text t => some (.bool (s == t))
  | .eq, .nil, _ | .eq, _, .nil => some (.bool (a.isNil && b.isNil))
  | .ne, .nil, _ | .ne, _, .nil => some (.bool !(a.isNil && b.isNil))
  | .lt, .number m, .number n => some (.bool (m.lt n))
  | .le, .number m, .number n => some (.bool (m.le n))
  | .gt, .number m, .number n => some (.bool (n.lt m))
  | .ge, .number m, .number n => some (.bool (n.le m))
  | _, _, _ => none

def operate [Host] (op : BinaryOp) (a b : Value × Option Origin) (line : Nat) (s : State) : State :=
  match operateQuick? op a.1 b.1 with
  | some v => s.giveValue v
  | none => performOne (Act.binary op a b) (s.withLine line)

/-! ## Rows of values -/

/-- The counter of a loop from start to stop, or nothing if the loop does not run. -/
def counter? (start stop step : Value) : Except String (Option Counter) :=
  match start, step, stop.toNumber? with
  | .number (.int a), .number (.int d), some limit =>
    if d == 0 then .error "'for' step is zero"
    else
      let bound : Option Int := match limit with
        | .int n => some n.toInt
        | .float x =>
          match Number.wholeOf? (if d < 0 then x.ceil else x.floor) with
          | some n => some n.toInt
          | none =>
            if 0 < x then (if d < 0 then none else some Int64.maxValue.toInt)
            else if 0 < d then none
            else some Int64.minValue.toInt
      match bound with
      | none => .ok none
      | some bound =>
        let distance := if 0 < d then bound - a.toInt else a.toInt - bound
        if distance < 0 then .ok none
        else .ok (some (.ints a d (distance.toNat / d.toInt.natAbs + 1)))
  | _, _, _ =>
    let fault (what : String) (v : Value) : Except String (Option Counter) :=
      .error s!"bad 'for' {what} (number expected, got {v.typeName})"
    match stop.toNumber?, step.toNumber?, start.toNumber? with
    | none, _, _ => fault "limit" stop
    | _, none, _ => fault "step" step
    | _, _, none => fault "initial value" start
    | some limit, some d, some a =>
      let (x, d, limit) := (a.toFloat, d.toFloat, limit.toFloat)
      if d == 0 then .error "'for' step is zero" else .ok (some (.floats x d limit))

/-- The next number of a counter and the counter behind it. -/
def Counter.next? : Counter → Option (Value × Counter)
  | ints _ _ 0 => none
  | ints n d (left + 1) => some (.int n, ints (n + d) d left)
  | floats x d limit =>
    if (if 0 < d then x ≤ limit else limit ≤ x) then some (.float x, floats (x + d) d limit) else none

/-- A function that is to run when a variable goes out of scope. -/
def isClosable (s : State) (v : Value) : Bool :=
  !v.isTrue || !(s.world.behaviour v "__close").isNil

/-- Gives variables their first values; one that is to be closed opens a block for what follows. -/
def declareAll (names : List Declared) (vs : List Value) (s : State) : State :=
  match names with
  | [] => s.proceed
  | d :: names =>
    let v := vs.headD .nil
    let s := s.declare d.slot v
    if d.kind = .close && v.isTrue then
      if isClosable s v then declareAll names (vs.drop 1) (guardRest v s)
      else
        let (signal, s) := s.throw s!"variable '{d.name}' got a non-closable value"
        s.signal signal
    else declareAll names (vs.drop 1) s
where
  /-- The rest of the block becomes a block of its own, with the closing behind it. -/
  guardRest (v : Value) (s : State) : State :=
    match s with
    | ⟨control, frame, .block all rest :: tasks, world, chunk, nextCheck⟩ =>
      ⟨control, frame, .block rest rest :: .close v :: .block all [] :: tasks, world, chunk,
        nextCheck⟩
    | s => s

/-- Starts a loop over what a function gives; a fourth value is closed behind the loop. -/
def startEach (slots : List Nat) (body : List Stmt) (line : Nat) (vs : List Value) (s : State) : State :=
  let closing := vs.getD 3 .nil
  let loop : EachLoop := {
    step := vs.getD 0 .nil
    state := vs.getD 1 .nil
    control := vs.getD 2 .nil
    slots, body, line }
  if closing.isTrue then
    if isClosable s closing then ((s.push (.close closing)).push (.loopEach loop)).proceed
    else
      let (signal, s) := s.throw "variable '(for state)' got a non-closable value"
      s.signal signal
  else (s.push (.loopEach loop)).proceed

/-- Drops tasks up to the end of the running function, for a call in its place. -/
def dropFunction : List Task → Option (Frame × List Task)
  | .back caller :: rest => some (caller, rest)
  | .close _ :: _ => none
  | _ :: rest => dropFunction rest
  | [] => none

/-- A call whose values the running function gives; it is left first where that shows nowhere. -/
def callLast [Host] (callee : Value) (arguments : List Value) (origin : Option Origin) (s : State) :
    State :=
  match callee, dropFunction s.tasks with
  | .closure .., some (caller, tasks) =>
    match s with
    | ⟨control, _, _, world, chunk, nextCheck⟩ =>
      call callee arguments origin ⟨control, caller, tasks, world, chunk, nextCheck⟩
  | _, _ => call callee arguments origin (s.push (.gather [] [] .give))

/-- Uses a row of values for what it was made. -/
def useValues [Host] (use : Use) (vs : List Value) (s : State) : State :=
  match use with
  | .call callee origin line last =>
    let s := s.withLine line
    if last then callLast callee vs origin s else call callee vs origin s
  | .give => s.signal (.give vs)
  | .declare names => declareAll names vs s
  | .assign targets line =>
    let values := vs ++ List.replicate (targets.length - vs.length) .nil
    match (targets.zip values).reverse with
    | [] => s.proceed
    | [(target, v)] => storeValue target v line s
    | (target, v) :: pending => storeValue target v line (s.push (.store pending line))
  | .loopCount slot body line =>
    match counter? (vs.getD 0 .nil) (vs.getD 1 .nil) (vs.getD 2 .nil) with
    | .error message =>
      let (signal, s) := (s.withLine line).throw message
      s.signal signal
    | .ok none => s.proceed
    | .ok (some counter) => (s.push (.loopCount slot counter body)).proceed
  | .loopEach slots body line => startEach slots body line vs (s.withLine line)

/-- Evaluates expressions from left to right and uses their values; only the last one may stand
for several. -/
def gather [Host] (done : List Value) (es : List Expr) (use : Use) (s : State) : State :=
  match es with
  | [] => useValues use done.reverse s
  | e :: rest =>
    match s.quick? e with
    | some v => gather (v :: done) rest use s
    | none => (s.push (.gather done rest use)).evaluate e

/-! ## Tables -/

/-- Goes on with the fields of a table. -/
def fill (filling : Filling) (s : State) : State :=
  match filling.todo with
  | [] => s.giveValue (.table filling.table)
  | .item e :: todo => (s.push (.item { filling with todo })).evaluate e
  | .entry key value :: todo => (s.push (.entryValue { filling with todo } value)).evaluate key

/-- Starts a table with storage for its fields. -/
def startTable (fields : List Field) (s : State) : State :=
  let entries := (fields.filter fun
    | .entry .. => true
    | .item _ => false).length
  let isOpen := match fields.getLast? with
    | some (.item e) => e.isMulti
    | _ => false
  let items := fields.length - entries - (if isOpen then 1 else 0)
  match s with
  | ⟨control, frame, tasks, world, chunk, nextCheck⟩ =>
    let table : Table := { slots := items, nodes := Table.powerFrom entries }
    let (world, id) := world.onHeap (·.add table)
    fill ⟨id, fields, 1⟩ ⟨control, frame, tasks, world, chunk, nextCheck⟩

/-- Puts items into a table from a position on; they get slots together. -/
def putItems (h : Heap) (table start : Nat) (vs : List Value) : Heap :=
  let h := h.modify table fun t => { t with slots := max t.slots (start - 1 + vs.length) }
  (vs.foldl (fun (h, i) v => (h.set table (.ofNat i) v, i + 1)) (h, start)).1

/-! ## Expressions -/

def evaluateIndex [Host] (object key : Expr) (line : Nat) (s : State) : State :=
  match s.quick? object, s.quick? key with
  | some o, some k => indexValue o k object.origin? line s
  | some o, none => (s.push (.index o object.origin? line)).evaluate key
  | none, _ => (s.push (.indexKey key object.origin? line)).evaluate object

def evaluateCall [Host] (callee : Expr) (arguments : List Expr) (line : Nat) (last : Bool)
    (s : State) : State :=
  match s.quick? callee with
  | some f => gather [] arguments (.call f callee.origin? line last) s
  | none => (s.push (.arguments arguments callee.origin? line last)).evaluate callee

def evaluateMethod (object : Expr) (name : Bytes) (arguments : List Expr) (line : Nat) (last : Bool)
    (s : State) : State :=
  (s.push (.method name arguments object.origin? line last)).evaluate object

def evaluateBinary [Host] (op : BinaryOp) (a b : Expr) (line : Nat) (s : State) : State :=
  match s.quick? a, s.quick? b with
  | some v, some w => operate op (v, a.origin?) (w, b.origin?) line s
  | some v, none => (s.push (.operate op (v, a.origin?) b.origin? line)).evaluate b
  | none, _ => (s.push (.operandRight op b a.origin? line)).evaluate a

def makeClosure (f : Function) (s : State) : State :=
  match s with
  | ⟨_, frame, tasks, ⟨heap, build, watchdog, cancelled, steps, output, globals, texts, seed⟩, chunk,
      nextCheck⟩ =>
    let (frame, heap, cells) := frame.captureAll heap f.captures
    let (heap, closure) := heap.newClosure f cells
    ⟨.value closure, frame, tasks,
      ⟨heap, build, watchdog, cancelled, steps, output, globals, texts, seed⟩, chunk, nextCheck⟩

def evaluate [Host] (e : Expr) (s : State) : State :=
  match e with
  | .nil => s.giveValue .nil
  | .bool b => s.giveValue (.bool b)
  | .number n => s.giveValue (.number n)
  | .text b => s.giveValue (.text b)
  | .surplus =>
    let vs := s.frame.surplus
    s.withControl (.values vs)
  | .var place _ =>
    let v := s.frame.read s.world.heap place
    s.giveValue v
  | .global environment name line =>
    let table := s.frame.read s.world.heap environment
    indexValue table (.text name) (some ⟨"upvalue", Bytes.ofString "_ENV"⟩) line s
  | .index object key line => evaluateIndex object key line s
  | .call callee arguments line => evaluateCall callee arguments line false s
  | .method object name arguments line => evaluateMethod object name arguments line false s
  | .function f => makeClosure f s
  | .unary op e line => (s.push (.operateOne op e.origin? line)).evaluate e
  | .binary op a b line => evaluateBinary op a b line s
  | .both a b => (s.push (.both b)).evaluate a
  | .either a b => (s.push (.either b)).evaluate a
  | .table fields _ => startTable fields s
  | .single e => (s.push .single).evaluate e

/-! ## Statements -/

/-- Works out where assignments store, from left to right, and then the values. -/
def aim [Host] (done : List Target) (todo values : List Expr) (line : Nat) (s : State) : State :=
  match todo with
  | [] => gather [] values (.assign done.reverse line) s
  | .var place _ :: todo => aim (.place place :: done) todo values line s
  | .global environment name _ :: todo =>
    let table := s.frame.read s.world.heap environment
    let origin : Origin := ⟨"upvalue", Bytes.ofString "_ENV"⟩
    aim (.field table (.text name) (some origin) :: done) todo values line s
  | .index object key _ :: todo =>
    match s.quick? object, s.quick? key with
    | some o, some k => aim (.field o k object.origin? :: done) todo values line s
    | _, _ => (s.push (.targetKey done key todo values line object.origin?)).evaluate object
  | _ :: todo => aim done todo values line s

def execute [Host] (stmt : Stmt) (s : State) : State :=
  match stmt with
  | .declare names values line => gather [] values (.declare names) (s.withLine line)
  | .assign targets values line => aim [] targets values line s
  | .run e => (s.push .drop).evaluate e
  | .block body => s.enter body
  | .loopWhile condition body => (s.push (.loopWhile condition body)).proceed
  | .loopUntil body condition => (s.push (.loopUntil body condition)).enter body
  | .choose arms otherwise => chooseArm arms otherwise s
  | .loopCount slot start stop step body line =>
    gather [] [.single start, .single stop, .single step] (.loopCount slot body line) s
  | .loopEach slots values body line => gather [] values (.loopEach slots body line) s
  | .declareFunction slot f =>
    let s := s.declare slot .nil
    (s.push (.gather [] [] (.assign [.place (.own slot)] 0))).evaluate (.function f)
  | .label _ => s.proceed
  | .jump label => s.signal (.jump label)
  | .leave => s.signal .leave
  | .give values line =>
    match values with
    | [.call callee arguments callLine] => evaluateCall callee arguments callLine true s
    | [.method object name arguments callLine] => evaluateMethod object name arguments callLine true s
    | values => gather [] values .give (s.withLine line)
where
  chooseArm (arms : List Arm) (otherwise : List Stmt) (s : State) : State :=
    match arms with
    | [] => s.enter otherwise
    | .mk condition body :: arms => (s.push (.choose body arms otherwise)).evaluate condition

/-! ## Tasks -/

/-- Asks the function of a loop for its next values. -/
def askEach [Host] (loop : EachLoop) (s : State) : State :=
  call loop.step [loop.state, loop.control] (some ⟨"for iterator", Bytes.ofString "for iterator"⟩)
    ((s.withLine loop.line).push (.eachValues loop))

/-- Goes on with a task after the statement before it is done. -/
def resume [Host] (task : Task) (s : State) : State :=
  match task with
  | .block all rest =>
    match rest with
    | [] => s.proceed
    | stmt :: rest => execute stmt (s.push (.block all rest))
  | .loopWhile condition body => (s.push (.testWhile condition body)).evaluate condition
  | .loopUntil body condition => (s.push (.testUntil body condition)).evaluate condition
  | .loopCount slot counter body =>
    match counter.next? with
    | none => s.proceed
    | some (v, counter) => ((s.declare slot v).push (.loopCount slot counter body)).enter body
  | .loopEach loop => askEach loop s
  | .store pending line =>
    match pending with
    | [] => s.proceed
    | [(target, v)] => storeValue target v line s
    | (target, v) :: pending => storeValue target v line (s.push (.store pending line))
  | .back caller =>
    match s with
    | ⟨_, _, tasks, world, chunk, nextCheck⟩ => ⟨.values [], caller, tasks, world, chunk, nextCheck⟩
  | .close v =>
    match s with
    | ⟨_, frame, tasks, world, chunk, nextCheck⟩ =>
      closeThen v none frame tasks world chunk nextCheck
  | _ => s.proceed

/-- Gives a value to the task that waits for it. -/
def accept [Host] (task : Task) (v : Value) (s : State) : State :=
  match task with
  | .gather done todo use => gather (v :: done) todo use s
  | .operandRight op b origin line =>
    match s.quick? b with
    | some w => operate op (v, origin) (w, b.origin?) line s
    | none => (s.push (.operate op (v, origin) b.origin? line)).evaluate b
  | .operate op a origin line => operate op a (v, origin) line s
  | .operateOne op origin line =>
    match op with
    | .negation => s.giveValue (.bool (!v.isTrue))
    | op => performOne (Act.unary op (v, origin)) (s.withLine line)
  | .both b => if v.isTrue then (s.push .single).evaluate b else s.giveValue v
  | .either b => if v.isTrue then s.giveValue v else (s.push .single).evaluate b
  | .single => s.giveValue v
  | .indexKey key origin line =>
    match s.quick? key with
    | some k => indexValue v k origin line s
    | none => (s.push (.index v origin line)).evaluate key
  | .index object origin line => indexValue object v origin line s
  | .arguments es origin line last => gather [] es (.call v origin line last) s
  | .method name es origin line last =>
    indexValue v (.text name) origin line (s.push (.methodArguments v name es line last))
  | .methodArguments object name es line last =>
    gather [object] es (.call v (some ⟨"method", name⟩) line last) s
  | .item filling =>
    let s := s.mapHeap (·.set filling.table (.ofNat filling.next) v)
    fill { filling with next := filling.next + 1 } s
  | .entryValue filling value => (s.push (.entry filling v)).evaluate value
  | .entry filling key =>
    match key.key? with
    | some k => fill filling (s.mapHeap (·.set filling.table k v))
    | none =>
      let (signal, s) := s.throw (if key.isNil then "index is nil" else "index is NaN")
      s.signal signal
  | .targetKey done key todo values line origin =>
    match s.quick? key with
    | some k => aim (.field v k origin :: done) todo values line s
    | none => (s.push (.target done v todo values line origin)).evaluate key
  | .target done object todo values line origin =>
    aim (.field object v origin :: done) todo values line s
  | .choose body arms otherwise =>
    if v.isTrue then s.enter body else execute.chooseArm arms otherwise s
  | .testWhile condition body =>
    if v.isTrue then (s.push (.loopWhile condition body)).enter body else s.proceed
  | .testUntil body condition =>
    if v.isTrue then s.proceed else (s.push (.loopUntil body condition)).enter body
  | .eachValues loop =>
    if v.isNil then s.proceed
    else
      match loop.slots with
      | [] => s.proceed
      | slot :: slots =>
        let s := slots.foldl (fun s slot => s.declare slot .nil) (s.declare slot v)
        (s.push (.loopEach { loop with control := v })).enter loop.body
  | .drop => s.proceed
  | .host next nesting levels kept =>
    match s with
    | ⟨_, frame, tasks, world, chunk, nextCheck⟩ =>
      ⟨.host (next (.ok [v])) levels kept, { frame with nesting }, tasks, world, chunk, nextCheck⟩
  | .closed signal =>
    match signal with
    | none => s.proceed
    | some signal => s.signal signal
  | task => resume task s

/-- Gives a row of values to the task that waits for them; most tasks take the first one only. -/
def acceptAll [Host] (task : Task) (vs : List Value) (s : State) : State :=
  match task with
  | .gather done [] use => useValues use (done.reverse ++ vs) s
  | .item filling =>
    match filling.todo with
    | [] =>
      let s := s.mapHeap (putItems · filling.table filling.next vs)
      s.giveValue (.table filling.table)
    | _ => accept task (vs.headD .nil) s
  | .eachValues loop =>
    let first := vs.headD .nil
    if first.isNil then s.proceed
    else
      let (s, _) := loop.slots.foldl
        (fun (s, vs) slot => (State.declare s slot (vs.headD .nil), vs.drop 1)) (s, vs)
      (s.push (.loopEach { loop with control := first })).enter loop.body
  | .host next nesting levels kept =>
    match s with
    | ⟨_, frame, tasks, world, chunk, nextCheck⟩ =>
      ⟨.host (next (.ok vs)) levels kept, { frame with nesting }, tasks, world, chunk, nextCheck⟩
  | task => accept task (vs.headD .nil) s

/-! ## Steps -/

/-- One step. -/
def step [Host] (s : State) : State :=
  match s with
  | ⟨control, frame, tasks, world, chunk, nextCheck⟩ =>
    match control with
    | .eval e => evaluate e ⟨.proceed, frame, tasks, world, chunk, nextCheck⟩
    | .host next levels kept =>
      follow (fun f arguments s => call f arguments none s) levels kept (next world) frame tasks chunk
        nextCheck
    | .halt outcome => ⟨.halt outcome, frame, tasks, world, chunk, nextCheck⟩
    | .value v =>
      match tasks with
      | [] => ⟨.halt (.ok [v]), frame, [], world, chunk, nextCheck⟩
      | task :: tasks => accept task v ⟨.proceed, frame, tasks, world, chunk, nextCheck⟩
    | .values vs =>
      match tasks with
      | [] => ⟨.halt (.ok vs), frame, [], world, chunk, nextCheck⟩
      | task :: tasks => acceptAll task vs ⟨.proceed, frame, tasks, world, chunk, nextCheck⟩
    | .proceed =>
      match tasks with
      | [] => ⟨.halt (.ok []), frame, [], world, chunk, nextCheck⟩
      | task :: tasks => resume task ⟨.proceed, frame, tasks, world, chunk, nextCheck⟩

end Multisample.Script.Machine
