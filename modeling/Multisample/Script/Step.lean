import Multisample.Script.Build
import Multisample.Script.Heap
import Multisample.Script.Watchdog

/-!
# Acts of the host

Host functions and operators are acts on the world of a script.  An act may
call back into the script; then it hands the call to the interpreter together
with what to do with its outcome.
-/

namespace Multisample.Script

/-- Everything an evaluation changes. -/
structure World where
  heap : Heap := {}
  build : Build
  watchdog : Watchdog
  cancelled : Bool := false
  /-- How many steps the interpreter has made. -/
  steps : Nat := 0
  /-- What the script has printed, the last line first. -/
  output : List Bytes := []
  globals : Nat := 0
  /-- The table that says how texts behave. -/
  texts : Nat := 0
  /-- The state of the random numbers. -/
  seed : UInt64 × UInt64 × UInt64 × UInt64 := (0, 0, 0, 0)
deriving Inhabited

namespace World

/-- The nanoseconds that count for one step. -/
def stepCost : Nat := 200

/-- The time an evaluation has taken; some has always passed. -/
def elapsed (w : World) : Nat :=
  1 + w.steps * stepCost

def mapHeap (w : World) (f : Heap → Heap) : World :=
  match w with
  | ⟨heap, build, watchdog, cancelled, steps, output, globals, texts, seed⟩ =>
    ⟨f heap, build, watchdog, cancelled, steps, output, globals, texts, seed⟩

/-- Changes the heap and keeps a result of it. -/
def onHeap {α : Type} (w : World) (f : Heap → Heap × α) : World × α :=
  match w with
  | ⟨heap, build, watchdog, cancelled, steps, output, globals, texts, seed⟩ =>
    let (heap, a) := f heap
    (⟨heap, build, watchdog, cancelled, steps, output, globals, texts, seed⟩, a)

def tick (w : World) : World :=
  match w with
  | ⟨heap, build, watchdog, cancelled, steps, output, globals, texts, seed⟩ =>
    ⟨heap, build, watchdog, cancelled, steps + 1, output, globals, texts, seed⟩

def checkWatchdog (w : World) : World :=
  { w with watchdog := w.watchdog.check w.elapsed w.cancelled }

def metatable? (w : World) (v : Value) : Option Nat :=
  w.heap.metatable? w.texts v

/-- What a value does on an event, nil if nothing special. -/
def behaviour (w : World) (v : Value) (event : String) : Value :=
  match w.metatable? v with
  | some id => w.heap.getString id event
  | none => .nil

end World

/-- What stops an act: a value raised by the script or the host, or memory that was refused. -/
inductive Raised where
  | thrown (v : Value)
  | refused
deriving Inhabited

/-- What a protected call gives for an error. -/
def Raised.value : Raised → Value
  | thrown v => v
  | refused => .ofString refusedMessage

/-- How far an act has come. -/
inductive Step (α : Type) where
  | done (w : World) (a : α)
  | raised (w : World) (e : Raised)
  /-- A function is to be called and its outcome to be handed over. -/
  | call (w : World) (f : Value) (arguments : List Value)
      (next : Except Raised (List Value) → World → Step α)
  /-- A rest, and so many bytes that the next part is going to need. -/
  | pause (w : World) (bytes : Nat) (next : World → Step α)

namespace Step

def bind {α β : Type} (s : Step α) (f : α → World → Step β) : Step β :=
  match s with
  | done w a => f a w
  | raised w e => .raised w e
  | call w g arguments next => .call w g arguments fun r w => (next r w).bind f
  | pause w bytes next => .pause w bytes fun w => (next w).bind f

/-- Goes on with the outcome, be it an error. -/
def settle {α β : Type} (s : Step α) (f : Except Raised α → World → Step β) : Step β :=
  match s with
  | done w a => f (.ok a) w
  | raised w e => f (.error e) w
  | call w g arguments next => .call w g arguments fun r w => (next r w).settle f
  | pause w bytes next => .pause w bytes fun w => (next w).settle f

end Step

/-- Where an act happens, for its error messages. -/
structure Site where
  /-- What stands in front of the message of a failed operator. -/
  fault : String := ""
  /-- The place in the script that a level of the call stack is at; level one is the caller. -/
  place : Nat → String := fun _ => ""
  /-- What the called function is called at its call. -/
  called : Origin := ⟨"", .empty⟩

instance : Inhabited Site := ⟨{}⟩

/-- An act of the host at a place in the script. -/
def Act (α : Type) : Type :=
  Site → World → Step α

namespace Act

instance : Monad Act where
  pure a := fun _ w => .done w a
  bind x f := fun site w => (x site w).bind fun a w => f a site w

instance {α : Type} : Inhabited (Act α) := ⟨fun _ w => .raised w .refused⟩

/-- A fact about the world. -/
def ask {α : Type} (f : World → α) : Act α :=
  fun _ w => .done w (f w)

def site : Act Site :=
  fun s w => .done w s

def change (f : World → World) : Act Unit :=
  fun _ w => .done (f w) ()

def onHeap {α : Type} (f : Heap → Heap × α) : Act α :=
  fun _ w =>
    let (w, a) := w.onHeap f
    .done w a

def setRaw (table : Nat) (k v : Value) : Act Unit :=
  change (·.mapHeap (·.set table k v))

def getRaw (table : Nat) (k : Value) : Act Value :=
  ask fun w => w.heap.get table k

/-- A new table. -/
def newTable : Act Nat :=
  onHeap (·.newTable)

/-! ## Errors -/

def raise {α : Type} (v : Value) : Act α :=
  fun _ w => .raised w (.thrown v)

/-- The error of an operator. -/
def fault {α : Type} (message : String) : Act α :=
  fun site w => .raised w (.thrown (.ofString (site.fault ++ message)))

/-- The error of a function, blamed on whoever called it. -/
def blame {α : Type} (message : String) : Act α :=
  fun site w => .raised w (.thrown (.ofString (site.place 1 ++ message)))

/-- The error of a host function that scripts get as an object. -/
def fail {α : Type} (message : String) : Act α :=
  raise (.failure message)

/-! ## Calls -/

/-- Calls a function; its errors pass on. -/
def call (f : Value) (arguments : List Value) : Act (List Value) :=
  fun _ w => .call w f arguments fun outcome w =>
    match outcome with
    | .ok values => .done w values
    | .error e => .raised w e

/-- The first value of a call. -/
def callOne (f : Value) (arguments : List Value) : Act Value := do
  return (← call f arguments).headD .nil

/-- Calls a function and catches its errors. -/
def attempt (f : Value) (arguments : List Value) : Act (Except Raised (List Value)) :=
  fun _ w => .call w f arguments fun outcome w => .done w outcome

/-- Does something and catches its errors. -/
def outcome {α : Type} (x : Act α) : Act (Except Raised α) :=
  fun site w => (x site w).settle fun r w => .done w r

def ofOutcome {α : Type} (r : Except Raised α) : Act α :=
  fun _ w =>
    match r with
    | .ok a => .done w a
    | .error e => .raised w e

/-- Looks at the watchdog and stops if it has tripped. -/
def checkWatchdog : Act Unit :=
  fun _ w =>
    let w := w.checkWatchdog
    match w.watchdog.tripped with
    | some i => .raised w (.thrown (.failure i.message))
    | none => .done w ()

/-- Does something and then looks at the watchdog, so that the host's time counts too. -/
def guarded {α : Type} (x : Act α) : Act α := do
  let result ← outcome x
  checkWatchdog
  ofOutcome result

/-- Rests, so that long work can be interrupted, and asks for memory. -/
def reserve (bytes : Nat) : Act Unit :=
  fun _ w => .pause w bytes fun w => .done w ()

/-- Asks for memory and counts it as used. -/
def allocate (bytes : Nat) : Act Unit := do
  reserve bytes
  change (·.mapHeap (·.charge bytes))

/-- Works in at most so many rounds until there is a result. -/
def roundsWithin {σ α : Type} (round : σ → Act (σ ⊕ α)) : Nat → σ → Act α
  | 0, _ => fault "too many rounds"
  | fuel + 1, s => do
    match ← round s with
    | .inr a => return a
    | .inl s => do
      reserve 0
      roundsWithin round fuel s

/-- Works in rounds until there is a result, resting after each. -/
def rounds {σ α : Type} (round : σ → Act (σ ⊕ α)) (s : σ) : Act α :=
  roundsWithin round (1 <<< 60) s

end Act

end Multisample.Script
