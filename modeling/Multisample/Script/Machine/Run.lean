import Multisample.Script.Machine.Transition

/-!
# Running a script

A run makes steps until nothing is left to do.  Every so many steps the watchdog
is looked at, and before every step that memory suffices.
-/

namespace Multisample.Script.Machine

/-- How many steps pass between two looks at the watchdog. -/
def checkInterval : Nat := 100

/-- Whether a step may be replaced by an error; an act of the host is not cut short. -/
def Control.isOpen : Control → Bool
  | host .. | halt _ => false
  | _ => true

/-- Looks at the watchdog if it is time, and raises what tripped it. -/
def watch (s : State) : State :=
  if s.world.steps < s.nextCheck then s
  else
    match s with
    | ⟨control, frame, tasks, world, chunk, _⟩ =>
      let world := world.checkWatchdog
      let nextCheck := world.steps + checkInterval
      match world.watchdog.tripped with
      | some i => unwind (.raise (.thrown (.failure i.message))) frame tasks world chunk nextCheck
      | none => ⟨control, frame, tasks, world, chunk, nextCheck⟩

/-- Raises an error if more memory is in use than allowed. -/
def checkMemory (s : State) : State :=
  if isShort s 0 then
    let (s, granted) := s.provide 0
    if granted then s
    else
      match s with
      | ⟨_, frame, tasks, world, chunk, nextCheck⟩ =>
        unwind (.raise .refused) frame tasks world chunk nextCheck
  else s

def tick (s : State) : State :=
  match s with
  | ⟨control, frame, tasks, world, chunk, nextCheck⟩ =>
    ⟨control, frame, tasks, world.tick, chunk, nextCheck⟩

/-- Makes steps until the end, at most so many. -/
def run [Host] : Nat → State → State
  | 0, s => s
  | fuel + 1, s =>
    match s.control.isOpen, s.control with
    | true, _ => run fuel (step (checkMemory (watch (tick s))))
    | _, .halt _ => s
    | _, _ => run fuel (step (tick s))

/-- More steps than any time limit allows. -/
def maxSteps : Nat := 1 <<< 60

/-- The end of a run; a run without one was stopped by its limit. -/
def outcome (s : State) : Except Raised (List Value) :=
  match s.control with
  | .halt outcome => outcome
  | _ => .error .refused

/-- Runs a script that has been read, in a world with its globals. -/
def start (f : Function) (chunk : String) (world : World) : State :=
  let (world, cell) := world.onHeap (·.newCell (.table world.globals))
  let frame : Frame := {
    slots := argumentSlots f []
    cells := #[cell]
    depth := f.slots + 5 }
  let s : State := ⟨.proceed, frame, [.block f.body f.body], world, chunk, checkInterval⟩
  s.mapHeap ({ · with used := s.reachable })

/-- Runs an act of the host in place of a script. -/
def startAct (act : Act (List Value)) (chunk : String) (world : World) : State :=
  ⟨.host (act default) 1 [], {}, [], world, chunk, world.steps + checkInterval⟩

/-- The text of a value that nothing caught, found in the world that raised it. -/
def uncaughtText (v : Value) (world : World) (chunk : String) : String :=
  let act : Act (List Value) := do return [.text (← Act.toText v)]
  match outcome (run maxSteps (startAct act chunk world)) with
  | .ok (.text b :: _) => b.display
  | _ => "error in error handling"

end Multisample.Script.Machine
