/-!
# The watchdog

The watchdog stops an evaluation that runs too long, was cancelled or asked for
too much memory.  What tripped it first stays the reason for good: every later
check finds it tripped.
-/

namespace Multisample.Script

/-- Why an evaluation is stopped from outside. -/
inductive Interrupt where
  | timeout
  | cancelled
  | refused
deriving DecidableEq, Repr, Inhabited

structure Watchdog where
  /-- The nanoseconds that an evaluation may take. -/
  limit : Nat
  tripped : Option Interrupt := none
deriving DecidableEq, Repr, Inhabited

namespace Watchdog

/-- Looks at the clock and at whether the evaluation was cancelled, unless tripped before. -/
def check (d : Watchdog) (elapsed : Nat) (cancelled : Bool) : Watchdog :=
  if d.tripped.isSome then d
  else if cancelled then { d with tripped := some .cancelled }
  else if d.limit < elapsed then { d with tripped := some .timeout }
  else d

/-- Records that memory was refused; an earlier interrupt takes precedence. -/
def refuse (d : Watchdog) : Watchdog :=
  if d.tripped.isSome then d else { d with tripped := some .refused }

end Watchdog

/-- The message of a refused allocation. -/
def refusedMessage : String := "not enough memory"

/-- What the script gets to see of an interrupt. -/
def Interrupt.message : Interrupt → String
  | timeout => "script time limit exceeded"
  | cancelled => "script evaluation cancelled"
  | refused => refusedMessage

end Multisample.Script
