import Multisample.Library.Model
import Multisample.Script.Value

/-!
# Libraries under construction

A script builds libraries piece by piece and holds on to them by handles, which
are positions in the list of all libraries made so far.  Libraries and
instruments are only ever added, so a handle never changes its meaning.
-/

namespace Multisample.Script

structure Build where
  scriptPath : String
  /-- How many bytes a name may have. -/
  maxNameBytes : Nat
  libraries : List Library := []
deriving Inhabited

/-- Why something could not be added. -/
inductive BuildFault where
  | stale (what : String)
  | duplicate (e : DuplicateName)
deriving DecidableEq, Repr

def BuildFault.message : BuildFault → String
  | stale what => s!"stale {what} handle"
  | duplicate e => e.message

namespace Build

def addLibrary (b : Build) (info : LibraryInfo) : Build × Handle :=
  ({ b with libraries := b.libraries ++ [{ info, scriptPath := b.scriptPath }] },
    .library b.libraries.length)

def addInstrument (b : Build) (library : Nat) (i : Instrument) :
    Except BuildFault (Build × Handle) :=
  match b.libraries[library]? with
  | none => .error (.stale "library")
  | some l =>
    match l.addInstrument i with
    | .error e => .error (.duplicate e)
    | .ok (l, index) =>
      .ok ({ b with libraries := b.libraries.set library l }, .instrument library index)

def addRegion (b : Build) (library instrument : Nat) (r : Region) : Except BuildFault Build :=
  match b.libraries[library]?.bind (·.addRegion? instrument r) with
  | none => .error (.stale "instrument")
  | some l => .ok { b with libraries := b.libraries.set library l }

def addResponse (b : Build) (library : Nat) (r : ImpulseResponse) : Except BuildFault Build :=
  match b.libraries[library]? with
  | none => .error (.stale "library")
  | some l =>
    match l.addResponse r with
    | .error e => .error (.duplicate e)
    | .ok l => .ok { b with libraries := b.libraries.set library l.1 }

end Build

end Multisample.Script
