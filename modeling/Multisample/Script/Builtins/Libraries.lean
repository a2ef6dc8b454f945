import Multisample.Script.Binding
import Multisample.Script.Builtins.Arguments
import Multisample.Script.Records

/-!
# Functions that build libraries

A script makes libraries, adds instruments and impulse responses to them and
regions to instruments.  A call that fails adds nothing.  The watchdog is looked
at after every call.
-/

namespace Multisample.Script.Builtins.Libraries

open Act

/-- The text of an error that a look-up ended in. -/
def raisedText : Raised → Act String
  | .thrown (.failure message) => return s!"runtime error: {message}"
  | .thrown v => do
    match ← outcome (Act.toText v) with
    | .ok text => return s!"runtime error: {text.display}"
    | .error _ => return "runtime error: <unprintable>"
  | .refused => return s!"memory error: {refusedMessage}"

/-- Reads tables as operators do it, the code of metatables included. -/
def reader : TableReader Act where
  field id name := do
    match ← outcome (index (.table id) (.ofString name) none) with
    | .ok v => return .ok v
    | .error e => return .error (← raisedText e)
  table _ id f := ask fun w => f (w.heap.table id)

/-- The error of a function of the host. -/
def failIn {α : Type} (function message : String) : Act α :=
  fail s!"floe.{function}: {message}"

def tableAt (function : String) (position : Nat) (v : Value) : Act Nat :=
  match v with
  | .table id => return id
  | v => failIn function s!"argument {position} must be a table, got {v.kindName}"

/-- What is said of an argument that is not the handle it should be. -/
def handleText : Value → String
  | .handle _ | .foreign "userdata" => "a different handle"
  | v => v.kindName

/-- The error of an argument that is not the handle it should be. -/
def wrongHandle {α : Type} (function : String) (expected : String) (v : Value) : Act α :=
  failIn function s!"argument 1 must be {expected}, got {handleText v}"

def libraryAt (function : String) (v : Value) : Act Nat :=
  match v with
  | .handle (.library index) => return index
  | v => wrongHandle function "a library" v

def instrumentAt (function : String) (v : Value) : Act (Nat × Nat) :=
  match v with
  | .handle (.instrument library index) => return (library, index)
  | v => wrongHandle function "an instrument" v

/-- The values of a table that fits a schema. -/
def bound (function : String) (table : Nat) (schema : Schema) : Act Values := do
  let limit ← ask fun w => w.build.maxNameBytes
  match ← Binding.bind reader limit table schema with
  | .ok values => return values
  | .error e => failIn function e.message

/-- Changes what has been built so far, or fails and leaves it. -/
def build {α : Type} (function : String) (change : Build → Except BuildFault (Build × α)) : Act α := do
  match change (← ask fun w => w.build) with
  | .ok (build, a) =>
    Act.change fun w => { w with build }
    return a
  | .error e => failIn function e.message

def newLibrary (arguments : List Value) : Act (List Value) := do
  let table ← tableAt "new_library" 1 (arguments.getD 0 .nil)
  let values ← bound "new_library" table .libraryInfo
  let handle ← build "new_library" fun b => .ok (b.addLibrary values.toLibraryInfo)
  return [.handle handle]

def newInstrument (arguments : List Value) : Act (List Value) := do
  let library ← libraryAt "new_instrument" (arguments.getD 0 .nil)
  let table ← tableAt "new_instrument" 2 (arguments.getD 1 .nil)
  let values ← bound "new_instrument" table .instrument
  let handle ← build "new_instrument" fun b => b.addInstrument library values.toInstrument
  return [.handle handle]

def addRegion (arguments : List Value) : Act (List Value) := do
  let (library, instrument) ← instrumentAt "add_region" (arguments.getD 0 .nil)
  let table ← tableAt "add_region" 2 (arguments.getD 1 .nil)
  let values ← bound "add_region" table .region
  build "add_region" fun b =>
    (b.addRegion library instrument values.toRegion).map fun b => (b, [])

def addResponse (arguments : List Value) : Act (List Value) := do
  let library ← libraryAt "add_ir" (arguments.getD 0 .nil)
  let table ← tableAt "add_ir" 2 (arguments.getD 1 .nil)
  let values ← bound "add_ir" table .impulseResponse
  build "add_ir" fun b =>
    (b.addResponse library values.toImpulseResponse).map fun b => (b, [])

/-- Merges two tables in the heap. -/
def mergeOnce (base upper : Nat) : Act (Except Heap.MergeFault Nat) :=
  fun _ w =>
    match w.heap.merge base upper with
    | .ok (heap, id) => .done { w with heap } (.ok id)
    | .error e => .done w (.error e)

def extendTable (arguments : List Value) : Act (List Value) := do
  let base ← tableAt "extend_table" 1 (arguments.getD 0 .nil)
  let upper ← tableAt "extend_table" 2 (arguments.getD 1 .nil)
  match ← mergeOnce base upper with
  | .ok id => return [.table id]
  | .error .tooDeep => tooDeep
  | .error .refused => do
    reserve (← ask fun w => w.heap.limit - w.heap.used + 1)
    match ← mergeOnce base upper with
    | .ok id => return [.table id]
    | .error .tooDeep => tooDeep
    | .error .refused => fun _ w => .raised w .refused
where
  tooDeep : Act (List Value) :=
    failIn "extend_table" s!"tables are nested more than {Heap.maxNesting} levels deep"

/-- A function after which the watchdog is looked at. -/
def guardedFunction (name : String) (run : List Value → Act (List Value)) : Builtin :=
  .plain s!"floe.{name}" fun arguments => guarded (run arguments)

def all : List Builtin :=
  [guardedFunction "new_library" newLibrary, guardedFunction "new_instrument" newInstrument,
    guardedFunction "add_region" addRegion, guardedFunction "add_ir" addResponse,
    guardedFunction "extend_table" extendTable]

end Multisample.Script.Builtins.Libraries
