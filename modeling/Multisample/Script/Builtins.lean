import Multisample.Script.Builtins.Base
import Multisample.Script.Builtins.Libraries
import Multisample.Script.Builtins.Numbers
import Multisample.Script.Builtins.Tables
import Multisample.Script.Builtins.Unicode

/-!
# The functions a script starts with

All functions of the host have a place in one list; values name them by it.  The
basic functions are globals, the others stand in tables of their libraries.
-/

namespace Multisample.Script.Builtins

/-- Functions without a name, called in steps through tables and texts. -/
def steps : List Builtin :=
  [.plain "next" next, .plain "ipairs" positionStep,
    { name := "gmatch", run := fun state _ => Texts.nextMatch (state.getD 0) },
    .plain "codes" (Unicode.step true), .plain "codes" (Unicode.step false)]

def all : Array Builtin :=
  (steps ++ base ++ Texts.all ++ Tables.all ++ Numbers.all ++ Unicode.all ++ Libraries.all).toArray

/-- The names of the libraries that stand in tables of their own. -/
def libraries : List String :=
  ["string", "table", "math", "utf8", "floe"]

/-- The functions and constants of a library by their names in it. -/
def members (library : String) : List (String × Value) :=
  let mark := (library ++ ".").toList
  all.toList.zipIdx.filterMap fun (b, id) =>
    if mark.isPrefixOf b.name.toList then
      some (String.ofList (b.name.toList.drop mark.length), .builtin id none)
    else none

/-- The basic functions by their names. -/
def globals : List (String × Value) :=
  ("next", nextFunction) ::
    base.zipIdx.map fun (b, i) => (b.name, .builtin (steps.length + i) none)

def setAll (h : Heap) (table : Nat) (entries : List (String × Value)) : Heap :=
  entries.foldl (fun h (name, v) => h.setString table name v) h

/-- A new table of some entries. -/
def tableOf (h : Heap) (entries : List (String × Value)) : Heap × Nat :=
  let (h, id) := h.newTable
  (setAll h id entries, id)

/-- What a library has besides functions. -/
def constants : String → List (String × Value)
  | "math" => Numbers.constants
  | "utf8" => [("charpattern", .text Unicode.characterPattern)]
  | _ => []

/-- A heap with all globals, the table that holds them, and the table for texts. -/
def start : Heap × Nat × Nat :=
  let (h, env) := tableOf {} globals
  let h := libraries.foldl (fun h name =>
    let (h, id) := tableOf h (members name ++ constants name)
    h.setString env name (.table id)) h
  let h := setAll h env [("_G", .table env), ("_VERSION", .ofString "Lua 5.4")]
  let (h, texts) := tableOf h [("__index", h.getString env "string")]
  (h, env, texts)

end Multisample.Script.Builtins
