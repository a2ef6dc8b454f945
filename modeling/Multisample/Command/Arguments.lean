import Multisample.Numeric.Decimal

/-!
# Arguments

The arguments of a command are operands, told by their place, and options, told
by a name.  An option is written with two dashes and its long name or with one
dash and its letter; its value follows as the next argument, behind an equals
sign, or right behind the letter.  Behind two lone dashes everything is an
operand.
-/

namespace Multisample

/-- What an argument has to be. -/
inductive ArgumentKind where
  | text
  /-- Anything but nothing. -/
  | path
  | byte
  | seconds
deriving DecidableEq, Repr

/-- The whole number up to 255 that a text stands for. -/
def byteOf? (s : String) : Option Nat := do
  let n ← readInt? s
  if 0 ≤ n && n < 256 then some n.toNat else none

def ArgumentKind.accepts (s : String) : ArgumentKind → Bool
  | text => true
  | path => s != ""
  | byte => (byteOf? s).isSome
  | seconds => (readFloat? s).isSome

structure OptionShape where
  name : String
  letter : Option Char := none
  /-- What its value has to be; an option that stands alone has none. -/
  value : Option ArgumentKind := none
deriving DecidableEq, Repr

/-- What a command takes. -/
structure CommandShape where
  options : List OptionShape := []
  operands : List ArgumentKind := []
deriving DecidableEq, Repr

/-- What was given to a command. -/
structure Arguments where
  /-- The options with their values in the order given. -/
  options : List (String × String) := []
  operands : List String := []
deriving DecidableEq, Repr

/-- Why arguments are not taken further. -/
inductive Halt where
  | misuse
  /-- The user asked for something else with this option. -/
  | asked (option : String)
deriving DecidableEq, Repr

namespace Arguments

def option? (a : Arguments) (name : String) : Option String :=
  a.options.lookup name

def has (a : Arguments) (name : String) : Bool :=
  (a.option? name).isSome

/-- Adds an operand unless there are enough or it is not what it has to be. -/
def addOperand (shape : CommandShape) (a : Arguments) (s : String) : Except Halt Arguments :=
  match shape.operands[a.operands.length]? with
  | some kind =>
    if kind.accepts s then .ok { a with operands := a.operands ++ [s] } else .error .misuse
  | none => .error .misuse

/-- The options that ask for something else than the command. -/
def questions : List String := ["help", "version"]

/-- Adds an option that stands alone; each may be given once. -/
def addFlag (a : Arguments) (o : OptionShape) : Except Halt Arguments :=
  if questions.contains o.name then .error (.asked o.name)
  else if a.has o.name then .error .misuse
  else .ok { a with options := a.options ++ [(o.name, "")] }

/-- Adds an option with its value; each may be given once. -/
def addValue (a : Arguments) (o : OptionShape) (kind : ArgumentKind) (s : String) :
    Except Halt Arguments :=
  if a.has o.name || !kind.accepts s then .error .misuse
  else .ok { a with options := a.options ++ [(o.name, s)] }

/-- What a single argument looks like: an operand, or an option with a value if one is attached. -/
inductive Form where
  | operand
  | long (name : String) (value : Option String)
  | short (letter : Char) (rest : List Char)
deriving DecidableEq, Repr

def form (s : String) : Form :=
  match s.toList with
  | '-' :: '-' :: cs =>
    match cs.dropWhile (· ≠ '=') with
    | _ :: value => .long (String.ofList (cs.takeWhile (· ≠ '='))) (some (String.ofList value))
    | [] => .long (String.ofList cs) none
  | '-' :: c :: cs => .short c cs
  | _ => .operand

/-- The value right behind a letter; an equals sign in between does not count. -/
def attached : List Char → Option String
  | [] => none
  | '=' :: cs => some (String.ofList cs)
  | cs => some (String.ofList cs)

/-- Adds options written as letters behind one dash; one that still waits for its value is given
back. -/
def addLetters (shape : CommandShape) (a : Arguments) :
    Char → List Char → Except Halt (Arguments × Option OptionShape)
  | letter, rest =>
    match shape.options.find? (·.letter == some letter) with
    | none => .error .misuse
    | some o =>
      match o.value, rest with
      | some kind, rest =>
        match attached rest with
        | some s => return (← a.addValue o kind s, none)
        | none => .ok (a, some o)
      | none, [] => return (← a.addFlag o, none)
      | none, next :: rest => do addLetters shape (← a.addFlag o) next rest

/-- Adds what an option argument says; an option that still waits for its value is given back. -/
def addOption (shape : CommandShape) (a : Arguments) :
    Form → Except Halt (Arguments × Option OptionShape)
  | .operand => .error .misuse
  | .short letter rest => addLetters shape a letter rest
  | .long name value =>
    match shape.options.find? (·.name == name) with
    | none => .error .misuse
    | some o =>
      match o.value, value with
      | some kind, some s => return (← a.addValue o kind s, none)
      | some _, none => .ok (a, some o)
      | none, none => return (← a.addFlag o, none)
      | none, some _ => .error .misuse

/-- Whether a value may follow an option as an argument of its own. -/
def isValue (s : String) : Bool :=
  form s == .operand

/-- Reads arguments up to the first operand that the command does not take, if it takes none; what
is left is given back. -/
def read (shape : CommandShape) (a : Arguments) : List String → Except Halt (Arguments × List String)
  | [] => .ok (a, [])
  | "--" :: rest => return (← rest.foldlM (addOperand shape) a, [])
  | s :: rest =>
    match form s with
    | .operand =>
      if shape.operands.isEmpty then .ok (a, s :: rest)
      else do read shape (← a.addOperand shape s) rest
    | option =>
      match addOption shape a option with
      | .error halt => .error halt
      | .ok (a, none) => read shape a rest
      | .ok (a, some o) =>
        match o.value, rest with
        | some kind, value :: rest =>
          if isValue value then do read shape (← a.addValue o kind value) rest else .error .misuse
        | _, _ => .error .misuse

/-- Reads all arguments of a command, whose operands must all be there. -/
def readAll (shape : CommandShape) (given : List String) : Except Halt Arguments := do
  let (a, rest) ← read shape {} given
  if rest.isEmpty && a.operands.length = shape.operands.length then return a else throw .misuse

end Arguments

end Multisample
