import Multisample.Command.Arguments
import Multisample.Command.Rendering

/-!
# Invocations

The program has three commands: one checks libraries, one prints an example
script and one renders a note.  Each takes the settings file as an option, in
front of the command's name or behind it.
-/

namespace Multisample

inductive Command where
  | check (path : String) (json : Bool)
  | schema
  | render (request : RenderRequest)

/-- A command with the settings file to use, if there is one. -/
structure Invocation where
  settings : Option String
  command : Command

/-- What help is given on. -/
inductive Topic where
  | program
  | check
  | schema
  | render
deriving DecidableEq, Repr

/-- What the arguments of the program ask for. -/
inductive Request where
  | run (invocation : Invocation)
  | help (topic : Topic)
  | version
  | misuse

namespace Topic

/-- The name of the command that a topic is about. -/
def name : Topic → String
  | program => ""
  | check => "check"
  | schema => "schema"
  | render => "render"

/-- The topic about a command. -/
def ofName? (name : String) : Option Topic :=
  [check, schema, render].find? fun t => t.name == name

/-- What every command takes. -/
def common : List OptionShape :=
  [⟨"config", some 'c', some .path⟩, ⟨"help", some 'h', none⟩]

def shape : Topic → CommandShape
  | program => ⟨⟨"version", some 'V', none⟩ :: common, []⟩
  | check => ⟨⟨"json", none, none⟩ :: common, [.path]⟩
  | schema => ⟨common, []⟩
  | render =>
    ⟨[⟨"note", some 'n', some .byte⟩, ⟨"velocity", some 'v', some .byte⟩,
      ⟨"hold", none, some .seconds⟩, ⟨"seconds", some 's', some .seconds⟩,
      ⟨"ir", none, some .text⟩] ++ common, [.path, .text, .path]⟩

end Topic

namespace Command

/-- The note to render that some arguments describe. -/
def requestOf (a : Arguments) (library instrument output : String) : RenderRequest where
  library
  instrument
  output
  key := ((a.option? "note").bind byteOf?).getD 60
  velocity := ((a.option? "velocity").bind byteOf?).getD 100
  hold := ((a.option? "hold").bind readFloat?).getD 1
  length := ((a.option? "seconds").bind readFloat?).getD 3
  response := a.option? "ir"

/-- The command of a topic with its arguments. -/
def ofArguments? (a : Arguments) : Topic → Option Command
  | .check =>
    match a.operands with
    | [path] => some (.check path (a.has "json"))
    | _ => none
  | .schema => some .schema
  | .render =>
    match a.operands with
    | [library, instrument, output] => some (.render (requestOf a library instrument output))
    | _ => none
  | .program => none

end Command

namespace Request

/-- What a halt inside a command comes to. -/
def ofHalt (topic : Topic) : Halt → Request
  | .misuse => .misuse
  | .asked "help" => .help topic
  | .asked _ => .version

/-- The request of a command's own arguments; `outer` stood in front of its name. -/
def ofCommand (topic : Topic) (outer : Arguments) (given : List String) : Request :=
  match Arguments.readAll topic.shape given with
  | .error halt => ofHalt topic halt
  | .ok a =>
    match Command.ofArguments? a topic with
    | some command => .run ⟨a.option? "config" <|> outer.option? "config", command⟩
    | none => .misuse

def ofArguments (given : List String) : Request :=
  match Arguments.read Topic.program.shape {} given with
  | .error halt => ofHalt .program halt
  | .ok (_, []) => .misuse
  | .ok (_, ["help"]) => .help .program
  | .ok (_, ["help", name]) =>
    match Topic.ofName? name with
    | some topic => .help topic
    | none => .misuse
  | .ok (outer, name :: rest) =>
    match Topic.ofName? name with
    | some topic => ofCommand topic outer rest
    | none => .misuse

end Request

end Multisample
