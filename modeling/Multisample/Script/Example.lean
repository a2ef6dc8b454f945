import Multisample.Script.Records

/-!
# The example script

A script that lists every field the host understands, written from the schemas
so that it cannot say anything else than what is checked.
-/

namespace Multisample.Script.Example

def indent : String := "    "

def capitalize (text : String) : String :=
  match text.toList with
  | [] => ""
  | c :: rest => String.ofList (c.toUpper :: rest)

/-- What the comment above a field says about its type, default and bounds. -/
def describe (field : FieldSpec) : String :=
  let doc := field.doc
  let presence :=
    if doc.required then "Required."
    else if doc.default == "" then "Optional."
    else s!"Optional, default: {doc.default}."
  let bounds := match field.kind with
    | .integer b => s!" Range: [{b.least}, {b.greatest}]."
    | .range start stop =>
      s!" Start in [{start.least}, {start.greatest}], " ++
        s!"end in [{stop.least}, {stop.greatest}], end exclusive."
    | .text (o :: options) => s!" One of: {Violation.options (o :: options)}."
    | _ => ""
  s!"{capitalize field.kind.typeText}. {presence}{bounds}"

mutual

def fieldLines (indentation : String) : FieldSpec → List String
  | .mk doc kind =>
    [s!"{indentation}-- {doc.description}", s!"{indentation}-- {describe (.mk doc kind)}"] ++
      kindLines indentation doc kind

/-- The lines that give a field its value. -/
def kindLines (indentation : String) (doc : FieldDoc) : FieldKind → List String
  | .record schema =>
    [s!"{indentation}{doc.name} = \x7b"] ++ schemaLines (indentation ++ indent) schema ++
      [s!"{indentation}\x7d,"]
  | _ => [s!"{indentation}{doc.name} = {doc.literal},"]

def schemaLines (indentation : String) : Schema → List String
  | .mk _ fields _ => fieldsLines indentation fields

def fieldsLines (indentation : String) : List FieldSpec → List String
  | [] => []
  | field :: rest => fieldLines indentation field ++ fieldsLines indentation rest

end

/-- A call with a table of all fields as its last argument. -/
def call (opening : String) (schema : Schema) : List String :=
  [opening ++ "\x7b"] ++ schemaLines indent schema ++ ["\x7d)", ""]

def lines : List String :=
  ["-- An example floe.lua listing every field the host understands.",
    "-- Paths are relative to this file. Unknown fields are ignored.",
    "",
    "-- floe.new_library(table) creates the library. The script must return it."] ++
  call "local library = floe.new_library(" .libraryInfo ++
  ["-- floe.new_instrument(library, table) adds an instrument to the library."] ++
  call "local instrument = floe.new_instrument(library, " .instrument ++
  ["-- floe.add_region(instrument, table) maps an audio file onto the instrument."] ++
  call "floe.add_region(instrument, " .region ++
  ["-- floe.add_ir(library, table) adds an impulse response for the convolution reverb."] ++
  call "floe.add_ir(library, " .impulseResponse ++
  ["-- floe.extend_table(base, overrides) returns a deep copy of base with overrides merged in.",
    "local shared = \x7b file = \x7b root_key = 60 \x7d \x7d",
    "local merged = floe.extend_table(shared, " ++
      "\x7b file = \x7b path = \"samples/piano_c5.wav\", root_key = 72 \x7d \x7d)",
    "floe.add_region(instrument, merged)",
    "",
    "return library"]

def script : String :=
  String.join (lines.map (· ++ "\n"))

end Multisample.Script.Example
