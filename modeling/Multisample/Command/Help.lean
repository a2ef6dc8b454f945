import Multisample.Command.Invocation

/-!
# Help

What the program prints when it is asked for help or for its version.
-/

namespace Multisample.Help

def version : String := "floe 0.1.0\n"

/-- Names with what is said about them, side by side. -/
def table (rows : List (String × String)) : List String :=
  let width := (rows.map fun r => r.1.length).foldl max 0
  rows.map fun (name, text) =>
    "  " ++ name ++ String.ofList (List.replicate (width - name.length + 2) ' ') ++ text

/-- A table under a title, if there is anything in it. -/
def part (title : String) (rows : List (String × String)) : List String :=
  if rows.isEmpty then [] else "" :: s!"{title}:" :: table rows

def about : Topic → String
  | .program => "Sample library interpreter and renderer."
  | .check => "Interprets every library under the given folder and reports problems"
  | .schema => "Prints a documented example floe.lua to stdout"
  | .render => "Renders a single note of an instrument to a WAV file"

def operands : Topic → List (String × String)
  | .program | .schema => []
  | .check => [("<PATH>", "A library folder, a folder of libraries or a single floe.lua")]
  | .render => [
    ("<LIBRARY>", "The library folder or its floe.lua"),
    ("<INSTRUMENT>", "The instrument name"),
    ("<OUTPUT>", "Where to write the 32-bit float stereo WAV")]

/-- The options that a topic has to itself. -/
def options : Topic → List (String × String)
  | .program | .schema => []
  | .check => [("    --json", "Print the report as JSON")]
  | .render => [
    ("-n, --note <NOTE>", "MIDI key to play [default: 60]"),
    ("-v, --velocity <VELOCITY>", "MIDI velocity, 1 to 127 [default: 100]"),
    ("    --hold <HOLD>", "How long the key is held, in seconds [default: 1]"),
    ("-s, --seconds <SECONDS>", "Total length of the render, in seconds [default: 3]"),
    ("    --ir <IR>", "Impulse response from the same library for the convolution reverb")]

def commands : Topic → List (String × String)
  | .program =>
    [Topic.check, .schema, .render].map (fun t => (t.name, about t))
      ++ [("help", "Print this message or the help of the given subcommand(s)")]
  | _ => []

def usage (t : Topic) : String :=
  let words := match t with
    | .program => ["floe", "[OPTIONS]", "<COMMAND>"]
    | t => ["floe", t.name, "[OPTIONS]"] ++ (operands t).map (·.1)
  "Usage: " ++ " ".intercalate words

/-- The help on a topic. -/
def text (t : Topic) : String :=
  let config := ("-c, --config <CONFIG>",
    "Optional engine configuration file (YAML). FLOE_* variables override it")
  let last := ("-h, --help", "Print help") ::
    if t = .program then [("-V, --version", "Print version")] else []
  let lines := [about t, "", usage t] ++ part "Commands" (commands t)
    ++ part "Arguments" (operands t) ++ part "Options" (config :: options t ++ last)
  String.join (lines.map (· ++ "\n"))

end Multisample.Help
