import Multisample.Library.Scan
import Multisample.Text.Json

/-!
# Reports

What a scan found is told to a reader line by line, or to a program as JSON.
-/

namespace Multisample

namespace FileIssue

def text (i : FileIssue) : String :=
  s!"{i.path.text}: {i.problem.message}"

end FileIssue

namespace LoadedLibrary

/-- A line for the library, one for each instrument and one for each issue. -/
def lines (l : LoadedLibrary) : List String :=
  let instruments := l.library.instruments
  s!"- {l.library.id.text} ({instruments.length} instruments, {l.library.responses.length} impulse responses)"
    :: instruments.map (fun i => s!"  - {i.name} ({i.regions.length} regions)")
    ++ l.issues.map fun i => s!"  ! {i.text}"

def json (l : LoadedLibrary) : Text.Json :=
  .object [
    ("author", .text l.library.info.author),
    ("name", .text l.library.info.name),
    ("path", .text l.library.scriptPath),
    ("instruments", .texts (l.library.instruments.map fun i => i.name)),
    ("impulse_responses", .texts (l.library.responses.map fun r => r.name)),
    ("file_issues", .texts (l.issues.map FileIssue.text))]

end LoadedLibrary

namespace ScanFailure

def line (f : ScanFailure) : String :=
  s!"- {f.path} [{f.fault.code}]: {f.fault.message}"

def json (f : ScanFailure) : Text.Json :=
  .object [
    ("path", .text f.path),
    ("code", .text f.fault.code),
    ("message", .text f.fault.message)]

end ScanFailure

namespace ScanReport

/-- The lines of a report about a path. -/
def lines (r : ScanReport) (path : String) : List String :=
  if r.libraries.isEmpty && r.failures.isEmpty then [s!"No libraries found in {path}."]
  else
    s!"Libraries (count: {r.libraries.length}):" :: r.libraries.flatMap LoadedLibrary.lines
      ++ if r.failures.isEmpty then []
        else "" :: s!"Failures (count: {r.failures.length}):" :: r.failures.map ScanFailure.line

def json (r : ScanReport) : Text.Json :=
  .object [
    ("libraries", .list (r.libraries.map LoadedLibrary.json)),
    ("failures", .list (r.failures.map ScanFailure.json))]

/-- A report about a path as it is printed. -/
def text (r : ScanReport) (path : String) (json : Bool) : String :=
  String.join ((if json then [r.json.render 0] else r.lines path).map (· ++ "\n"))

end ScanReport

end Multisample
