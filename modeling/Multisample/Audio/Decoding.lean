import Multisample.Audio.Wave
import Multisample.Error

/-!
# Decoding files

A file is opened, recognised by its content, and only then does a cancelled
request give up.
-/

namespace Multisample

/-- The audio of a file, at the file's own rate. -/
def decodeFile (files : Files.Tree) (cancelled : Bool) (path : String) :
    Except DecodeError (AudioBuffer Float32) :=
  match files.find path with
  | .error fault => .error (.cannotOpen path fault)
  | .ok (.folder _) => .error (.format path)
  | .ok (.file content) =>
    match Wave.decode? content with
    | none => .error (.format path)
    | some (format, samples) =>
      if cancelled then .error (.cancelled path)
      else if samples.isEmpty then .error (.empty path)
      else .ok (AudioBuffer.ofSamples samples format.channels format.rate)

end Multisample
