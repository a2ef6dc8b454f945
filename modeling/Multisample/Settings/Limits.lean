import Multisample.Script.Evaluation
import Multisample.Settings.Engine

/-!
# Limits of scripts

The settings say how much time and memory a script gets and how long names may
be.
-/

namespace Multisample

/-- What scripts may use by the settings. -/
def Settings.limits (s : Settings) : Except SettingsError Script.Limits := do
  let q ← s.quotas
  return ⟨q.bytes, q.time, s.nameBytes⟩

end Multisample
