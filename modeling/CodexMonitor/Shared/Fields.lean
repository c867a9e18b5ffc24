import CodexMonitor.Approvals.Rules

namespace CodexMonitor.Shared

open CodexMonitor.Approvals (Json)

/-!
# Shared — the fields of JSON values

The accessors of `serde_json::Value` that the shared code reads replies and logs with.
-/

/-- `value.get(key)` -/
def getField (key : Text) : Json → Option Json
  | .object entries => (entries.find? fun entry => entry.1 = key).map Prod.snd
  | _ => none

def asStr : Json → Option Text
  | .string t => some t
  | _ => none

/-- `value.as_object()`, as the value itself. -/
def asObject : Json → Option Json
  | .object entries => some (.object entries)
  | _ => none

end CodexMonitor.Shared
