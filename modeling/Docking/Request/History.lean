import Docking.Request.Memento
import Docking.Script.History
import Docking.Script.Factory
/-!
# Reading history and factory steps

A step of a history script or a factory script names what it does under `do`; its fields are
read in order, and none of them depends on the state the step runs on.
-/

namespace Docking

open Request

/-- Reads a step of a history script. -/
def HistoryCommand.read (j : JsonValue) : Read HistoryCommand := do
  match ← stringAt j "do" with
  | "restore_state" =>
    match Memento.ofJson? (← field j "memento") with
    | some m => return .restoreState m
    | none => .error .invalidMemento
  | "record_activated" =>
    let id ← stringAt j "id"
    return .recordActivated id (← kindOr j "kind" .view)
  | "record_opened" =>
    let id ← stringAt j "id"
    return .recordOpened id (← kindOr j "kind" .view)
  | "remove" => return .remove (← stringAt j "id")
  | "set_minimized" =>
    let id ← stringAt j "id"
    return .setMinimized id (← boolAt j "minimized")
  | "is_minimized" => return .isMinimized (← stringAt j "id")
  | "current" => return .current
  | "previous" => return .previous
  | "cycle" => return .cycle (← boolAt j "forward")
  | "contains" => return .contains (← stringAt j "id")
  | "len" => return .length
  | "is_empty" => return .isEmpty
  | "retain" => return .retain (← stringsAt j "keep")
  | "save_state" => return .saveState
  | other => .error (.unknownStep "history" other)

/-- Reads a step of a factory script. -/
def FactoryCommand.read (j : JsonValue) : Read FactoryCommand := do
  match ← stringAt j "do" with
  | "acquire" => return .acquire (← stringAt j "id")
  | "release" => return .release (← stringAt j "id")
  | "peek" => return .peek (← stringAt j "id")
  | "reference_count" => return .referenceCount (← stringAt j "id")
  | other => .error (.unknownStep "factory" other)

end Docking
