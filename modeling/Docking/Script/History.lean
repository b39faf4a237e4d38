import Docking.Script.Reply
import Docking.Activation.History
/-!
# History scripts

A history script drives one activation history command by command; a saved history given
to `restoreState` replaces the history when it reads back, and leaves it as it was when not.
-/

namespace Docking

/-- A command of a history script. -/
inductive HistoryCommand where
  | recordActivated (part : PartId) (kind : PartKind)
  | recordOpened (part : PartId) (kind : PartKind)
  | remove (part : PartId)
  | setMinimized (part : PartId) (minimized : Bool)
  | isMinimized (part : PartId)
  | current
  | previous
  | cycle (forward : Bool)
  | contains (part : PartId)
  | length
  | isEmpty
  | retain (keep : List PartId)
  | saveState
  | restoreState (m : Memento)
  deriving Inhabited

namespace Script

/-- Runs one command of a history script. -/
def historyStep (h : History) : HistoryCommand → Except Fault Reply × History
  | .recordActivated part kind => (.ok .none, h.recordActivated part kind)
  | .recordOpened part kind => (.ok .none, h.recordOpened part kind)
  | .remove part => let (b, h') := h.remove part; (.ok (.flag b), h')
  | .setMinimized part b => (.ok .none, h.setMinimized part b)
  | .isMinimized part => (.ok (.flag (h.isMinimized part)), h)
  | .current => (.ok (.maybePart h.current), h)
  | .previous => (.ok (.maybePart h.previous), h)
  | .cycle forward => let (p, h') := h.cycle forward; (.ok (.maybePart p), h')
  | .contains part => (.ok (.flag (h.contains part)), h)
  | .length => (.ok (.count h.length), h)
  | .isEmpty => (.ok (.flag h.isEmpty), h)
  | .retain keep => (.ok .none, h.retain keep.contains)
  | .saveState => (.ok (.memento h.save), h)
  | .restoreState m =>
    match History.restore m with
    | .ok h' => (.ok .none, h')
    | .error e => (.error (.restore e), h)

end Script

end Docking
