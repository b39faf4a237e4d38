import Docking.Drop.Policy
import Docking.Layout.Move
import Docking.Layout.Zoom
/-!
# Drops on a layout

`Layout.evaluateDrop` gathers the facts of a gesture from the layout (using the bounds of
the last layout pass) and lets the policy decide; it never changes the layout. A gesture
whose source is not a movable pane or folder of a shown window, or whose target node is in
no shown window, is refused.

`LayoutM.applyDrop` carries a decision out and says whether the layout changed.
Minimizing turns every pane under the source into a fast view.
-/

namespace Docking

/-- What the pointer is over when a gesture ends. -/
inductive DropTarget where
  | node (n : NodeId)
  | shortcutBar
  | outside
  deriving DecidableEq, Repr, Inhabited

namespace Layout

/-- The facts of dragging the node `n`, if it can be dragged. -/
def dragSource (l : Layout) (n : NodeId) : Option DragSource := do
  let found ← l.store.get? n
  if !(found.kind.isPane || found.kind.isFolder) || some n == l.editorArea then none
  let window ← l.windowOf n
  let folder := found.parent.filter l.store.isFolder
  let aloneInFolder := found.kind.isPane && (folder.map fun f => l.store.countPanes f == 1).getD false
  let aloneInFloating := match window with
    | .detached w =>
      match l.window? w with
      | some win => l.store.countPanes win.folder == l.store.countPanes n
      | none => false
    | .main => false
  let minimizable := (l.store.walk n false).all fun id =>
    match (l.store.get? id).bind (·.kind.pane?) with
    | some p => p.kind == .view
    | none => true
  pure { node := n, window, bounds := found.bounds, folder, aloneInFolder, aloneInFloating,
         minimizable }

/-- The facts of a drop target, if it is a node of a shown window or no node at all. -/
def targetFacts (l : Layout) : DropTarget → Option TargetFacts
  | .shortcutBar => some .shortcutBar
  | .outside => some .outside
  | .node n => do
    let found ← l.store.get? n
    let window ← l.windowOf n
    let role :=
      if some n == l.editorArea then TargetRole.editorArea
      else if found.kind.isPane then .pane (found.parent.filter l.store.isFolder)
      else if found.kind.isFolder then .folder
      else .other
    pure (.node n window role found.bounds)

/-- Decides what dropping `source` on `target` with the pointer at `pointer` would do. -/
def evaluateDrop (l : Layout) (source : NodeId) (target : DropTarget) (pointer : Int32 × Int32) :
    Except Overflow DropDecision :=
  match l.dragSource source, l.targetFacts target with
  | some s, some t => DropQuery.decide { source := s, target := t, pointer, floating := l.host.floating }
  | _, _ => .ok (.reject source)

end Layout

namespace LayoutM

/-- Carries a drop decision out; says whether the layout changed. -/
def applyDrop (d : DropDecision) : LayoutM Bool := do
  match d.action with
  | .reject => pure false
  | .split target side =>
    moveNode d.source side target
    pure true
  | .stack target =>
    stackNode d.source target
    pure true
  | .detach bounds => return (← detachNode d.source bounds).isSome
  | .moveWindow w bounds =>
    moveWindow w bounds
    pure true
  | .minimize =>
    let s ← store
    let views := (s.walk d.source false).filterMap fun id =>
      ((s.get? id).bind (·.kind.pane?)).map (·.part)
    if views.isEmpty then throw (.invalidTarget d.source)
    for p in views do
      setFast p
    pure true

end LayoutM

end Docking
