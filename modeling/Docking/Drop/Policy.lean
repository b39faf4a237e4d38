import Docking.Window
import Docking.Geometry.Zone
/-!
# The drop policy

When a drag gesture ends, `decide` turns the facts of the gesture into a decision. The first
rule that matches wins:

1. over the shortcut bar, views are minimized and anything else is refused;
2. outside every window, or over another window than the source's, the source floats: it
   moves its own detached window when it is all that window shows, and is detached otherwise;
   without floating support the drop is refused;
3. over the editor area, an edge splits beside it and the center is refused;
4. over a pane or a folder, an edge splits beside the target and the center stacks onto it;
   inside a floating window only stacking is offered;
5. over anything else, or onto the source itself or the folder it is alone in, it is refused.

Only the pointer's zone needs arithmetic, and that can overflow (`Geometry.Zone`).
-/

namespace Docking

/-- Where a drop lands. -/
inductive DropPosition where
  | center
  | left
  | right
  | top
  | bottom
  | offscreen
  | invalid
  deriving DecidableEq, Repr, Inhabited

namespace DropPosition

/-- The position of a zone: a side, or the center. -/
def ofZone : Option Side → DropPosition
  | none => .center
  | some .left => .left
  | some .right => .right
  | some .top => .top
  | some .bottom => .bottom

/-- The side of an edge position. -/
def side? : DropPosition → Option Side
  | .left => some .left
  | .right => some .right
  | .top => some .top
  | .bottom => some .bottom
  | _ => none

/-- The lower-case name of a position. -/
def name : DropPosition → String
  | .center => "center"
  | .left => "left"
  | .right => "right"
  | .top => "top"
  | .bottom => "bottom"
  | .offscreen => "offscreen"
  | .invalid => "invalid"

end DropPosition

/-- What a drop does. -/
inductive DropAction where
  | split (target : NodeId) (side : Side)
  | stack (target : NodeId)
  | detach (bounds : FloatRect)
  | moveWindow (window : WindowId) (bounds : FloatRect)
  | minimize
  | reject
  deriving DecidableEq, Repr, Inhabited

/-- A decided drop: the dragged node, where it lands and what happens. -/
structure DropDecision where
  source : NodeId
  position : DropPosition
  action : DropAction
  deriving DecidableEq, Repr, Inhabited

/-- The refusal of a drop of `source`. -/
def DropDecision.reject (source : NodeId) : DropDecision :=
  ⟨source, .invalid, .reject⟩

/-- The facts of the dragged pane or folder. -/
structure DragSource where
  node : NodeId
  window : WindowRef
  bounds : Rect
  /-- The folder holding the dragged pane, if any. -/
  folder : Option NodeId
  /-- The dragged pane is the only visible tab of its folder. -/
  aloneInFolder : Bool
  /-- The drag covers every visible pane of a floating window. -/
  aloneInFloating : Bool
  /-- Only views are dragged, so the drag may end as fast views. -/
  minimizable : Bool
  deriving DecidableEq, Repr, Inhabited

/-- What a target node is to a drop. -/
inductive TargetRole where
  | pane (folder : Option NodeId)
  | folder
  | editorArea
  | other
  deriving DecidableEq, Repr, Inhabited

/-- What is under the pointer. -/
inductive TargetFacts where
  | shortcutBar
  | outside
  | node (node : NodeId) (window : WindowRef) (role : TargetRole) (bounds : Rect)
  deriving DecidableEq, Repr, Inhabited

/-- All facts of a gesture. The pointer is in the coordinates of the target's window. -/
structure DropQuery where
  source : DragSource
  target : TargetFacts
  pointer : Int32 × Int32
  floating : Bool
  deriving DecidableEq, Repr, Inhabited

/-- The drop of a source that leaves its window. -/
def DropQuery.offscreen (q : DropQuery) : DropDecision :=
  if !q.floating then .reject q.source.node
  else
    let bounds : FloatRect := ⟨q.pointer.1, q.pointer.2, q.source.bounds.width, q.source.bounds.height⟩
    let action := match q.source.window with
      | .detached w => if q.source.aloneInFloating then .moveWindow w bounds else .detach bounds
      | .main => .detach bounds
    ⟨q.source.node, .offscreen, action⟩

/-- The drop onto a node of the source's own window, once its zone is known. -/
def DropQuery.onNode (q : DropQuery) (node : NodeId) (window : WindowRef) (role : TargetRole)
    (zone : Option Side) : DropDecision :=
  let s := q.source
  match role with
  | .editorArea =>
    match zone with
    | some side => ⟨s.node, .ofZone zone, .split node side⟩
    | none => .reject s.node
  | .other => .reject s.node
  | .pane _ | .folder =>
    let targetFolder := match role with
      | .pane f => f
      | _ => some node
    let position := if window.isFloating then DropPosition.center else .ofZone zone
    let ontoSelf := node == s.node || targetFolder == some s.node
    let ontoOwnFolder := s.aloneInFolder && targetFolder.isSome && targetFolder == s.folder
    if ontoSelf || ontoOwnFolder then .reject s.node
    else
      match position.side? with
      | some side => ⟨s.node, position, .split node side⟩
      | none => ⟨s.node, position, .stack node⟩

/-- Decides a drop; the first matching rule wins. -/
def DropQuery.decide (q : DropQuery) : Except Overflow DropDecision :=
  match q.target with
  | .shortcutBar =>
    .ok (if q.source.minimizable then ⟨q.source.node, .center, .minimize⟩
      else .reject q.source.node)
  | .outside => .ok q.offscreen
  | .node node window role bounds =>
    if window != q.source.window then .ok q.offscreen
    else do
      let zone ← dropZone bounds q.pointer.1 q.pointer.2
      pure (q.onNode node window role zone)

end Docking
