import Docking.Window
/-!
# Layout errors

The requests that the layout refuses to carry out, each with the cause that a caller can
act on. `LayoutError.message` is the one place where their text is written; handles print
as `NodeId(7)` and window numbers as `DetachedWindowId(2)`.
-/

namespace Docking

/-- A structural request the layout refuses. -/
inductive LayoutError where
  /-- No node has this handle. -/
  | unknownNode (node : NodeId)
  /-- No pane (or placeholder) shows this part. -/
  | unknownPart (part : PartId)
  /-- The node is not in its container's child list, or has no container. -/
  | orphan (node : NodeId)
  /-- The node cannot play the part the request gives it. -/
  | invalidTarget (node : NodeId)
  /-- The node would be moved relative to itself or into its own subtree. -/
  | selfReference (node : NodeId)
  /-- The root container and the editor area stay where they are. -/
  | immovable
  /-- Only views become fast views. -/
  | notMinimizable (part : PartId)
  /-- No detached window has this number. -/
  | unknownWindow (window : WindowId)
  deriving DecidableEq, Repr, Inhabited

/-- How a node handle is written in messages. -/
def NodeId.text (n : NodeId) : String := "NodeId(" ++ toString n.val ++ ")"

/-- How a window number is written in messages. -/
def WindowId.text (w : WindowId) : String := "DetachedWindowId(" ++ toString w.val ++ ")"

/-- The text of a layout error. -/
def LayoutError.message : LayoutError → String
  | .unknownNode n => "layout node " ++ n.text ++ " does not exist"
  | .unknownPart p => "part `" ++ p ++ "` is not in the layout"
  | .orphan n => "layout node " ++ n.text ++ " has no container"
  | .invalidTarget n => "layout node " ++ n.text ++ " cannot be used as a target"
  | .selfReference n => "layout node " ++ n.text ++ " cannot be moved relative to itself"
  | .immovable => "the root container and the editor area are fixed"
  | .notMinimizable p => "part `" ++ p ++ "` cannot be minimized"
  | .unknownWindow w => "detached window " ++ w.text ++ " does not exist"

end Docking
