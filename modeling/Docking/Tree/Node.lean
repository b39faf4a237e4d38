import Docking.Part
import Docking.Geometry.Rect
/-!
# Layout nodes

The layout of a page is a tree of nodes kept in a table and named by handles. A node is a
pane (the frame of one part), a placeholder keeping the slot of a hidden pane, a tab folder
(children shown one at a time, with a selected index), a split (children side by side, each
with a weight), or a collapsed container: a container whose panes are all hidden, folded
away behind a node that takes no space until one of them returns.

Every node has an identity text, a link to its container (none for a window's root) and
the bounds it got from the last layout pass.
-/

namespace Docking

/-- The handle of a layout node. Handles are given out in order and never reused, so a
stale handle names no node instead of another one. -/
structure NodeId where
  val : Nat
  deriving DecidableEq, Repr, Inhabited, Hashable

instance : Ord NodeId := ⟨fun a b => compare a.val b.val⟩

/-- The frame of one part. -/
structure Pane where
  part : PartId
  kind : PartKind
  deriving DecidableEq, Repr, Inhabited

/-- What a node is, with the children it holds. -/
inductive NodeKind where
  | pane (p : Pane)
  | placeholder (part : PartId)
  | folder (children : List NodeId) (selected : Option Nat)
  | split (orientation : Orientation) (children : List NodeId) (weights : List Float32)
  | collapsed (inner : NodeId)
  deriving Repr, Inhabited

/-- A node of the layout table. -/
structure Node where
  ident : String
  parent : Option NodeId
  bounds : Rect
  kind : NodeKind
  deriving Repr, Inhabited

namespace NodeKind

/-- An empty tab folder. -/
def emptyFolder : NodeKind := .folder [] none

/-- An empty split along `o`. -/
def emptySplit (o : Orientation) : NodeKind := .split o [] []

/-- The children shown on screen, in order; a collapsed container shows none. -/
def children : NodeKind → List NodeId
  | .folder cs _ => cs
  | .split _ cs _ => cs
  | _ => []

/-- The pane, if the node is one. -/
def pane? : NodeKind → Option Pane
  | .pane p => some p
  | _ => none

/-- The weights of a split's children; other nodes have none. -/
def weights : NodeKind → List Float32
  | .split _ _ ws => ws
  | _ => []

/-- The orientation of a split. -/
def orientation? : NodeKind → Option Orientation
  | .split o _ _ => some o
  | _ => none

def isPane : NodeKind → Bool
  | .pane _ => true
  | _ => false

def isFolder : NodeKind → Bool
  | .folder _ _ => true
  | _ => false

def isSplit : NodeKind → Bool
  | .split _ _ _ => true
  | _ => false

/-- Folders and splits hold children on screen. -/
def isContainer (k : NodeKind) : Bool := k.isFolder || k.isSplit

/-- Placeholders and collapsed containers take no space on screen. -/
def isPlaceholder : NodeKind → Bool
  | .placeholder _ => true
  | .collapsed _ => true
  | _ => false

/-- Whether the node folds a container away. -/
def isCollapsed : NodeKind → Bool
  | .collapsed _ => true
  | _ => false

/-- The container folded behind a collapsed node. -/
def inner? : NodeKind → Option NodeId
  | .collapsed n => some n
  | _ => none

end NodeKind

/-- A fresh node: no container and empty bounds. -/
def Node.fresh (ident : String) (kind : NodeKind) : Node :=
  ⟨ident, none, Rect.zero, kind⟩

end Docking
