import Docking.Tree.Node
/-!
# Windows

Besides the main window, a page may float detached windows, each showing one top-level tab
folder on a surface of the host. A detached window whose panes are all hidden is parked:
its bounds and its folder of placeholders are kept, ready to reopen the window when one of
them is shown again.
-/

namespace Docking

/-- The number of a detached window. Numbers are given out in order. -/
structure WindowId where
  val : Nat
  deriving DecidableEq, Repr, Inhabited

/-- The number of a surface the host opened. -/
structure SurfaceId where
  val : Nat
  deriving DecidableEq, Repr, Inhabited

/-- The top-level window a node lives in. -/
inductive WindowRef where
  | main
  | detached (id : WindowId)
  deriving DecidableEq, Repr, Inhabited

/-- Detached windows float; the main window does not. -/
def WindowRef.isFloating : WindowRef → Bool
  | .main => false
  | .detached _ => true

/-- A detached window: its bounds on the host, its folder and its surface, which is gone
once the window was closed. -/
structure Window where
  id : WindowId
  bounds : FloatRect
  folder : NodeId
  surface : Option SurfaceId
  deriving DecidableEq, Repr, Inhabited

/-- The area a detached window's folder is laid out in. -/
def Window.area (w : Window) : Rect := w.bounds.ownArea

/-- What is left of a detached window whose panes are all hidden. -/
structure ParkedWindow where
  bounds : FloatRect
  folder : NodeId
  deriving DecidableEq, Repr, Inhabited

end Docking
