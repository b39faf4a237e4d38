import Docking.Layout.Show
import Docking.Layout.Hide
/-!
# Zoom, tabs and fast views

Zooming gives a whole window to a pane's folder (or to the pane when it has none); any
other zoom ends. Bringing a pane to the top selects its tab. A fast view is a view hidden
from the layout and kept in a list from which it can be shown again.
-/

namespace Docking

namespace LayoutM

/-- Zooms on the folder of a node (or the node when it has none), selecting the node;
says whether the zoom changed. -/
def zoomNode (n : NodeId) : LayoutM Bool := do
  let found ← node n
  let l ← get
  if !(found.kind.isPane || found.kind.isFolder) || l.isFixed n then throw (.invalidTarget n)
  if (l.windowOf n).isNone then throw (.orphan n)
  let unit := (l.folderOf n).getD n
  let _ ← select n
  if (← get).zoomed == some unit then return false
  modify fun l => { l with zoomed := some unit }
  pure true

/-- Zooms on a part's pane. -/
def zoomIn (part : PartId) : LayoutM Bool := do
  let some n := (← get).findPane part | throw (.unknownPart part)
  zoomNode n

/-- Selects a part's tab; says whether the selection changed. -/
def bringToTop (part : PartId) : LayoutM Bool := do
  let some n := (← get).findPane part | throw (.unknownPart part)
  select n

/-- Hides a view and keeps it as a fast view. -/
def setFast (part : PartId) : LayoutM Unit := do
  let some n := (← get).findPane part | throw (.unknownPart part)
  let found ← node n
  match found.kind.pane? with
  | some { kind := .view, .. } => pure ()
  | _ => throw (.notMinimizable part)
  let _ ← removePane part
  modify fun l => if l.fastViews.contains part then l else { l with fastViews := l.fastViews ++ [part] }

/-- Shows a fast view again, as a view. -/
def restoreFast (part : PartId) : LayoutM NodeId := do
  if !(← get).isFast part then throw (.unknownPart part)
  addPane ⟨part, .view⟩

/-- Drops a fast view without showing it; its placeholder stays. Says whether it was one. -/
def clearFast (part : PartId) : LayoutM Bool := do
  let l ← get
  set { l with fastViews := l.fastViews.filter (· != part) }
  pure (l.fastViews.contains part)

/-- Hides every shown pane whose part `keep` rejects, in the order of `Layout.panes`. -/
def retainPanes (keep : PartId → Bool) : LayoutM Unit := do
  for part in (← get).panes.filter (fun p => !keep p) do
    let _ ← removePane part

end LayoutM

end Docking
