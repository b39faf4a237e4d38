import Docking.Page.Activation
import Docking.Drop.Gesture
import Docking.Layout.Regions
/-!
# Opening, showing and arranging parts on a page

Editors are opened by handing the page a part; views are built by the page's factory, one
instance per id, and every `showView` takes a reference that `hideView` gives back. A hidden
view keeps a placeholder in its slot; a closed editor leaves none. Activating a part restores
it from the fast views and ends a zoom onto another node first.

The arranging requests (`movePart`, `stack`, `detach`, `resizeSash`, `applyDrop`) certify
their part and pass the request to the layout; when the layout accepts it the page catches
up with the change.
-/

namespace Docking

namespace PageM

/-- Gives activation to a part, raising its tab; a fast view is restored into the layout
first, and a zoom that leaves the part out ends. Says whether the active part changed. -/
def activate (id : PartId) : PageM Bool := do
  if !(← owns id) then return false
  let wasZoomed ← zoomed
  let restored ← if (← get).layout.isFast id then do
      let r ← onLayout (LayoutM.restoreFast id)
      pure r.toBool
    else pure false
  let l := (← get).layout
  let unzoomed ← match l.findPane id with
    | some n =>
      if l.isWithinZoom n then pure false
      else do
        let r ← onLayout LayoutM.zoomOut
        pure (r.toOption.getD false)
    | none => pure false
  if restored || unzoomed then changed wasZoomed
  let _ ← onLayout (LayoutM.bringToTop id)
  grant id

/-- Takes ownership of an editor, shows it in the layout and activates it; an editor that is
already open is only activated. Says whether the editor was newly opened. -/
def openEditor (id : PartId) (kind : PartKind) : PageM Bool := do
  if kind != .editor then return false
  if ← owns id then
    let _ ← activate id
    return false
  onController (·.register id kind)
  match ← mutate (LayoutM.addPane ⟨id, .editor⟩) with
  | none =>
    onController (·.unregister id)
    pure false
  | some _ =>
    onHistory (·.recordOpened id .editor)
    emit (.opened id)
    let _ ← activate id
    pure true

/-- Shows a view and activates it, building its instance on first use; takes one reference
on the instance. When the layout cannot place the view, the reference goes back and the
answer is a failure that carries the layout's refusal. -/
def showView (id : PartId) : PageM (Except CreationError Instance) := do
  let (r, f) := (← get).factory.acquire id
  modify fun p => { p with factory := f }
  match r with
  | .error e => pure (.error e)
  | .ok inst =>
    let newlyOwned := !(← owns id)
    if newlyOwned then onController (·.register id inst.kind)
    let wasZoomed ← zoomed
    match ← onLayout (LayoutM.addPane ⟨id, .view⟩) with
    | .error err =>
      modify fun p => { p with factory := (p.factory.release id).2 }
      if newlyOwned then onController (·.unregister id)
      pure (.error (.failed id err.message))
    | .ok _ =>
      if newlyOwned then
        onHistory (·.recordOpened id .view)
        emit (.opened id)
      changed wasZoomed
      let _ ← activate id
      pure (.ok inst)

/-- Hides a view, keeping a placeholder in its slot, and gives back one reference on its
instance. Refused for a part that is not an owned view. -/
def hideView (id : PartId) : PageM Bool := do
  if (← get).controller.kindOf? id != some .view then return false
  modify fun p => { p with factory := (p.factory.release id).2 }
  let wasZoomed ← zoomed
  match ← onLayout (LayoutM.clearFast id) with
  | .ok true => pure ()
  | _ => let _ ← onLayout (LayoutM.removePane id)
  let _ ← retire id
  changed wasZoomed
  pure true

/-- Closes an editor for good; its slot is not remembered. Refused for a part that is not an
owned editor. -/
def closeEditor (id : PartId) : PageM Bool := do
  if (← get).controller.kindOf? id != some .editor then return false
  let wasZoomed ← zoomed
  let _ ← onLayout (LayoutM.disposePane id)
  let _ ← retire id
  changed wasZoomed
  pure true

/-- Minimizes a view to a fast view, or shows a fast view in its slot again. -/
def toggleFastView (id : PartId) : PageM Bool := do
  if !(← owns id) then return false
  if (← get).layout.isFast id then
    return (← mutate (LayoutM.restoreFast id)).isSome
  else
    return (← mutate (LayoutM.setFast id)).isSome

/-- Activates the next (or previous) open editor in recency order; none with fewer than two
editors. -/
def cycleEditors (forward : Bool) : PageM (Option PartId) := do
  let (next, h) := (← get).history.cycle forward
  onHistory fun _ => h
  match next with
  | none => pure none
  | some id =>
    let _ ← activate id
    pure (some id)

/-- Moves a part beside another part's pane. -/
def movePart (id : PartId) (side : Side) (reference : PartId) : PageM Bool := do
  if !(← owns id) then return false
  return (← mutate (LayoutM.movePane id side reference)).isSome

/-- Stacks a part into another part's folder. -/
def stack (id reference : PartId) : PageM Bool := do
  if !(← owns id) then return false
  return (← mutate (LayoutM.stack id reference)).isSome

/-- Floats a part in a new detached window; none when the part is not owned, the layout
refuses, or the host has no floating windows. -/
def detach (id : PartId) (bounds : FloatRect) : PageM (Option WindowId) := do
  if !(← owns id) then return none
  return (← mutate (LayoutM.detach id bounds)).join

/-- Moves a sash of a split. An overflow of the arithmetic ends the request where it
happened, and the page does not catch up. -/
def resizeSash (split : NodeId) (index : Nat) (delta : Int) : PageM (Except Overflow Bool) := do
  let wasZoomed ← zoomed
  match ← onLayout (LayoutM.resizeSash split index delta) with
  | .ok (.ok b) =>
    changed wasZoomed
    pure (.ok b)
  | .ok (.error o) => pure (.error o)
  | .error _ => pure (.ok false)

/-- Carries out an accepted drop; says whether the layout changed. -/
def applyDrop (d : DropDecision) : PageM Bool := do
  if d.action == .reject then return false
  return (← mutate (LayoutM.applyDrop d)).getD false

/-- Zooms onto a part's pane; says whether the zoom changed. -/
def zoomIn (id : PartId) : PageM Bool := do
  if !(← owns id) then return false
  match ← onLayout (LayoutM.zoomIn id) with
  | .ok b =>
    if b then emit (.zoomChanged true)
    pure b
  | .error _ => pure false

/-- Ends the zoom; says whether one was on. -/
def zoomOut : PageM Bool := do
  match ← onLayout LayoutM.zoomOut with
  | .ok b =>
    if b then emit (.zoomChanged false)
    pure b
  | .error _ => pure false

end PageM

end Docking
