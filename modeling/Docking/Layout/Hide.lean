import Docking.Layout.Basic
/-!
# Hiding and disposing panes, and tidying up behind them

Hiding a pane leaves a placeholder in its slot, with the same siblings and weight, so that
the pane comes back where it was. Containers of the main window left with placeholders only
are folded away behind a collapsed node (`collapseEmpty`); a detached window left without
panes is parked or closed (`LayoutM.retireIfEmpty`).

Taking a node out of its container tidies upward (`tidy`): empty containers go, a split
with one child gives its slot to that child, and a collapsed node whose container emptied
goes too.

Both are upward loops (`LayoutM.climbFrom`): a pass at the node the loop stands at says
where it goes on. They climb at most as many levels as the table has slots, which bounds
every path of its forest; `Store.depthBound` is their bound.
-/

namespace Docking

namespace LayoutM

/-- One pass of folding at `current`: a container of the main window holding only
placeholders goes behind a new collapsed node in its slot, and the fold goes on from its
container. The root, the editor area and the containers above the editor area always stay. -/
def collapsePass (current : NodeId) : LayoutM (Option NodeId) := do
  let l ← get
  if l.isFixed current || l.holdsEditorArea current then return none
  let n ← node current
  if !n.kind.isContainer || n.kind.children.isEmpty || l.store.hasPane current then return none
  match l.store.parent? current with
  | none => pure none
  | some parent =>
    let p ← node parent
    if p.kind.isCollapsed then return none
    let holder ← alloc n.ident (.collapsed current)
    edit (·.replaceChild parent current holder)
    edit (·.setParent current (some holder))
    pure (some parent)

/-- Folds the containers holding only placeholders behind collapsed nodes, climbing from
`current` at most `fuel` levels. -/
def collapseFrom (fuel : Nat) (current : NodeId) : LayoutM Unit :=
  climbFrom collapsePass fuel current

/-- Folds away the containers above `start` that hold only placeholders. -/
def collapseEmpty (start : NodeId) : LayoutM Unit := do
  collapseFrom (← store).depthBound start

/-- One pass of tidying at `current`: a window's folder retires the window, an empty parked
folder goes with its window, an emptied collapsed node goes from its container, an empty
container goes, and a split with one child gives its slot to the child; the tidy then goes
on from the container that lost a child. Anything else in the main window is folded. -/
def tidyPass (current : NodeId) : LayoutM (Option NodeId) := do
  let l ← get
  if l.isFixed current || !l.store.contains current then return none
  if let some w := l.windows.find? (·.folder == current) then
    retireIfEmpty w.id
    return none
  if let some i := l.parked.findIdx? (·.folder == current) then
    if (l.store.children current).isEmpty then
      set { l with parked := l.parked.eraseIdx i, store := l.store.free current }
    return none
  match l.store.parent? current with
  | none => pure none
  | some parent =>
    let n ← node current
    let children := n.kind.children
    let p ← node parent
    if p.kind.isCollapsed then
      if !children.isEmpty then return none
      match l.store.parent? parent with
      | none => pure none
      | some grand =>
        let _ ← editWith (·.removeChild grand parent)
        onStore (·.free parent)
        pure (some grand)
    else if n.kind.isContainer && children.isEmpty then
      let _ ← editWith (·.removeChild parent current)
      onStore (·.discard current)
      pure (some parent)
    else
      match n.kind, children with
      | .split .., [only] =>
        let _ ← editWith (·.removeChild current only)
        edit (·.replaceChild parent current only)
        onStore (·.discard current)
        pure (some parent)
      | _, _ =>
        if (← get).windowOf current == some .main then collapseEmpty current
        pure none

/-- Tidies from `current` upward, at most `fuel` levels. -/
def tidyFrom (fuel : Nat) (current : NodeId) : LayoutM Unit :=
  climbFrom tidyPass fuel current

/-- Drops empty containers, flattens one-child splits and folds placeholder-only
containers, climbing from `start`. -/
def tidy (start : NodeId) : LayoutM Unit := do
  tidyFrom (← store).depthBound start

/-- Takes a node out of its container and tidies behind it; gives the weight its slot
held. -/
def takeNode (n : NodeId) : LayoutM Float32 := do
  match (← store).parent? n with
  | none => throw (.orphan n)
  | some parent =>
    let w ← editWith (·.removeChild parent n)
    tidy parent
    pure w

/-- Hides a part's pane, leaving a placeholder in its slot; gives the placeholder. -/
def removePane (part : PartId) : LayoutM NodeId := do
  let _ ← zoomOut
  let l ← get
  let some n := l.findPane part | throw (.unknownPart part)
  let some parent := l.store.parent? n | throw (.orphan n)
  let window := l.windowOf n
  let holder ← alloc part (.placeholder part)
  onError (edit (·.replaceChild parent n holder)) fun e => do
    onStore (·.discard holder)
    throw e
  onStore (·.free n)
  match window with
  | some .main => collapseEmpty parent
  | some (.detached w) => retireIfEmpty w
  | none => pure ()
  pure holder

/-- Removes a part from the layout for good, its placeholder included. -/
def disposePane (part : PartId) : LayoutM Unit := do
  let _ ← zoomOut
  dropFast part
  let l ← get
  let some n := (l.findPane part).orElse fun _ => l.findPlaceholder part
    | throw (.unknownPart part)
  let _ ← takeNode n
  onStore (·.free n)

end LayoutM

end Docking
