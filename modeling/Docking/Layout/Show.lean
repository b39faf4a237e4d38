import Docking.Layout.Basic
/-!
# Showing panes

`addPane` shows a part. A part already shown keeps its pane. A placeholder the part left
is replaced in place, unfolding the collapsed containers above it and reopening its parked
window when needed. Otherwise the pane goes to its default place: an editor into the first
folder of the editor area (the workbook, made on first use), anything else at the end of
the root split.
-/

namespace Docking

namespace LayoutM

/-- One pass of unfolding at `current`: when its container is the collapsed node folding it,
`current` takes that node's slot and the unfold stays at `current`; otherwise it goes on from
the container. -/
def unfoldPass (current : NodeId) : LayoutM (Option NodeId) := do
  let s ← store
  match s.parent? current with
  | none => pure none
  | some parent =>
    let p ← node parent
    match p.kind with
    | .collapsed inner =>
      if inner == current then
        match s.parent? parent with
        | none => pure none
        | some grand =>
          edit (·.replaceChild grand parent current)
          onStore (·.discard parent)
          pure (some current)
      else pure (some parent)
    | _ => pure (some parent)

/-- Unfolds the collapsed containers between `current` and its window root, climbing at
most `fuel` levels. -/
def unfoldFrom (fuel : Nat) (current : NodeId) : LayoutM Unit :=
  climbFrom unfoldPass fuel current

/-- Unfolds every collapsed container above a node. -/
def unfoldAbove (n : NodeId) : LayoutM Unit := do
  unfoldFrom (← store).depthBound n

/-- Puts a new pane into the slot of a placeholder, unfolding what was folded above it. -/
def replacePlaceholder (holder : NodeId) (pane : Pane) : LayoutM NodeId := do
  let some parent := (← store).parent? holder | throw (.orphan holder)
  let n ← alloc pane.part (.pane pane)
  onError (edit (·.replaceChild parent holder n)) fun e => do
    onStore (·.discard n)
    throw e
  onStore (·.discard holder)
  unfoldAbove n
  let _ ← select n
  pure n

/-- The folder of the editor area that new editors open into: its first folder, or a new
one at its end. -/
def workbook (area : NodeId) : LayoutM NodeId := do
  let s ← store
  match (s.walk area false).find? s.isFolder with
  | some f => pure f
  | none =>
    let f ← alloc "workbook" .emptyFolder
    edit (·.pushChild area f)
    pure f

/-- Shows a pane at its default place. -/
def placeDefault (pane : Pane) : LayoutM NodeId := do
  let n ← alloc pane.part (.pane pane)
  let l ← get
  let place : LayoutM Unit :=
    match l.editorArea, pane.kind with
    | some area, .editor => do
      let f ← workbook area
      edit (·.pushChild f n)
    | _, _ => edit (·.pushChild l.root n)
  onError place fun e => do
    onStore (·.discard n)
    throw e
  let _ ← select n
  pure n

/-- Shows a pane; gives the node that shows it. -/
def addPane (pane : Pane) : LayoutM NodeId := do
  let _ ← zoomOut
  dropFast pane.part
  let l ← get
  if let some existing := l.findPane pane.part then return existing
  match l.windowRoots.findSome? fun r => l.store.findPlaceholder r pane.part with
  | some holder => replacePlaceholder holder pane
  | none =>
    match l.parked.findIdx? fun h => (l.store.findPlaceholder h.folder pane.part).isSome with
    | none => placeDefault pane
    | some i =>
      match l.parked[i]? with
      | none => placeDefault pane
      | some h =>
        set { l with parked := l.parked.eraseIdx i }
        let opened ← openWindow h.folder h.bounds
        let s ← store
        let again := if opened.isSome then s.findPlaceholder h.folder pane.part else none
        match again with
        | some holder => replacePlaceholder holder pane
        | none =>
          onStore (·.free h.folder)
          placeDefault pane

end LayoutM

end Docking
