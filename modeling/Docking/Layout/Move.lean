import Docking.Layout.Hide
/-!
# Moving panes and folders

Three ways to move a pane, or a folder with all its tabs:

* `moveNode` docks it against a side of a reference node; a tab docks against its whole
  folder. Beside a node of a split of the same orientation it takes half of that node's
  weight; otherwise the reference node is wrapped in a new split of the side's orientation.
  Docking against the root may turn the root's orientation, wrapping its old children.
* `stackNode` puts it into the reference's folder, wrapping the reference in a new folder
  when it has none.
* `detachNode` floats it in a new detached window, or moves its own window when it is all
  that window shows.

A detached window's folder never leaves its window: its tabs move instead, and the window
closes behind them.
-/

namespace Docking

namespace LayoutM

/-- Checks that a node may be moved: a pane or a folder of a shown window, neither the root
nor the editor area. -/
def ensureMovable (n : NodeId) : LayoutM Unit := do
  let l ← get
  if l.isFixed n then throw .immovable
  let found ← node n
  if !(found.kind.isPane || found.kind.isFolder) then throw (.invalidTarget n)
  if (l.windowOf n).isNone then throw (.orphan n)

/-- Moves every tab of the folder `src` to the end of the folder `dst`, keeping the tab
that was selected selected. -/
def transferTabs (src dst : NodeId) : LayoutM Unit := do
  let from_ ← node src
  let selected := match from_.kind with
    | .folder cs (some i) => cs[i]?
    | _ => none
  for child in (← store).children src do
    let _ ← editWith (·.removeChild src child)
    edit (·.pushChild dst child)
  if let some sel := selected then
    let _ ← select sel

/-- Takes a node out of the tree so that it can go elsewhere; gives the node to move. A
detached window's folder hands its tabs to a new folder, which moves instead. -/
def lift (source : NodeId) : LayoutM NodeId := do
  if ((← store).parent? source).isSome then
    let _ ← takeNode source
    return source
  let f ← allocContainer .emptyFolder
  transferTabs source f
  tidy source
  pure f

/-- Puts `moving` against a side of `anchor`. -/
def insertBeside (moving : NodeId) (side : Side) (anchor : NodeId) : LayoutM Unit := do
  let o := side.orientation
  let l ← get
  if anchor == l.root then
    let n ← node anchor
    let current := n.kind.orientation?.getD o
    if current != o && n.kind.children.length > 1 then
      let weights := n.kind.weights
      let inner ← allocContainer (.emptySplit current)
      for (child, w) in ((← store).children anchor).zip weights do
        let _ ← editWith (·.removeChild anchor child)
        edit fun s => s.insertChild inner (s.children inner).length child w
      edit (·.pushChild anchor inner)
    let n ← node anchor
    match n.kind with
    | .split _ cs ws => onStore (·.setKind anchor (.split o cs ws))
    | _ => pure ()
    let n ← node anchor
    let w := meanWeight n.kind.weights
    let index := if side.leading then 0 else n.kind.children.length
    edit (·.insertChild anchor index moving w)
  else
    let some parent := l.store.parent? anchor | throw (.orphan anchor)
    let index ← match l.store.childIndex parent anchor with
      | .ok i => pure i
      | .error e => throw e
    let p ← node parent
    if p.kind.orientation? == some o then
      let (half, kind) := match p.kind with
        | .split o' cs ws =>
          match ws[index]? with
          | some w => (w / 2, NodeKind.split o' cs (ws.set index (w / 2)))
          | none => (defaultWeight, p.kind)
        | k => (defaultWeight, k)
      onStore (·.setKind parent kind)
      let at_ := if side.leading then index else index + 1
      edit (·.insertChild parent at_ moving half)
    else
      let split ← allocContainer (.emptySplit o)
      onError (edit (·.replaceChild parent anchor split)) fun e => do
        onStore (·.discard split)
        throw e
      let (first, second) := if side.leading then (moving, anchor) else (anchor, moving)
      edit (·.insertChild split 0 first defaultWeight)
      edit (·.insertChild split 1 second defaultWeight)

/-- Docks `source` against a side of `reference`. -/
def moveNode (source : NodeId) (side : Side) (reference : NodeId) : LayoutM Unit := do
  let _ ← zoomOut
  ensureMovable source
  let l ← get
  let anchor := (l.folderOf reference).getD reference
  let anchorNode ← node anchor
  if !l.isFixed anchor then
    if !(anchorNode.kind.isPane || anchorNode.kind.isFolder) then throw (.invalidTarget reference)
    let some parent := l.store.parent? anchor | throw (.invalidTarget reference)
    let p ← node parent
    if !p.kind.isSplit then throw (.invalidTarget reference)
  if source == anchor || l.store.isAncestor source anchor then throw (.selfReference source)
  if !l.isFixed anchor && l.store.isAncestor anchor source &&
      decide (l.store.countPanes anchor ≤ l.store.countPanes source) then
    throw (.selfReference source)
  let shared := (l.store.parent? source).filter fun p => some p == l.store.parent? anchor
  let sameLine ← match shared with
    | some parent => do
      let p ← node parent
      pure (if p.kind.orientation? == some side.orientation then some parent else none)
    | none => pure none
  match sameLine with
  | some parent =>
    let w ← editWith (·.removeChild parent source)
    let index ← match (← store).childIndex parent anchor with
      | .ok i => pure i
      | .error e => throw e
    let index := if side.leading then index else index + 1
    edit (·.insertChild parent index source w)
  | none =>
    let moving ← lift source
    onError (insertBeside moving side anchor) fun e => do
      edit (·.pushChild (← get).root moving)
      throw e

/-- Docks a part's pane against a side of another part's pane. -/
def movePane (part : PartId) (side : Side) (reference : PartId) : LayoutM Unit := do
  let l ← get
  let some source := l.findPane part | throw (.unknownPart part)
  let some ref := l.findPane reference | throw (.unknownPart reference)
  moveNode source side ref

/-- The folder to stack into beside `reference`: the reference itself if it is a folder,
its folder if it has one, or a new folder that takes the reference's slot. -/
def targetFolder (reference : NodeId) : LayoutM NodeId := do
  let r ← node reference
  if r.kind.isFolder then return reference
  let l ← get
  if let some f := l.folderOf reference then return f
  let some parent := l.store.parent? reference | throw (.orphan reference)
  let f ← allocContainer .emptyFolder
  onError (edit (·.replaceChild parent reference f)) fun e => do
    onStore (·.discard f)
    throw e
  edit (·.pushChild f reference)
  pure f

/-- Moves a folder's tabs, or a pane, into the folder `f`; an emptied folder goes. -/
def moveInto (source f : NodeId) : LayoutM Unit := do
  let s ← node source
  if s.kind.isFolder then
    transferTabs source f
    if ((← store).parent? source).isSome then
      let _ ← takeNode source
      onStore (·.discard source)
    else
      tidy source
  else
    let _ ← takeNode source
    edit (·.pushChild f source)
    let _ ← select source

/-- Puts `source` into the folder of `reference`. -/
def stackNode (source reference : NodeId) : LayoutM Unit := do
  let _ ← zoomOut
  ensureMovable source
  let l ← get
  if source == reference || l.store.isAncestor source reference then throw (.selfReference source)
  let target ← node reference
  if !(target.kind.isPane || target.kind.isFolder) then throw (.invalidTarget reference)
  let s ← node source
  let referenceFolder := if target.kind.isFolder then some reference else l.folderOf reference
  match referenceFolder with
  | some f =>
    if !s.kind.isFolder && l.folderOf source == some f then
      if l.store.countPanes f ≤ 1 then throw (.selfReference source)
      let _ ← editWith (·.removeChild f source)
      edit (·.pushChild f source)
      let _ ← select source
      return
    let f ← targetFolder reference
    moveInto source f
  | none =>
    let f ← targetFolder reference
    moveInto source f

/-- Puts a part's pane into the folder of another part's pane. -/
def stack (part reference : PartId) : LayoutM Unit := do
  let l ← get
  let some source := l.findPane part | throw (.unknownPart part)
  let some ref := l.findPane reference | throw (.unknownPart reference)
  stackNode source ref

/-- Floats `source` in a detached window with the given bounds; gives the window, or
`none` when the host has no floating windows or refuses a surface. -/
def detachNode (source : NodeId) (bounds : FloatRect) : LayoutM (Option WindowId) := do
  if !(← get).host.floating then return none
  let _ ← zoomOut
  ensureMovable source
  let l ← get
  if let some (.detached w) := l.windowOf source then
    let lone := match l.windowRoot? (.detached w) with
      | some f => l.store.countPanes f == l.store.countPanes source
      | none => false
    if lone then
      moveWindow w bounds
      return some w
  let f ← allocContainer .emptyFolder
  match ← openWindow f bounds with
  | none =>
    onStore (·.discard f)
    pure none
  | some w =>
    moveInto source f
    pure (some w)

/-- Floats a part's pane in a detached window. -/
def detach (part : PartId) (bounds : FloatRect) : LayoutM (Option WindowId) := do
  let some source := (← get).findPane part | throw (.unknownPart part)
  detachNode source bounds

end LayoutM

end Docking
