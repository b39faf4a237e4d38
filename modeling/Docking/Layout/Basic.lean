import Docking.Tree.Walk
import Docking.Host
/-!
# The layout of a page

A `Layout` is the arrangement of one page: the node table with the main window's root
split (and, when the page has one, the editor area inside it), the detached windows in the
order of their numbers, the parked windows, the zoomed unit and the fast views, on a host
that provides the floating surfaces.

Requests run in `LayoutM`: a refused request reports its `LayoutError` and keeps what it
changed before it was refused, just as a sequence of edits in place does. Zooming out, for
instance, happens first in most requests and stays when the rest is refused.

This module holds the queries on a layout and the window bookkeeping the requests share.
-/

namespace Docking

/-- The identity of the main window's root split. -/
def rootIdent : String := "root"

/-- The identity of the editor area. -/
def editorAreaIdent : String := "editor-area"

/-- The arrangement of one page. -/
structure Layout where
  store : Store
  root : NodeId
  editorArea : Option NodeId
  /-- The detached windows, in the order of their numbers. -/
  windows : List Window
  /-- Windows whose panes are all hidden. -/
  parked : List ParkedWindow
  nextWindow : Nat
  zoomed : Option NodeId
  fastViews : List PartId
  host : Host
  deriving Inhabited

/-- A request on a layout: it may be refused, keeping the changes made before. -/
abbrev LayoutM := EStateM LayoutError Layout

namespace Layout

/-- An empty main window: a horizontal root split and nothing else. -/
def empty (host : Host) : Layout :=
  let (root, store) := (default : Store).alloc rootIdent (.emptySplit .horizontal)
  { store, root, editorArea := none, windows := [], parked := [], nextWindow := 0,
    zoomed := none, fastViews := [], host }

/-- An empty main window whose root split holds the editor area. -/
def withEditorArea (host : Host) : Layout :=
  let l := empty host
  let (area, store) := l.store.alloc editorAreaIdent (.emptySplit .horizontal)
  match store.pushChild l.root area with
  | .ok store => { l with store, editorArea := some area }
  | .error _ => { l with store }

/-- The root and the editor area stay where they are. -/
def isFixed (l : Layout) (n : NodeId) : Bool :=
  n == l.root || some n == l.editorArea

/-- Whether a node holds the editor area somewhere below it. -/
def holdsEditorArea (l : Layout) (n : NodeId) : Bool :=
  match l.editorArea with
  | some area => l.store.isAncestor n area
  | none => false

/-- The detached window with a number. -/
def window? (l : Layout) (w : WindowId) : Option Window :=
  l.windows.find? (·.id == w)

/-- The root node of a window: the root split, or a detached window's folder. -/
def windowRoot? (l : Layout) : WindowRef → Option NodeId
  | .main => some l.root
  | .detached w => (l.window? w).map (·.folder)

/-- The roots of the shown windows: the main window first, then the detached windows. -/
def windowRoots (l : Layout) : List NodeId :=
  l.root :: l.windows.map (·.folder)

/-- The window a node is shown in; nodes of parked windows are in none. -/
def windowOf (l : Layout) (n : NodeId) : Option WindowRef :=
  if !l.store.contains n then none
  else
    let top := l.store.rootOf n
    if top == l.root then some .main
    else (l.windows.find? (·.folder == top)).map fun w => .detached w.id

/-- The pane of a part in the shown windows. -/
def findPane (l : Layout) (part : PartId) : Option NodeId :=
  l.windowRoots.findSome? fun r => l.store.findPane r part

/-- The window a part's pane is shown in. -/
def windowOfPart (l : Layout) (part : PartId) : Option WindowRef :=
  (l.findPane part).bind l.windowOf

/-- The placeholder a hidden part left, in the shown or the parked windows. -/
def findPlaceholder (l : Layout) (part : PartId) : Option NodeId :=
  (l.windowRoots ++ l.parked.map (·.folder)).findSome? fun r => l.store.findPlaceholder r part

/-- The parts of the shown panes, main window first. -/
def panes (l : Layout) : List PartId :=
  l.windowRoots.flatMap fun r =>
    (l.store.walk r false).filterMap fun id => (l.store.get? id).bind (·.kind.pane?) |>.map (·.part)

/-- The folder a node is a tab of. -/
def folderOf (l : Layout) (n : NodeId) : Option NodeId :=
  (l.store.parent? n).filter l.store.isFolder

/-- Whether a part is a fast view. -/
def isFast (l : Layout) (part : PartId) : Bool := l.fastViews.contains part

/-- Whether a node lies in the zoomed unit, or nothing is zoomed in its window. -/
def isWithinZoom (l : Layout) (n : NodeId) : Bool :=
  match l.zoomed with
  | none => true
  | some unit =>
    if l.windowOf unit != l.windowOf n then true
    else unit == n || l.store.isAncestor unit n

end Layout

namespace LayoutM

/-- Runs `x`; when it is refused, runs `h` on the error from the state `x` left. -/
def onError {α : Type} (x : LayoutM α) (h : LayoutError → LayoutM α) : LayoutM α := fun l =>
  match x l with
  | .ok a l' => .ok a l'
  | .error e l' => h e l'

/-- The node table of the layout. -/
def store : LayoutM Store := do return (← get).store

/-- Changes the node table. -/
def onStore (f : Store → Store) : LayoutM Unit :=
  modify fun l => { l with store := f l.store }

/-- Changes the node table by an edit that may be refused. -/
def edit (f : Store → Except LayoutError Store) : LayoutM Unit := do
  let l ← get
  match f l.store with
  | .ok s => set { l with store := s }
  | .error e => throw e

/-- Changes the node table by an edit that may be refused and gives a value. -/
def editWith {α : Type} (f : Store → Except LayoutError (α × Store)) : LayoutM α := do
  let l ← get
  match f l.store with
  | .ok (a, s) => set { l with store := s }; pure a
  | .error e => throw e

/-- Adds a node to the table. -/
def alloc (ident : String) (kind : NodeKind) : LayoutM NodeId := do
  let l ← get
  let (id, s) := l.store.alloc ident kind
  set { l with store := s }
  pure id

/-- Adds a container with a made-up identity to the table. -/
def allocContainer (kind : NodeKind) : LayoutM NodeId := do
  let l ← get
  let (id, s) := l.store.allocContainer kind
  set { l with store := s }
  pure id

/-- A node that must be in the table. -/
def node (id : NodeId) : LayoutM Node := do
  match (← store).node id with
  | .ok n => pure n
  | .error e => throw e

/-- Selects a node in its folder; says whether the selection changed. -/
def select (id : NodeId) : LayoutM Bool := do
  let l ← get
  let (changed, s) := l.store.select id
  set { l with store := s }
  pure changed

/-- Ends the zoom; says whether one was on. -/
def zoomOut : LayoutM Bool := do
  let l ← get
  set { l with zoomed := none }
  pure l.zoomed.isSome

/-- Drops a part from the fast views. -/
def dropFast (part : PartId) : LayoutM Unit :=
  modify fun l => { l with fastViews := l.fastViews.filter (· != part) }

/-- Opens a detached window showing `folder`; its bounds are raised to the floor first.
Gives the window's number, or `none` when the host refuses a surface. -/
def openWindow (folder : NodeId) (bounds : FloatRect) : LayoutM (Option WindowId) := do
  let l ← get
  let bounds := bounds.withMinSize
  match l.host.createSurface bounds with
  | (none, host) => set { l with host }; pure none
  | (some surface, host) =>
    let id : WindowId := ⟨l.nextWindow⟩
    set { l with host, nextWindow := l.nextWindow + 1,
                 windows := l.windows ++ [({ id, bounds, folder, surface := some surface } : Window)] }
    pure (some id)

/-- Closes a detached window that no longer shows a pane. A window whose folder still holds
placeholders is parked, to reopen when one of them returns; an empty folder is freed. -/
def retireIfEmpty (w : WindowId) : LayoutM Unit := do
  let l ← get
  match l.window? w with
  | none => pure ()
  | some win =>
    if l.store.hasPane win.folder then pure ()
    else
      let host := match win.surface with
        | some s => l.host.closeSurface s
        | none => l.host
      let l := { l with windows := l.windows.filter (·.id != w), host }
      if (l.store.children win.folder).isEmpty then
        set { l with store := l.store.free win.folder }
      else
        set { l with parked := l.parked ++ [({ bounds := win.bounds, folder := win.folder } : ParkedWindow)] }

/-- Moves a detached window; its bounds are raised to the floor first. -/
def moveWindow (w : WindowId) (bounds : FloatRect) : LayoutM Unit := do
  let l ← get
  match l.window? w with
  | none => throw (.unknownWindow w)
  | some win =>
    let bounds := bounds.withMinSize
    let host := match win.surface with
      | some s => l.host.resizeSurface s bounds
      | none => l.host
    set { l with host, windows := l.windows.map fun (x : Window) => if x.id == w then { x with bounds } else x }

/-- A loop that climbs the table: it stands at a node, runs `pass` there and goes on from the
node the pass names, if it names one. At most `fuel` passes. -/
def climbFrom (pass : NodeId → LayoutM (Option NodeId)) : Nat → NodeId → LayoutM Unit
  | 0, _ => pure ()
  | fuel + 1, current => do
    match ← pass current with
    | none => pure ()
    | some next => climbFrom pass fuel next

/-- Closes the surface of every detached window; the windows stay. -/
def closeWindows : LayoutM Unit :=
  modify fun l =>
    let host := l.windows.foldl (fun h w => match w.surface with
      | some s => h.closeSurface s
      | none => h) l.host
    { l with host, windows := l.windows.map fun (w : Window) => { w with surface := none } }

end LayoutM

end Docking
