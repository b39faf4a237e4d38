import Docking.Script.Reply
import Docking.Drop.Gesture
import Docking.Layout.Regions
import Docking.Layout.Describe
import Docking.Layout.Restore
/-!
# Layout scripts

A layout script drives one layout, on a host, command by command. A command holds the nodes
and documents its step named, found when the step was read; a pointer may be given as
percentages of the target node's bounds from the last layout pass. Saved layouts are kept
under names, so that a later step can restore one.
-/

namespace Docking

/-- Where a pointer is: window coordinates, or percentages of the target's bounds. -/
inductive PointerSpec where
  | absolute (x y : Int32)
  | percent (px py : Int)
  deriving DecidableEq, Repr, Inhabited

/-- A command of a layout script. -/
inductive LayoutCommand where
  | addPane (pane : Pane)
  | removePane (part : PartId)
  | disposePane (part : PartId)
  | movePane (part : PartId) (side : Side) (reference : PartId)
  | moveNode (source : NodeId) (side : Side) (reference : NodeId)
  | stack (part reference : PartId)
  | stackNode (source reference : NodeId)
  | detach (part : PartId) (bounds : FloatRect)
  | detachNode (source : NodeId) (bounds : FloatRect)
  | moveWindow (window : WindowId) (bounds : FloatRect)
  | zoomIn (part : PartId)
  | zoomNode (node : NodeId)
  | zoomOut
  | bringToTop (part : PartId)
  | setFast (part : PartId)
  | restoreFast (part : PartId)
  | clearFast (part : PartId)
  | retainPanes (keep : List PartId)
  | resizeSash (split : NodeId) (index : Nat) (delta : Int)
  | layoutMain (area : Rect)
  | regions (window : WindowRef) (area : Option Rect)
  | evaluateDrop (source : NodeId) (target : DropTarget) (pointer : PointerSpec)
  | drop (source : NodeId) (target : DropTarget) (pointer : PointerSpec)
  | applyDrop (decision : DropDecision)
  | closeWindows
  | saveState (name : String)
  | restoreState (doc : Memento)
  | setFloating (floating : Bool)
  | node (node : NodeId)
  | findPane (part : PartId)
  | findPlaceholder (part : PartId)
  | windowOf (node : NodeId)
  | windowOfPart (part : PartId)
  | isWithinZoom (node : NodeId)
  | panes
  | isFast (part : PartId)
  | windows
  deriving Inhabited

/-- A layout with the documents saved by its script. -/
structure LayoutSession where
  layout : Layout
  documents : List (String × Memento) := []
  deriving Inhabited

namespace Script

/-- One coordinate of a pointer given as a percentage: `start + ⌊extent · pct / 100⌋`. The
product is computed in a checked signed 64-bit word, so a product outside it is an overflow. -/
def percentAlong (start extent pct : Int) : Except Overflow Int :=
  let product := extent * pct
  if product < -9223372036854775808 ∨ 9223372036854775807 < product then .error .multiply
  else .ok (start + Int.fdiv product 100)

/-- A coordinate as a 32-bit word, when it fits one. -/
def int32Of? (v : Int) : Option Int32 :=
  if -2147483648 ≤ v ∧ v ≤ 2147483647 then some (Int32.ofInt v) else none

/-- The pointer of a gesture in window coordinates: percentages count from the bounds that
the target node got in the last layout pass (none for other targets), rounded down. Both
coordinates are computed before either is checked to fit a 32-bit word. -/
def pointerAt (l : Layout) (target : DropTarget) : PointerSpec → Except Fault (Int32 × Int32)
  | .absolute x y => .ok (x, y)
  | .percent px py =>
    let b := match target with
      | .node n => ((l.store.get? n).map (fun (x : Node) => x.bounds)).getD Rect.zero
      | _ => Rect.zero
    match percentAlong b.x.toNat b.width.toNat px, percentAlong b.y.toNat b.height.toNat py with
    | .error o, _ => .error (.overflow o)
    | _, .error o => .error (.overflow o)
    | .ok x, .ok y =>
      match int32Of? x, int32Of? y with
      | some x, some y => .ok (x, y)
      | _, _ => .error .pointerOutOfRange

/-- Runs a layout request; a refusal is a fault, and the changes before it stay. -/
def request {α : Type} (x : LayoutM α) (f : α → Reply) (l : Layout) : Except Fault Reply × Layout :=
  match x.run l with
  | .ok a l' => (.ok (f a), l')
  | .error e l' => (.error (.layout e), l')

/-- Replaces a layout by a restored one on the same host: the restored layout opens its
windows first, then the old layout's windows close. -/
def replaceLayout (old : Layout) (m : Memento) : Except RestoreError Layout := do
  pure (old.handOver (← Layout.restore old.host m))

/-- Runs one command of a layout script. -/
def layoutStep (s : LayoutSession) (c : LayoutCommand) : Except Fault Reply × LayoutSession :=
  let l := s.layout
  let withLayout := fun (r : Except Fault Reply × Layout) => (r.1, { s with layout := r.2 })
  let answer := fun (r : Reply) => ((.ok r : Except Fault Reply), s)
  match c with
  | .addPane p => withLayout (request (LayoutM.addPane p) .node l)
  | .removePane part => withLayout (request (LayoutM.removePane part) .node l)
  | .disposePane part => withLayout (request (LayoutM.disposePane part) (fun _ => .none) l)
  | .movePane part side ref => withLayout (request (LayoutM.movePane part side ref) (fun _ => .none) l)
  | .moveNode src side ref => withLayout (request (LayoutM.moveNode src side ref) (fun _ => .none) l)
  | .stack part ref => withLayout (request (LayoutM.stack part ref) (fun _ => .none) l)
  | .stackNode src ref => withLayout (request (LayoutM.stackNode src ref) (fun _ => .none) l)
  | .detach part b => withLayout (request (LayoutM.detach part b) .maybeWindow l)
  | .detachNode src b => withLayout (request (LayoutM.detachNode src b) .maybeWindow l)
  | .moveWindow w b => withLayout (request (LayoutM.moveWindow w b) (fun _ => .none) l)
  | .zoomIn part => withLayout (request (LayoutM.zoomIn part) .flag l)
  | .zoomNode n => withLayout (request (LayoutM.zoomNode n) .flag l)
  | .zoomOut => withLayout (request LayoutM.zoomOut .flag l)
  | .bringToTop part => withLayout (request (LayoutM.bringToTop part) .flag l)
  | .setFast part => withLayout (request (LayoutM.setFast part) (fun _ => .none) l)
  | .restoreFast part => withLayout (request (LayoutM.restoreFast part) .node l)
  | .clearFast part => withLayout (request (LayoutM.clearFast part) .flag l)
  | .retainPanes keep => withLayout (request (LayoutM.retainPanes keep.contains) (fun _ => .none) l)
  | .resizeSash n index delta =>
    match (LayoutM.resizeSash n index delta).run l with
    | .ok (.ok b) l' => (.ok (.flag b), { s with layout := l' })
    | .ok (.error o) l' => (.error (.overflow o), { s with layout := l' })
    | .error e l' => (.error (.layout e), { s with layout := l' })
  | .layoutMain area => withLayout (request (LayoutM.layoutMain area) .regions l)
  | .regions w area => withLayout (request (LayoutM.regions w area) .regions l)
  | .evaluateDrop src t pointer =>
    match pointerAt l t pointer with
    | .error e => (.error e, s)
    | .ok p =>
      match l.evaluateDrop src t p with
      | .ok d => answer (.decision d)
      | .error o => (.error (.overflow o), s)
  | .drop src t pointer =>
    match pointerAt l t pointer >>= fun p => (l.evaluateDrop src t p).mapError .overflow with
    | .error e => (.error e, s)
    | .ok d =>
      match (LayoutM.applyDrop d).run l with
      | .ok b l' => (.ok (.dropped d (.ok b)), { s with layout := l' })
      | .error e l' => (.ok (.dropped d (.error e)), { s with layout := l' })
  | .applyDrop d => withLayout (request (LayoutM.applyDrop d) .flag l)
  | .closeWindows => withLayout (request LayoutM.closeWindows (fun _ => .none) l)
  | .saveState name =>
    let m := l.save
    (.ok (.memento m), { s with documents := Keyed.insert name m s.documents })
  | .restoreState m =>
    match replaceLayout l m with
    | .ok l' => (.ok .none, { s with layout := l' })
    | .error e => (.error (.restore e), s)
  | .setFloating b => (.ok .none, { s with layout := { l with host := Host.fresh b } })
  | .node n => answer (.info n (l.store.get? n))
  | .findPane part => answer (.maybeNode (l.findPane part))
  | .findPlaceholder part => answer (.maybeNode (l.findPlaceholder part))
  | .windowOf n => answer (.place (l.windowOf n))
  | .windowOfPart part => answer (.place (l.windowOfPart part))
  | .isWithinZoom n => answer (.flag (l.isWithinZoom n))
  | .panes => answer (.parts l.panes)
  | .isFast part => answer (.flag (l.isFast part))
  | .windows => answer (.windows l.windows l.parked)

end Script

/-- A fresh layout session: an empty main window, with or without the editor area, on a
fresh host. -/
def LayoutSession.start (editorArea floating : Bool) : LayoutSession :=
  let host := Host.fresh floating
  { layout := if editorArea then Layout.withEditorArea host else Layout.empty host }

end Docking
