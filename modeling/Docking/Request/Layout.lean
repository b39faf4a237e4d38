import Docking.Request.Node
import Docking.Request.Memento
/-!
# Reading layout steps

A step of a layout script names what it does under `do` and reads its fields in a fixed order,
resolving each node it names as it goes, so that of two faults the first in that order is the
one reported. Nodes come before the fields that qualify them (`move_node` reads `source`, `ref`,
then `side`; `resize_sash` reads `node`, `index`, then `delta`); a drop reads `source`, `target`,
then the pointer. A restored document is found when the step is read.
-/

namespace Docking

namespace Request

/-- The document a step restores: the memento under `memento` when the step has that field at
all, or else the one saved under the name `from` (by default `last`), or that one's first child
of type `child`. -/
def document (docs : List (String × Memento)) (j : JsonValue) : Read Memento :=
  match j.get? "memento" with
  | some m =>
    match Memento.ofJson? m with
    | some m => .ok m
    | none => .error .invalidMemento
  | none =>
    let name := stringOr j "from" "last"
    match Keyed.find? name docs, stringOpt j "child" with
    | none, _ => .error (.noDocument name)
    | some m, none => .ok m
    | some m, some k =>
      match m.child? k with
      | some c => .ok c
      | none => .error (.noDocument name)

/-- An optional area `[x,y,w,h]`. -/
def areaOpt (j : JsonValue) : Read (Option Rect) :=
  match optional j "area" with
  | some a => some <$> rect "area" a
  | none => .ok none

/-- The split, sash index and signed 16-bit delta of a sash resize. -/
def sashOf (l : Layout) (j : JsonValue) : Read (NodeId × Nat × Int) := do
  let n ← nodeAt l j "node"
  let i ← natAt j "index"
  return (n, i, ← integer "delta" (-32768) 32767 (← field j "delta"))

/-- The source, target and pointer of a drop. -/
def gestureOf (l : Layout) (j : JsonValue) : Read (NodeId × DropTarget × PointerSpec) := do
  let src ← nodeAt l j "source"
  let t ← targetAt l j "target"
  return (src, t, ← pointerOf j)

end Request

open Request

/-- Reads the command of a layout step that does `op`. -/
def LayoutSession.command (s : LayoutSession) (op : String) (j : JsonValue) :
    Read LayoutCommand := do
  let l := s.layout
  match op with
  | "add_pane" =>
    let id ← stringAt j "id"
    return .addPane ⟨id, ← kindOr j "kind" .view⟩
  | "remove_pane" => return .removePane (← stringAt j "id")
  | "dispose_pane" => return .disposePane (← stringAt j "id")
  | "move_pane" =>
    let id ← stringAt j "id"
    let side ← sideAt j "side"
    return .movePane id side (← stringAt j "ref")
  | "move_node" =>
    let src ← nodeAt l j "source"
    let ref ← nodeAt l j "ref"
    return .moveNode src (← sideAt j "side") ref
  | "stack" =>
    let id ← stringAt j "id"
    return .stack id (← stringAt j "ref")
  | "stack_node" =>
    let src ← nodeAt l j "source"
    return .stackNode src (← nodeAt l j "ref")
  | "detach" =>
    let id ← stringAt j "id"
    return .detach id (← floatRectAt j "at")
  | "detach_node" =>
    let src ← nodeAt l j "source"
    return .detachNode src (← floatRectAt j "at")
  | "move_detached_window" =>
    let w ← natAt j "window"
    return .moveWindow ⟨w⟩ (← floatRectAt j "at")
  | "zoom_in" => return .zoomIn (← stringAt j "id")
  | "zoom_node" => return .zoomNode (← nodeAt l j "node")
  | "zoom_out" => return .zoomOut
  | "bring_to_top" => return .bringToTop (← stringAt j "id")
  | "set_fast" => return .setFast (← stringAt j "id")
  | "restore_fast" => return .restoreFast (← stringAt j "id")
  | "clear_fast" => return .clearFast (← stringAt j "id")
  | "retain_panes" => return .retainPanes (← stringsAt j "keep")
  | "resize_sash" =>
    let (n, i, d) ← sashOf l j
    return .resizeSash n i d
  | "layout" => return .layoutMain (← rectAt j "area")
  | "regions" =>
    let w ← windowAt j "window"
    return .regions w (← areaOpt j)
  | "evaluate_drop" =>
    let (src, t, p) ← gestureOf l j
    return .evaluateDrop src t p
  | "drop" =>
    let (src, t, p) ← gestureOf l j
    return .drop src t p
  | "apply_drop" => return .applyDrop (← decision l (← field j "decision"))
  | "close_windows" => return .closeWindows
  | "save_state" => return .saveState (stringOr j "name" "last")
  | "restore_state" => return .restoreState (← document s.documents j)
  | "set_floating" => return .setFloating (← boolAt j "floating")
  | "node" => return .node (← nodeAt l j "node")
  | "find_pane" => return .findPane (← stringAt j "id")
  | "find_placeholder" => return .findPlaceholder (← stringAt j "id")
  | "window_of" => return .windowOf (← nodeAt l j "node")
  | "window_of_part" => return .windowOfPart (← stringAt j "id")
  | "is_within_zoom" => return .isWithinZoom (← nodeAt l j "node")
  | "panes" => return .panes
  | "is_fast" => return .isFast (← stringAt j "id")
  | "windows" => return .windows
  | other => .error (.unknownStep "layout" other)

/-- Reads a step of a layout script against the session it runs on. -/
def LayoutSession.readStep (s : LayoutSession) (j : JsonValue) : Read LayoutCommand := do
  s.command (← stringAt j "do") j

end Docking
