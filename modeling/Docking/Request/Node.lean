import Docking.Request.Field
import Docking.Script.Layout
/-!
# Naming nodes in requests

A request names a node by its handle (a number, which stands for itself even when no node has
it), by a fixed role (`"root"`, `"editor_area"`), or by an object: the pane or placeholder of a
part (`pane`, `placeholder`, when a string), the container of a named node (`parent`), a child
of one (`child` with `index`), the node a collapsed container folds (`collapsed`), the folder of
a detached window (`window`) or of a parked one (`hidden`), tried in that order.

A name is resolved as it is read, against the layout the request runs on: an inner name is
resolved before the rest of its object is read, and a name that stands for no node is refused
with the name as written. Drop targets, pointers and whole drop decisions are read the same way,
field by field.
-/

namespace Docking

namespace Request

/-- The node a written name stands for, reading names nested at most `fuel` deep. -/
def nodeWith : Nat → Layout → JsonValue → Read NodeId
  | 0, _, _ => .error .unknownReference
  | fuel + 1, l, v =>
    let found : Option NodeId → Read NodeId := fun
      | some n => .ok n
      | none => .error (.unresolved v)
    match v with
    | .int _ | .float .. => do return ⟨← nat "node" v⟩
    | .str "root" => .ok l.root
    | .str "editor_area" => found l.editorArea
    | .obj _ =>
      match stringOpt v "pane", stringOpt v "placeholder" with
      | some p, _ => found (l.findPane p)
      | none, some p => found (l.findPlaceholder p)
      | none, none =>
        match v.get? "parent", v.get? "child", v.get? "collapsed", v.get? "window", v.get? "hidden" with
        | some inner, _, _, _, _ => do
          let n ← nodeWith fuel l inner
          found ((l.store.get? n).bind (·.parent))
        | none, some inner, _, _, _ => do
          let n ← nodeWith fuel l inner
          let i ← natAt v "index"
          found ((l.store.get? n).bind (·.kind.children[i]?))
        | none, none, some inner, _, _ => do
          let n ← nodeWith fuel l inner
          found ((l.store.get? n).bind (·.kind.inner?))
        | none, none, none, some w, _ => do
          let n ← nat "window" w
          found ((l.window? ⟨n⟩).map (·.folder))
        | none, none, none, none, some h => do
          let i ← nat "hidden" h
          found ((l.parked[i]?).map (·.folder))
        | none, none, none, none, none => .error .unknownReference
    | _ => .error .unknownReference

/-- The node a written name stands for. A line nests at most 127 deep, so 128 levels are
enough. -/
def node (l : Layout) (v : JsonValue) : Read NodeId := nodeWith 128 l v

def nodeAt (l : Layout) (j : JsonValue) (key : String) : Read NodeId := do node l (← field j key)

/-- A drop target: the shortcut bar, outside every window, or a named node. -/
def target (l : Layout) : JsonValue → Read DropTarget
  | .str "shortcut_bar" => .ok .shortcutBar
  | .str "outside" => .ok .outside
  | v => do return .node (← node l v)

def targetAt (l : Layout) (j : JsonValue) (key : String) : Read DropTarget := do
  target l (← field j key)

/-- The pointer of a gesture: `pointer_pct`, when the request has that field at all, as
percentages `[px,py]` of 64-bit integers; `pointer` otherwise. -/
def pointerOf (j : JsonValue) : Read PointerSpec :=
  match j.get? "pointer_pct" with
  | some v => do
    match ← shaped "pointer_pct" "[px,py]" 2 v with
    | [px, py] =>
      let x ← integer "pointer_pct" minLong maxLong px
      return .percent x (← integer "pointer_pct" minLong maxLong py)
    | _ => .error (.notShaped "pointer_pct" "[px,py]")
  | none => do
    let (x, y) ← point "pointer" (← field j "pointer")
    return .absolute x y

/-- A written drop action: its kind, then its fields in order. -/
def action (l : Layout) (a : JsonValue) : Read DropAction := do
  match ← stringAt a "kind" with
  | "split" =>
    let t ← nodeAt l a "target"
    return .split t (← sideAt a "side")
  | "stack" => return .stack (← nodeAt l a "target")
  | "detach" => return .detach (← floatRectAt a "at")
  | "move_window" =>
    let w ← natAt a "window"
    return .moveWindow ⟨w⟩ (← floatRectAt a "at")
  | "minimize" => return .minimize
  | "reject" => return .reject
  | k => .error (.badName "action" k)

/-- A written drop decision: its source, then its action, then its position, by default the
center. -/
def decision (l : Layout) (d : JsonValue) : Read DropDecision := do
  let source ← nodeAt l d "source"
  let action ← action l (← field d "action")
  let position ← match stringOpt d "position" with
    | some p => positionNamed p
    | none => pure .center
  return ⟨source, position, action⟩

end Request

end Docking
