import Docking.Layout.Basic
import Docking.Memento.Basic
/-!
# Saving a layout

`Layout.save` writes a `layout` memento: a `main` element holding the root split, one
`detached` element per detached window and one `detached-placeholder` per parked window
(each with its bounds and its folder), and one `fast` element per fast view.

Every node is saved with its identity and bounds, the editor area and the zoomed unit with a
mark. A split saves each child's share of the weights as an integer out of `weightScale`
(an equal share when the weights sum to nothing positive); a folder saves its selected
index. A handle without a node is saved as a bare `missing` element.
-/

namespace Docking

/-- Split weights are saved as integer shares of this total. -/
def weightScale : Float32 := 10000

/-- A saved 16-bit number. -/
def Value.ofU16 (n : UInt16) : Value := .int n.toNat

/-- A saved 32-bit signed number. -/
def Value.ofI32 (n : Int32) : Value := .int n.toInt

/-- The element of floating bounds. -/
def floatRectMemento (kind : String) (b : FloatRect) : Memento :=
  (((Memento.empty kind).set "x" (.ofI32 b.x)).set "y" (.ofI32 b.y)
    |>.set "width" (.ofU16 b.width)).set "height" (.ofU16 b.height)

namespace Layout

/-- The saved share of a weight: its part of `total`, or an equal part of `count` when the
total is not positive, scaled and rounded half away from zero. -/
def savedShare (total : Float32) (count : Nat) (w : Float32) : Int :=
  let share := if total > 0 then w / total else 1 / Float32.ofNat count
  (share * weightScale).round.toInt64.toInt

/-- The element of the node `id` and what is below it, at most `fuel` levels deep. -/
def saveFrom (l : Layout) : Nat → NodeId → Memento
  | 0, _ => Memento.empty "missing"
  | fuel + 1, id =>
    match l.store.get? id with
    | none => Memento.empty "missing"
    | some n =>
      let body : Memento := match n.kind with
        | .pane p => ((Memento.empty "pane").set "part" (.str p.part)).set "kind" (.str p.kind.name)
        | .placeholder part => (Memento.empty "placeholder").set "part" (.str part)
        | .collapsed inner => (Memento.empty "collapsed").push (l.saveFrom fuel inner)
        | .folder cs sel =>
          let m := match sel with
            | some i => (Memento.empty "folder").set "selected" (.int i)
            | none => Memento.empty "folder"
          cs.foldl (fun m c => m.push (l.saveFrom fuel c)) m
        | .split o cs ws =>
          let total := weightSum ws
          let m := (Memento.empty "split").set "orientation" (.str o.letter)
          (cs.zip ws).foldl (fun m (c, w) =>
            m.push ((l.saveFrom fuel c).set "weight" (.int (savedShare total cs.length w)))) m
      let m := ((((body.set "ident" (.str n.ident)).set "x" (.ofU16 n.bounds.x)).set "y"
        (.ofU16 n.bounds.y)).set "width" (.ofU16 n.bounds.width)).set "height"
        (.ofU16 n.bounds.height)
      let m := if some id == l.editorArea then m.set "editor-area" (.bool true) else m
      if l.zoomed == some id then m.set "zoomed" (.bool true) else m

/-- The element of a node and what is below it. -/
def saveNode (l : Layout) (id : NodeId) : Memento := l.saveFrom l.store.depthBound id

/-- The memento of the whole layout. -/
def save (l : Layout) : Memento :=
  let m := (Memento.empty "layout").push ((Memento.empty "main").push (l.saveNode l.root))
  let m := l.windows.foldl (fun m w =>
    m.push ((floatRectMemento "detached" w.bounds).push (l.saveNode w.folder))) m
  let m := l.parked.foldl (fun m h =>
    m.push ((floatRectMemento "detached-placeholder" h.bounds).push (l.saveNode h.folder))) m
  l.fastViews.foldl (fun m p => m.push ((Memento.empty "fast").set "part" (.str p))) m

end Layout

end Docking
