import Docking.Layout.Basic
import Docking.Decimal.Fixed
/-!
# The text of a layout

One line per window, then the zoom and the fast views:

```
main: h(V1 0.50, tabs[*V2, ?V3] 0.50)
detached 0 @ 10,20 60x50: tabs[*V4]
hidden @ 0,0 50x50: tabs[?V5]
zoom: folder-4
fast: V6, V7
```

A pane is its part, a placeholder `?` and its part, a collapsed container `~` and what it
folds; `*` marks a folder's selected tab; a split is its orientation's letter (after
`editors:` for the editor area) with each child's share of the weights. A missing node is `!`.
-/

namespace Docking

namespace Layout

/-- The share of a weight in a total, or nothing when the total is not positive. -/
def share (total w : Float32) : Float32 := if total > 0 then w / total else 0

/-- The text of the node `id` and what is below it, at most `fuel` levels deep. -/
def describeFrom (l : Layout) : Nat → NodeId → String
  | 0, _ => "!"
  | fuel + 1, id =>
    match l.store.get? id with
    | none => "!"
    | some n =>
      match n.kind with
      | .pane p => p.part
      | .placeholder part => "?" ++ part
      | .collapsed inner => "~" ++ l.describeFrom fuel inner
      | .folder cs sel =>
        let tabs := cs.zipIdx.map fun (c, i) =>
          (if sel == some i then "*" else "") ++ l.describeFrom fuel c
        "tabs[" ++ ", ".intercalate tabs ++ "]"
      | .split o cs ws =>
        let total := weightSum ws
        let parts := (cs.zip ws).map fun (c, w) =>
          l.describeFrom fuel c ++ " " ++ Decimal.fixed 2 (share total w)
        let prefix_ := if some id == l.editorArea then "editors:" else ""
        prefix_ ++ o.letter ++ "(" ++ ", ".intercalate parts ++ ")"

/-- The text of a node and what is below it. -/
def describeNode (l : Layout) (id : NodeId) : String :=
  l.describeFrom l.store.depthBound id

/-- The text of floating bounds: `x,y wxh`. -/
def FloatRect.text (b : FloatRect) : String :=
  toString b.x.toInt ++ "," ++ toString b.y.toInt ++ " " ++ toString b.width.toNat ++ "x" ++
    toString b.height.toNat

/-- The text of a whole layout. -/
def describe (l : Layout) : String :=
  let main := "main: " ++ l.describeNode l.root ++ "\n"
  let detached := l.windows.map fun w =>
    "detached " ++ toString w.id.val ++ " @ " ++ FloatRect.text w.bounds ++ ": " ++
      l.describeNode w.folder ++ "\n"
  let hidden := l.parked.map fun h =>
    "hidden @ " ++ FloatRect.text h.bounds ++ ": " ++ l.describeNode h.folder ++ "\n"
  let zoom := match l.zoomed.bind l.store.get? with
    | some n => "zoom: " ++ n.ident ++ "\n"
    | none => ""
  let fast := if l.fastViews.isEmpty then "" else "fast: " ++ ", ".intercalate l.fastViews ++ "\n"
  main ++ String.join detached ++ String.join hidden ++ zoom ++ fast

end Layout

end Docking
