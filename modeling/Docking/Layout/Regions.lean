import Docking.Layout.Basic
import Docking.Overflow
/-!
# Regions and sashes

A layout pass gives every node of a window its bounds and lists the shown panes with their
areas, in tree order. A split divides its area among its children that take space, by
their weights (`divide`); a folder gives its whole area to each tab, and only the selected
tab is shown. When a unit of the window is zoomed, the pass starts from it.

Dragging a sash moves the border after the `index`-th child that takes space, by the
bounds of the last pass: neither neighbour shrinks below `minSashSize`, and the weights are
set so that the next pass gives every child the size it has now.
-/

namespace Docking

/-- The smallest extent either neighbour keeps when a sash is dragged. -/
def minSashSize : Int := 4

/-- The largest index of a child position. -/
def indexMax : Nat := 18446744073709551615

namespace LayoutM

/-- Gives `id` and the nodes below it their bounds in `area`, at most `fuel` levels deep,
and lists the shown panes. -/
def assignFrom : Nat → NodeId → Rect → Bool → LayoutM (List (PartId × Rect))
  | 0, _, _, _ => pure []
  | fuel + 1, id, area, shown => do
    let s ← store
    match s.get? id with
    | none => pure []
    | some n =>
      if n.kind.isPlaceholder then return []
      onStore (·.setBounds id area)
      match n.kind with
      | .pane p => pure (if shown then [(p.part, area)] else [])
      | .folder cs sel => do
        let mut out := []
        for (child, i) in cs.zipIdx do
          out := out ++ (← assignFrom fuel child area (shown && sel == some i))
        pure out
      | .split o cs ws => do
        let visible := (cs.zip ws).filter fun (c, _) =>
          match s.get? c with
          | some cn => !cn.kind.isPlaceholder
          | none => false
        let rects := divide o area (visible.map (·.2))
        let mut out := []
        for ((child, _), r) in visible.zip rects do
          out := out ++ (← assignFrom fuel child r shown)
        pure out
      | _ => pure []

/-- Lays out a window in `area` (a detached window's own area when none is given) and gives
the shown panes with their areas. -/
def regions (window : WindowRef) (area : Option Rect) : LayoutM (List (PartId × Rect)) := do
  let l ← get
  match l.windowRoot? window with
  | none => pure []
  | some root =>
    let area := area.getD (match window with
      | .detached w => ((l.window? w).map (·.area)).getD Rect.zero
      | .main => Rect.zero)
    for id in l.store.walk root true do
      onStore (·.setBounds id Rect.zero)
    let l ← get
    let start := match l.zoomed with
      | some unit => if l.windowOf unit == some window then unit else root
      | none => root
    assignFrom (← store).depthBound start area true

/-- Lays out the main window. -/
def layoutMain (area : Rect) : LayoutM (List (PartId × Rect)) := regions .main area

/-- The new weights of a split after its sash after the `index`-th shown child moved by
`delta`, or `none` when there is no such sash or the two neighbours are too small. The
extents are summed in a signed 32-bit word, which may overflow. -/
def sashWeights (s : Store) (o : Orientation) (cs : List NodeId) (ws : List Float32)
    (index : Nat) (delta : Int) : Except Overflow (Option (List Float32)) :=
  let visible := (List.range cs.length).filter fun slot =>
    match cs[slot]? >>= s.get? with
    | some n => !n.kind.isPlaceholder
    | none => false
  if visible.length ≤ index + 1 then .ok none
  else
    let sizes : List Int := visible.map fun slot =>
      match cs[slot]? >>= s.get? with
      | some n => ((n.bounds.extent o).toNat : Int)
      | none => 0
    let pair := sizes.getD index 0 + sizes.getD (index + 1) 0
    if pair < minSashSize * 2 then .ok none
    else
      let left := max minSashSize (min (sizes.getD index 0 + delta) (pair - minSashSize))
      let sizes := (sizes.set index left).set (index + 1) (pair - left)
      let visibleWeight := weightSum (visible.filterMap fun slot => ws[slot]?)
      (sum32 sizes).map fun total => some ((visible.zip sizes).foldl (fun acc (slot, size) =>
        if slot < acc.length then
          acc.set slot (visibleWeight * Float32.ofInt (max size 1) / Float32.ofInt total)
        else acc) ws)

/-- Drags the sash after the `index`-th shown child of a split by `delta`; says whether the
weights changed. The position after `index` must itself be a position: the largest index has
none, and asking for it is an overflow, as is a sum of extents past a 32-bit word. -/
def resizeSash (split : NodeId) (index : Nat) (delta : Int) :
    LayoutM (Except Overflow Bool) := do
  let n ← node split
  match n.kind with
  | .split o cs ws =>
    if index ≥ indexMax then return .error .add
    match sashWeights (← store) o cs ws index delta with
    | .error e => pure (.error e)
    | .ok none => pure (.ok false)
    | .ok (some updated) =>
      onStore (·.setKind split (.split o cs updated))
      pure (.ok true)
  | _ => throw (.invalidTarget split)

end LayoutM

end Docking
