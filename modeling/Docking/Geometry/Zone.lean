import Docking.Geometry.Rect
import Docking.Overflow
/-!
# Drop zones

A pointer over a rectangle names the side a dragged node would dock against: the outer
quarter of the height picks the top or the bottom, else the outer quarter of the width
picks the left or the right, and the rest is the center (`none`). A pointer outside the
rectangle lands on the nearest edge. The pointer's offset from the origin is a checked
32-bit difference: a difference below the word is an `Overflow.subtract`.
-/

namespace Docking

/-- The fraction of a target's extent that counts as its edge. -/
def edgeFraction : Float32 := 0.25

/-- `p - origin` as a checked 32-bit signed difference. -/
def offset32 (p : Int32) (origin : UInt16) : Except Overflow Int :=
  let d := p.toInt - origin.toNat
  if d < int32Min then .error .subtract else .ok d

/-- The side a relative position `(rx, ry)` in the unit square docks against. -/
def zoneOf (rx ry : Float32) : Option Side :=
  if ry < edgeFraction then some .top
  else if ry > 1 - edgeFraction then some .bottom
  else if rx < edgeFraction then some .left
  else if rx > 1 - edgeFraction then some .right
  else none

/-- The side that a pointer at `(x, y)` over `r` docks against, `none` for the center;
an empty rectangle has only a center. -/
def dropZone (r : Rect) (x y : Int32) : Except Overflow (Option Side) :=
  if r.width = 0 ∨ r.height = 0 then .ok none
  else do
    let dx ← offset32 x r.x
    let dy ← offset32 y r.y
    pure (zoneOf (Float32.ofInt dx / Float32.ofNat r.width.toNat)
      (Float32.ofInt dy / Float32.ofNat r.height.toNat))

end Docking
