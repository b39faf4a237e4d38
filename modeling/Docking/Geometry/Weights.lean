import Docking.Geometry.Rect
/-!
# Split weights and the weighted division of an area

A split gives each child a single-precision weight; a child's share of the split's extent
is its weight over the sum of the weights. `divide` cuts an area into consecutive pieces
by those shares: every piece but the last gets the floor of its share, and the last takes
what remains, so the pieces fill the extent exactly when the floors fit.

The division only asks three things of its numbers (a `Weighing`): their sum, whether a sum
leaves nothing to share, and how many whole cells a share covers. The engine divides with
single-precision weights (`Weighing.single`); the same division over exact numbers is what
its rounding approximates.
-/

namespace Docking

/-- The weight a split gives a child when nothing else says. -/
def defaultWeight : Float32 := 1

/-- The sum of the weights, added from the first to the last. -/
def weightSum (ws : List Float32) : Float32 :=
  ws.foldl (· + ·) 0

/-- The mean weight, or the default weight for no weights at all. -/
def meanWeight (ws : List Float32) : Float32 :=
  if ws.isEmpty then defaultWeight else weightSum ws / Float32.ofNat ws.length

/-- The arithmetic the weighted division does on weights of type `α`. -/
structure Weighing (α : Type) where
  /-- The sum of a list of weights. -/
  sum : List α → α
  /-- Whether a sum of weights is zero or less, so that no weight has a share of it. -/
  nonPositive : α → Bool
  /-- The whole cells of an extent `total` that the share `w / sum` covers, rounded down and
  cut to a 16-bit size. -/
  cells : α → α → UInt16 → UInt16

/-- Single-precision weights: a share saturates at the largest size when cut to 16 bits. -/
def Weighing.single : Weighing Float32 where
  sum := weightSum
  nonPositive s := decide (s ≤ 0)
  cells w s total := ((w / s) * Float32.ofNat total.toNat).floor.toUInt16

namespace Weighing

variable {α : Type} (W : Weighing α)

/-- The size of a piece other than the last among `count` pieces of an extent `total`, for
weights that sum to `sum`: an equal part when the weights share nothing, and otherwise the
cells the weight's share covers. The count is cut to 16 bits before it divides. -/
def share (total : UInt16) (sum : α) (count : Nat) (w : α) : UInt16 :=
  if W.nonPositive sum then total / count.toUInt16 else W.cells w sum total

/-- The size of the piece at position `index` among `count` pieces of an extent `total`,
`used` of which the earlier pieces took: the rest for the last piece, its share otherwise. -/
def pieceSize (total : UInt16) (sum : α) (count index : Nat) (used : UInt16) (w : α) :
    UInt16 :=
  if index + 1 = count then subSat total used
  else W.share total sum count w

/-- The sizes of the pieces for the weights `ws`, from position `index` on, `used` being
what the earlier pieces took. -/
def pieceSizes (total : UInt16) (sum : α) (count : Nat) :
    Nat → UInt16 → List α → List UInt16
  | _, _, [] => []
  | index, used, w :: rest =>
    let size := W.pieceSize total sum count index used w
    size :: pieceSizes total sum count (index + 1) (addSat used size) rest

end Weighing

/-- Lays pieces of the given sizes end to end along an orientation, from `offset` on. -/
def layPieces (o : Orientation) (area : Rect) : UInt16 → List UInt16 → List Rect
  | _, [] => []
  | offset, size :: rest =>
    let piece := match o with
      | .horizontal => { area with x := addSat area.x offset, width := size }
      | .vertical => { area with y := addSat area.y offset, height := size }
    piece :: layPieces o area (addSat offset size) rest

/-- Cuts `area` along `o` into one piece per weight, in order. -/
def Weighing.divide {α : Type} (W : Weighing α) (o : Orientation) (area : Rect)
    (ws : List α) : List Rect :=
  layPieces o area 0 (W.pieceSizes (area.extent o) (W.sum ws) ws.length 0 0 ws)

/-- Cuts `area` along `o` into one piece per single-precision weight, in order. -/
def divide (o : Orientation) (area : Rect) (ws : List Float32) : List Rect :=
  Weighing.single.divide o area ws

theorem Weighing.length_pieceSizes {α : Type} (W : Weighing α) (total : UInt16) (sum : α)
    (count index : Nat) (used : UInt16) (ws : List α) :
    (W.pieceSizes total sum count index used ws).length = ws.length := by
  induction ws generalizing index used with
  | nil => rfl
  | cons w rest ih => simp [pieceSizes, ih]

theorem length_layPieces (o : Orientation) (area : Rect) (offset : UInt16) (sizes : List UInt16) :
    (layPieces o area offset sizes).length = sizes.length := by
  induction sizes generalizing offset with
  | nil => rfl
  | cons s rest ih => simp [layPieces, ih]

theorem Weighing.length_divide {α : Type} (W : Weighing α) (o : Orientation) (area : Rect)
    (ws : List α) : (W.divide o area ws).length = ws.length := by
  simp [divide, length_layPieces, length_pieceSizes]

theorem length_divide (o : Orientation) (area : Rect) (ws : List Float32) :
    (divide o area ws).length = ws.length :=
  Weighing.single.length_divide o area ws

end Docking
