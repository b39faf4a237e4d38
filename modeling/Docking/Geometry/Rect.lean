/-!
# Rectangles, orientations and sides

Screen areas live in the 16-bit plane: `Rect` has 16-bit origin and size, and
`Rect.clamped` keeps its far edges inside the plane. Floating windows may sit partly off
the main window, so a `FloatRect` has a signed 32-bit origin and a 16-bit size.

Sums of sizes never wrap: `addSat` and `subSat` stop at the ends of the 16-bit range.
-/

namespace Docking

/-- Sum of two 16-bit sizes, stopping at the largest size. -/
def addSat (a b : UInt16) : UInt16 :=
  if a.toNat + b.toNat < 65536 then a + b else 65535

/-- Difference of two 16-bit sizes, stopping at zero. -/
def subSat (a b : UInt16) : UInt16 :=
  if b ≤ a then a - b else 0

theorem addSat_toNat (a b : UInt16) : (addSat a b).toNat = min (a.toNat + b.toNat) 65535 := by
  unfold addSat
  split <;> simp_all [UInt16.toNat_add] <;> omega

theorem subSat_toNat (a b : UInt16) : (subSat a b).toNat = a.toNat - b.toNat := by
  unfold subSat
  split
  · rename_i h
    rw [UInt16.toNat_sub_of_le _ _ h]
  · rename_i h
    simp only [UInt16.le_iff_toNat_le, Nat.not_le] at h
    simp only [UInt16.toNat_zero]
    omega

/-- An area of the 16-bit plane. -/
structure Rect where
  x : UInt16
  y : UInt16
  width : UInt16
  height : UInt16
  deriving DecidableEq, Repr, Inhabited

/-- The area at `(x, y)` of the asked size, cut so that it ends inside the plane:
its width is at most `65535 - x` and its height at most `65535 - y`. -/
def Rect.clamped (x y width height : UInt16) : Rect :=
  ⟨x, y, min width (65535 - x), min height (65535 - y)⟩

/-- The empty area at the origin. -/
def Rect.zero : Rect := ⟨0, 0, 0, 0⟩

/-- A floating area: signed origin, unsigned size. -/
structure FloatRect where
  x : Int32
  y : Int32
  width : UInt16
  height : UInt16
  deriving DecidableEq, Repr, Inhabited

/-- The smallest width and height a floating window is given. -/
def minFloatSize : UInt16 := 50

namespace FloatRect

/-- Same origin, each side raised to the floor of floating windows. -/
def withMinSize (r : FloatRect) : FloatRect :=
  { r with width := max r.width minFloatSize, height := max r.height minFloatSize }

/-- The area in the window's own coordinates, with its origin at zero. -/
def ownArea (r : FloatRect) : Rect := ⟨0, 0, r.width, r.height⟩

end FloatRect

/-- The direction along which a split lays out its children. -/
inductive Orientation where
  | horizontal
  | vertical
  deriving DecidableEq, Repr, Inhabited

/-- The one-letter name of an orientation. -/
def Orientation.letter : Orientation → String
  | .horizontal => "h"
  | .vertical => "v"

/-- Reads an orientation from its letter. -/
def Orientation.ofLetter? : String → Option Orientation
  | "h" => some .horizontal
  | "v" => some .vertical
  | _ => none

/-- The size of an area along an orientation. -/
def Rect.extent (r : Rect) : Orientation → UInt16
  | .horizontal => r.width
  | .vertical => r.height

/-- The edge of a reference node against which a node is docked. -/
inductive Side where
  | left
  | right
  | top
  | bottom
  deriving DecidableEq, Repr, Inhabited

namespace Side

/-- The orientation of a split that puts two nodes beside each other along this side. -/
def orientation : Side → Orientation
  | .left | .right => .horizontal
  | .top | .bottom => .vertical

/-- Whether the docked node comes before the reference node. -/
def leading : Side → Bool
  | .left | .top => true
  | .right | .bottom => false

/-- The lower-case name of a side. -/
def name : Side → String
  | .left => "left"
  | .right => "right"
  | .top => "top"
  | .bottom => "bottom"

end Side

end Docking
