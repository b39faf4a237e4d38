import Docking.Geometry.Weights
import Mathlib.Data.NNRat.Floor
import Mathlib.Algebra.BigOperators.Ring.Finset
import Mathlib.Algebra.Order.BigOperators.Group.List
/-!
# Weighted division tiles its area

`Weighing.divide` cuts an area into consecutive pieces, one per weight. Whatever the
arithmetic of the weights, the pieces keep the area's place and size across the cut, are
laid end to end from the area's start, and fill its extent exactly as soon as the pieces
before the last fit in it: the last piece takes the remainder and no saturating sum stops
(`Weighing.divide_tiles`).

Over exact non-negative weights (`Weighing.exact`) the pieces before the last always fit when
the weights have a positive sum, each getting the floor of its share, and when they sum to
zero and are fewer than 65536, each getting an equal part (`exact_divide_tiles`). The count
is cut to 16 bits before it divides, so 65537 weights of zero count as one: every piece but
the last then takes the whole extent and the pieces overrun the area
(`exact_divide_zeros_overrun`).
-/

open scoped NNRat

namespace Docking

/-- Where an area starts along an orientation. -/
def Rect.start (r : Rect) : Orientation → UInt16
  | .horizontal => r.x
  | .vertical => r.y

/-- The orientation across this one. -/
def Orientation.cross : Orientation → Orientation
  | .horizontal => .vertical
  | .vertical => .horizontal

/-- An area whose far edges lie inside the 16-bit plane. -/
def Rect.InPlane (r : Rect) : Prop :=
  r.x.toNat + r.width.toNat ≤ 65535 ∧ r.y.toNat + r.height.toNat ≤ 65535

theorem Rect.InPlane.along {r : Rect} (h : r.InPlane) (o : Orientation) :
    (r.start o).toNat + (r.extent o).toNat ≤ 65535 := by
  cases o
  exacts [h.1, h.2]

theorem Rect.clamped_inPlane (x y w h : UInt16) : (Rect.clamped x y w h).InPlane := by
  have hx := x.toNat_lt
  have hy := y.toNat_lt
  constructor <;>
  · simp only [Rect.clamped, UInt16.toNat_min]
    rw [UInt16.toNat_sub_of_le _ _ (UInt16.le_iff_toNat_le.2 (by simp; omega))]
    simp
    omega

/-- The sizes of a list of areas along an orientation. -/
def Rect.sizes (o : Orientation) (rs : List Rect) : List Nat :=
  rs.map fun r => (r.extent o).toNat

theorem Rect.sizes_dropLast (o : Orientation) (rs : List Rect) :
    Rect.sizes o rs.dropLast = (Rect.sizes o rs).dropLast :=
  List.map_dropLast

/-- `pieces` tile `area` along `o`: each keeps the area's place and size across `o`, each
starts where the pieces before it end (the first where the area starts), and their sizes
add up to the area's extent, so that they cover it without gap or overlap. -/
structure Tiles (o : Orientation) (area : Rect) (pieces : List Rect) : Prop where
  across : ∀ r ∈ pieces,
    r.start o.cross = area.start o.cross ∧ r.extent o.cross = area.extent o.cross
  laid : ∀ (i : Nat) (h : i < pieces.length),
    (pieces[i].start o).toNat = (area.start o).toNat + ((Rect.sizes o pieces).take i).sum
  fills : (Rect.sizes o pieces).sum = (area.extent o).toNat

/-- Adding sizes one after another with `addSat` stops once, at the largest size. -/
theorem foldl_addSat_toNat (u : UInt16) (xs : List UInt16) :
    (xs.foldl addSat u).toNat = min (u.toNat + (xs.map UInt16.toNat).sum) 65535 := by
  induction xs generalizing u with
  | nil =>
    have := u.toNat_lt
    simp
    omega
  | cons x rest ih =>
    rw [List.foldl_cons, ih, addSat_toNat]
    simp only [List.map_cons, List.sum_cons]
    omega

section Laying

variable (o : Orientation) (area : Rect)

theorem layPieces_cons (offset size : UInt16) (rest : List UInt16) :
    ∃ r, layPieces o area offset (size :: rest) =
        r :: layPieces o area (addSat offset size) rest ∧
      r.start o = addSat (area.start o) offset ∧ r.extent o = size ∧
      r.start o.cross = area.start o.cross ∧ r.extent o.cross = area.extent o.cross := by
  cases o <;> exact ⟨_, rfl, rfl, rfl, rfl, rfl⟩

theorem sizes_layPieces (offset : UInt16) (sizes : List UInt16) :
    Rect.sizes o (layPieces o area offset sizes) = sizes.map UInt16.toNat := by
  induction sizes generalizing offset with
  | nil => rfl
  | cons s rest ih =>
    obtain ⟨r, hlay, -, hext, -, -⟩ := layPieces_cons o area offset s rest
    simp [hlay, Rect.sizes, hext, ← ih (addSat offset s)]

theorem across_layPieces (offset : UInt16) (sizes : List UInt16) :
    ∀ r ∈ layPieces o area offset sizes,
      r.start o.cross = area.start o.cross ∧ r.extent o.cross = area.extent o.cross := by
  induction sizes generalizing offset with
  | nil => simp [layPieces]
  | cons s rest ih =>
    obtain ⟨r, hlay, -, -, hstart, hext⟩ := layPieces_cons o area offset s rest
    rw [hlay]
    rintro r' (_ | ⟨_, hr'⟩)
    · exact ⟨hstart, hext⟩
    · exact ih _ r' hr'

/-- While the sizes fit in the plane past the area's start, each piece starts where the
pieces before it end. -/
theorem start_layPieces (offset : UInt16) (sizes : List UInt16)
    (hfit : (area.start o).toNat + offset.toNat + (sizes.map UInt16.toNat).sum ≤ 65535)
    (i : Nat) (hi : i < (layPieces o area offset sizes).length) :
    ((layPieces o area offset sizes)[i].start o).toNat =
      (area.start o).toNat + offset.toNat + ((sizes.map UInt16.toNat).take i).sum := by
  induction sizes generalizing offset i with
  | nil => simp [layPieces] at hi
  | cons s rest ih =>
    obtain ⟨r, hlay, hstart, -, -, -⟩ := layPieces_cons o area offset s rest
    simp only [List.map_cons, List.sum_cons] at hfit
    have hoff : (addSat offset s).toNat = offset.toNat + s.toNat := by
      rw [addSat_toNat]
      omega
    cases i with
    | zero =>
      simp only [hlay, List.getElem_cons_zero, hstart, addSat_toNat]
      simp
      omega
    | succ i =>
      simp only [hlay, List.getElem_cons_succ]
      rw [ih (addSat offset s) (by omega) i]
      simp only [hoff, List.map_cons, List.take_succ_cons, List.sum_cons]
      omega

theorem tiles_layPieces (sizes : List UInt16)
    (hfit : (area.start o).toNat + (area.extent o).toNat ≤ 65535)
    (hsum : (sizes.map UInt16.toNat).sum = (area.extent o).toNat) :
    Tiles o area (layPieces o area 0 sizes) where
  across := across_layPieces o area 0 sizes
  laid i hi := by
    rw [start_layPieces o area 0 sizes (by simp; omega) i hi, sizes_layPieces]
    simp
  fills := by rw [sizes_layPieces, hsum]

end Laying

namespace Weighing

variable {α : Type} (W : Weighing α) (total : UInt16) (sum : α)

/-- All pieces but the last get their shares; the last gets what the others left of the
extent, as far as their saturating sum tells. -/
theorem pieceSizes_append_singleton (count : Nat) (init : List α) (last : α) :
    ∀ (index : Nat) (used : UInt16), index + init.length + 1 = count →
      W.pieceSizes total sum count index used (init ++ [last]) =
        init.map (W.share total sum count) ++
          [subSat total ((init.map (W.share total sum count)).foldl addSat used)] := by
  induction init with
  | nil =>
    intro index used h
    simp [pieceSizes, pieceSize, show index + 1 = count by simpa using h]
  | cons w rest ih =>
    intro index used h
    have hlast : ¬ index + 1 = count := by
      simp only [List.length_cons] at h
      omega
    simp only [List.cons_append, pieceSizes, pieceSize, if_neg hlast, List.map_cons,
      List.foldl_cons]
    rw [ih (index + 1) _ (by simp only [List.length_cons] at h; omega)]

/-- When the pieces before the last fit in the extent, the sizes add up to the extent. -/
theorem sum_pieceSizes (init : List α) (last : α)
    (hfit : ((init.map (W.share total sum (init.length + 1))).map UInt16.toNat).sum ≤
      total.toNat) :
    ((W.pieceSizes total sum (init.length + 1) 0 0 (init ++ [last])).map UInt16.toNat).sum =
      total.toNat := by
  have := total.toNat_lt
  rw [pieceSizes_append_singleton W total sum _ init last 0 0 (by omega)]
  simp only [List.map_append, List.sum_append, List.map_cons, List.map_nil, List.sum_cons,
    List.sum_nil, subSat_toNat, foldl_addSat_toNat, UInt16.toNat_zero]
  omega

/-- Whatever the arithmetic of the weights, the division tiles an area of the plane as soon
as the pieces before the last fit in its extent, and each of them then has its share. -/
theorem divide_tiles (o : Orientation) {area : Rect} {ws : List α} (hne : ws ≠ [])
    (hfit : (area.start o).toNat + (area.extent o).toNat ≤ 65535)
    (hshares : ((ws.dropLast.map (W.share (area.extent o) (W.sum ws) ws.length)).map
      UInt16.toNat).sum ≤ (area.extent o).toNat) :
    Tiles o area (W.divide o area ws) ∧
      Rect.sizes o (W.divide o area ws).dropLast =
        (ws.dropLast.map (W.share (area.extent o) (W.sum ws) ws.length)).map UInt16.toNat := by
  obtain ⟨init, last, rfl⟩ := (List.eq_nil_or_concat' ws).resolve_left hne
  have hlen : (init ++ [last]).length = init.length + 1 := by simp
  rw [List.dropLast_concat, hlen] at hshares
  unfold divide
  rw [hlen, List.dropLast_concat]
  refine ⟨tiles_layPieces o area _ hfit (sum_pieceSizes W _ _ init last hshares), ?_⟩
  rw [Rect.sizes_dropLast, sizes_layPieces,
    pieceSizes_append_singleton W _ _ _ init last 0 0 (by omega), List.map_append,
    List.map_singleton, List.dropLast_concat]

end Weighing

/-- Exact non-negative weights: the exact sum, and the exact floor of a share, saturating at
the largest size as the cut of a single-precision share to 16 bits does. -/
def Weighing.exact : Weighing ℚ≥0 where
  sum := List.sum
  nonPositive s := decide (s ≤ 0)
  cells w s total := (min ⌊w / s * total.toNat⌋₊ 65535).toUInt16

@[simp] theorem Weighing.exact_sum (ws : List ℚ≥0) : Weighing.exact.sum ws = ws.sum := rfl

/-- The size of each piece but the last when an extent `total` is divided exactly among the
weights `ws`: the floor of the weight's share, or an equal part when the weights sum to zero. -/
def exactSize (ws : List ℚ≥0) (total : Nat) (w : ℚ≥0) : Nat :=
  if ws.sum = 0 then total / ws.length else ⌊w / ws.sum * total⌋₊

theorem floor_share_le {w s : ℚ≥0} (hw : w ≤ s) (total : Nat) :
    ⌊w / s * total⌋₊ ≤ total := by
  apply Nat.floor_le_of_le
  exact mul_le_of_le_one_left zero_le (div_le_one_of_le₀ hw zero_le)

/-- Exact shares are what they say, as long as a count that divides fits in 16 bits. -/
theorem exact_share_toNat {ws : List ℚ≥0} {w : ℚ≥0} (hw : w ≤ ws.sum) (total : UInt16)
    (hcount : 0 < ws.sum ∨ ws.length < 65536) :
    (Weighing.exact.share total ws.sum ws.length w).toNat = exactSize ws total.toNat w := by
  unfold Weighing.share exactSize
  by_cases hzero : ws.sum = 0
  · have hn : ws.length < 65536 := by simpa [hzero] using hcount
    simp [Weighing.exact, hzero, UInt16.toNat_div, Nat.mod_eq_of_lt hn]
  · have hle := floor_share_le hw total.toNat
    have := total.toNat_lt
    simp [Weighing.exact, hzero]
    omega

/-- The exact sizes of the pieces before the last fit in the extent. -/
theorem sum_exactSize_le {ws : List ℚ≥0} (hne : ws ≠ []) (total : Nat) :
    (ws.dropLast.map (exactSize ws total)).sum ≤ total := by
  obtain ⟨init, last, rfl⟩ := (List.eq_nil_or_concat' ws).resolve_left hne
  rw [List.dropLast_concat]
  by_cases hzero : (init ++ [last]).sum = 0
  · -- an equal part for each of the pieces before the last
    have hequal : exactSize (init ++ [last]) total = fun _ => total / (init.length + 1) := by
      funext w
      simp [exactSize, hzero]
    rw [hequal, List.map_const', List.sum_replicate, Nat.nsmul_eq_mul]
    calc init.length * (total / (init.length + 1))
        ≤ (init.length + 1) * (total / (init.length + 1)) := Nat.mul_le_mul_right _ (by omega)
      _ ≤ total := Nat.mul_div_le total _
  · -- floors of shares of a part of the sum
    have hinit : init.sum ≤ (init ++ [last]).sum := by simp [List.sum_append]
    rw [← Nat.cast_le (α := ℚ≥0), Nat.cast_list_sum, List.map_map]
    calc (init.map (Nat.cast ∘ exactSize (init ++ [last]) total)).sum
        ≤ (init.map fun w => w * ((init ++ [last]).sum⁻¹ * total)).sum := by
          apply List.sum_le_sum
          intro w _
          simp only [Function.comp, exactSize, if_neg hzero, ← mul_assoc, ← div_eq_mul_inv]
          exact Nat.floor_le zero_le
      _ = init.sum / (init ++ [last]).sum * total := by
          rw [List.sum_map_mul_right, List.map_id', div_eq_mul_inv, mul_assoc]
      _ ≤ total := mul_le_of_le_one_left zero_le (div_le_one_of_le₀ hinit zero_le)

/-- Over exact non-negative weights with a positive sum, or fewer than 65536 weights, the
division tiles every area of the plane: one piece per weight, every piece but the last
with its exact size, the last with the remainder. -/
theorem exact_divide_tiles (o : Orientation) {area : Rect} (harea : area.InPlane)
    {ws : List ℚ≥0} (hne : ws ≠ []) (hcount : 0 < ws.sum ∨ ws.length < 65536) :
    (Weighing.exact.divide o area ws).length = ws.length ∧
      Tiles o area (Weighing.exact.divide o area ws) ∧
      Rect.sizes o (Weighing.exact.divide o area ws).dropLast =
        ws.dropLast.map (exactSize ws (area.extent o).toNat) := by
  have hshares : (ws.dropLast.map (Weighing.exact.share (area.extent o) ws.sum ws.length)).map
      UInt16.toNat = ws.dropLast.map (exactSize ws (area.extent o).toNat) := by
    rw [List.map_map]
    apply List.map_congr_left
    intro w hw
    exact exact_share_toNat (List.le_sum_of_mem (List.mem_of_mem_dropLast hw)) _ hcount
  have hfits := sum_exactSize_le hne (area.extent o).toNat
  rw [← hshares] at hfits
  obtain ⟨htiles, hsizes⟩ := Weighing.exact.divide_tiles o hne (harea.along o) hfits
  exact ⟨Weighing.exact.length_divide o area ws, htiles, hsizes.trans hshares⟩

/-- The count is cut to 16 bits before it divides: 65537 weights of zero count as one, so
every piece but the last takes the whole extent, and the pieces overrun any area that is
not empty along the cut. -/
theorem exact_divide_zeros_overrun (o : Orientation) (area : Rect)
    (h : 0 < (area.extent o).toNat) :
    Rect.sizes o (Weighing.exact.divide o area (List.replicate 65537 0)) =
        List.replicate 65536 (area.extent o).toNat ++ [0] ∧
      ¬ Tiles o area (Weighing.exact.divide o area (List.replicate 65537 0)) := by
  have hsplit : List.replicate 65537 (0 : ℚ≥0) = List.replicate 65536 0 ++ [0] :=
    List.replicate_succ'
  have hone : (65537 : Nat).toUInt16 = 1 := by decide
  have hshare : Weighing.exact.share (area.extent o) 0 65537 0 = area.extent o := by
    simp only [Weighing.share, Weighing.exact, le_refl, decide_true, if_true, hone,
      UInt16.div_one]
  -- the saturating sum of the pieces before the last stops at the largest size
  have hlast : (subSat (area.extent o)
      ((List.replicate 65536 (area.extent o)).foldl addSat 0)).toNat = 0 := by
    have := (area.extent o).toNat_lt
    rw [subSat_toNat, foldl_addSat_toNat, List.map_replicate, List.sum_replicate,
      Nat.nsmul_eq_mul, UInt16.toNat_zero]
    omega
  have hsizes : Rect.sizes o (Weighing.exact.divide o area (List.replicate 65537 0)) =
      List.replicate 65536 (area.extent o).toNat ++ [0] := by
    rw [Weighing.divide, sizes_layPieces, Weighing.exact_sum, List.sum_replicate, nsmul_zero,
      List.length_replicate, hsplit,
      Weighing.pieceSizes_append_singleton _ _ _ _ _ _ 0 0 (by rw [List.length_replicate]),
      List.map_replicate, hshare, List.map_append, List.map_replicate, List.map_singleton, hlast]
  refine ⟨hsizes, fun htiles => ?_⟩
  have hfills := htiles.fills
  rw [hsizes, List.sum_append, List.sum_replicate, Nat.nsmul_eq_mul] at hfills
  simp only [List.sum_singleton] at hfills
  omega

end Docking
