import Docking.Proofs.Outcome
import Docking.Layout.Regions
/-!
# Dragging a sash

A drag moves the border between two neighbouring children of a split that take space, by the
extents of the last layout pass. `sashWeights` reads in three stages: the positions of the
children that take space (`shownSlots`) and their extents (`shownExtents`), the extents after
the drag (`dragExtents`), and weights in proportion to those extents (`weighBy`).

The drag moves only the border between the two neighbours: each keeps at least
`minSashSize`, the two together keep what they had, every other child keeps its extent, and
only the weights of children that take space change (`SashDrag`). The weights divide by the
sum of the extents, taken in a signed 32-bit word. The request overflows exactly when it is
asked for the largest index of a split or when that sum leaves the word, is refused only on a
node that is no split, and otherwise answers `false`, changing nothing, or sets the weights
of the drag (`SashAnswer`, `LayoutM.resizeSash_answers`).
-/

namespace Docking

/-- The positions of the children of a split that take space: present and no placeholder. -/
def shownSlots (s : Store) (cs : List NodeId) : List Nat :=
  (List.range cs.length).filter fun slot =>
    match cs[slot]? >>= s.get? with
    | some n => !n.kind.isPlaceholder
    | none => false

/-- The extents along the split of the children that take space, by the bounds of the last
pass. -/
def shownExtents (s : Store) (o : Orientation) (cs : List NodeId) : List Int :=
  (shownSlots s cs).map fun slot =>
    match cs[slot]? >>= s.get? with
    | some n => ((n.bounds.extent o).toNat : Int)
    | none => 0

/-- The extent the `index`-th child and the one after it have together. -/
def pairExtent (sizes : List Int) (index : Nat) : Int :=
  sizes.getD index 0 + sizes.getD (index + 1) 0

/-- The extent of the `index`-th child once the border after it moves by `delta`: it keeps at
least `minSashSize` and leaves at least that much to the child after it. -/
def draggedExtent (sizes : List Int) (index : Nat) (delta : Int) : Int :=
  max minSashSize (min (sizes.getD index 0 + delta) (pairExtent sizes index - minSashSize))

/-- The extents once the border after the `index`-th child moves by `delta`. -/
def dragExtents (sizes : List Int) (index : Nat) (delta : Int) : List Int :=
  (sizes.set index (draggedExtent sizes index delta)).set (index + 1)
    (pairExtent sizes index - draggedExtent sizes index delta)

/-- The weights that share the weight of the children at `slots` in proportion to `sizes`,
which add up to `total`. -/
def weighBy (ws : List Float32) (slots : List Nat) (sizes : List Int) (total : Int) :
    List Float32 :=
  let visibleWeight := weightSum (slots.filterMap fun slot => ws[slot]?)
  (slots.zip sizes).foldl (fun acc (slot, size) =>
    if slot < acc.length then
      acc.set slot (visibleWeight * Float32.ofInt (max size 1) / Float32.ofInt total)
    else acc) ws

theorem sashWeights_eq (s : Store) (o : Orientation) (cs : List NodeId) (ws : List Float32)
    (index : Nat) (delta : Int) :
    LayoutM.sashWeights s o cs ws index delta =
      if (shownSlots s cs).length ≤ index + 1 then .ok none
      else if pairExtent (shownExtents s o cs) index < minSashSize * 2 then .ok none
      else (sum32 (dragExtents (shownExtents s o cs) index delta)).map fun total =>
        some (weighBy ws (shownSlots s cs) (dragExtents (shownExtents s o cs) index delta) total) :=
  rfl

@[simp] theorem length_shownExtents (s : Store) (o : Orientation) (cs : List NodeId) :
    (shownExtents s o cs).length = (shownSlots s cs).length :=
  List.length_map _

theorem nonneg_of_mem_shownExtents {s : Store} {o : Orientation} {cs : List NodeId} {x : Int}
    (hx : x ∈ shownExtents s o cs) : 0 ≤ x := by
  obtain ⟨slot, -, rfl⟩ := List.mem_map.mp hx
  split <;> omega

/-! ## The dragged extents -/

/-- What a drag by `delta` of the border after the `index`-th of `sizes` leaves as `sizes'`. -/
structure ExtentDrag (sizes sizes' : List Int) (index : Nat) (delta : Int) : Prop where
  length : sizes'.length = sizes.length
  /-- the child before the border keeps at least the minimum -/
  left : minSashSize ≤ sizes'.getD index 0
  /-- and so does the child after it -/
  right : minSashSize ≤ sizes'.getD (index + 1) 0
  /-- the two together keep what they had -/
  pair : pairExtent sizes' index = pairExtent sizes index
  /-- a drag the minimum allows moves the border by exactly `delta` -/
  moves : minSashSize ≤ sizes.getD index 0 + delta →
    sizes.getD index 0 + delta ≤ pairExtent sizes index - minSashSize →
    sizes'.getD index 0 = sizes.getD index 0 + delta
  /-- every other child keeps its extent -/
  others : ∀ j, j ≠ index → j ≠ index + 1 → sizes'.getD j 0 = sizes.getD j 0

section Drag

variable {sizes : List Int} {index : Nat} {delta : Int}

@[simp] theorem length_dragExtents : (dragExtents sizes index delta).length = sizes.length := by
  simp [dragExtents]

theorem getD_dragExtents (h : index + 1 < sizes.length) (j : Nat) :
    (dragExtents sizes index delta).getD j 0 =
      if j = index + 1 then pairExtent sizes index - draggedExtent sizes index delta
      else if j = index then draggedExtent sizes index delta
      else sizes.getD j 0 := by
  simp only [dragExtents, List.getD_eq_getElem?_getD, List.getElem?_set, List.length_set]
  by_cases h1 : j = index + 1
  · simp [h1, h]
  · by_cases h2 : j = index
    · subst h2
      simp [show j < sizes.length by omega]
    · simp [h1, h2, Ne.symm h1, Ne.symm h2]

theorem minSashSize_le_draggedExtent : minSashSize ≤ draggedExtent sizes index delta :=
  Int.le_max_left _ _

theorem minSashSize_le_pairExtent_sub (hroom : minSashSize * 2 ≤ pairExtent sizes index) :
    minSashSize ≤ pairExtent sizes index - draggedExtent sizes index delta := by
  unfold draggedExtent
  omega

theorem draggedExtent_of_within (hlo : minSashSize ≤ sizes.getD index 0 + delta)
    (hhi : sizes.getD index 0 + delta ≤ pairExtent sizes index - minSashSize) :
    draggedExtent sizes index delta = sizes.getD index 0 + delta := by
  unfold draggedExtent
  omega

/-- Dragging the border after the `index`-th of two neighbours with room for both minimums
moves only that border, within the minimums. -/
theorem extentDrag_dragExtents (h : index + 1 < sizes.length)
    (hroom : minSashSize * 2 ≤ pairExtent sizes index) :
    ExtentDrag sizes (dragExtents sizes index delta) index delta where
  length := length_dragExtents
  left := by
    rw [getD_dragExtents h, if_neg (by omega), if_pos rfl]
    exact minSashSize_le_draggedExtent
  right := by
    rw [getD_dragExtents h, if_pos rfl]
    exact minSashSize_le_pairExtent_sub hroom
  pair := by
    rw [pairExtent, getD_dragExtents h, getD_dragExtents h, if_neg (by omega), if_pos rfl,
      if_pos rfl]
    omega
  moves hlo hhi := by
    rw [getD_dragExtents h, if_neg (by omega), if_pos rfl]
    exact draggedExtent_of_within hlo hhi
  others j h1 h2 := by
    rw [getD_dragExtents h, if_neg h2, if_neg h1]

theorem nonneg_of_mem_dragExtents (hsizes : ∀ x ∈ sizes, 0 ≤ x)
    (hroom : minSashSize * 2 ≤ pairExtent sizes index) {x : Int}
    (hx : x ∈ dragExtents sizes index delta) : 0 ≤ x := by
  have hmin : (0 : Int) ≤ minSashSize := by decide
  rcases List.mem_or_eq_of_mem_set hx with hx | rfl
  · rcases List.mem_or_eq_of_mem_set hx with hx | rfl
    · exact hsizes x hx
    · exact Int.le_trans hmin minSashSize_le_draggedExtent
  · exact Int.le_trans hmin (minSashSize_le_pairExtent_sub hroom)

end Drag

/-! ## The sum of the extents -/

theorem foldl_add_eq_add (xs : List Int) (a : Int) :
    xs.foldl (· + ·) a = a + xs.foldl (· + ·) 0 := by
  induction xs generalizing a with
  | nil => simp
  | cons x xs ih =>
    rw [List.foldl_cons, List.foldl_cons, ih (a + x), ih (0 + x)]
    omega

theorem le_foldl_add {xs : List Int} (hx : ∀ x ∈ xs, 0 ≤ x) (a : Int) :
    a ≤ xs.foldl (· + ·) a := by
  induction xs generalizing a with
  | nil => exact Int.le_refl a
  | cons x xs ih =>
    have hx0 := hx x List.mem_cons_self
    exact Int.le_trans (by omega) (ih (fun y hy => hx y (List.mem_cons_of_mem x hy)) (a + x))

/-- Setting one entry changes the sum by the difference. -/
theorem foldl_add_set {xs : List Int} {i : Nat} (h : i < xs.length) (v : Int) :
    (xs.set i v).foldl (· + ·) 0 = xs.foldl (· + ·) 0 - xs.getD i 0 + v := by
  induction xs generalizing i with
  | nil => cases h
  | cons x xs ih =>
    cases i with
    | zero =>
      simp only [List.set_cons_zero, List.foldl_cons, List.getD_cons_zero]
      rw [foldl_add_eq_add xs (0 + v), foldl_add_eq_add xs (0 + x)]
      omega
    | succ k =>
      simp only [List.set_cons_succ, List.foldl_cons, List.getD_cons_succ]
      rw [foldl_add_eq_add (xs.set k v), foldl_add_eq_add xs, ih (by simpa using h)]
      omega

theorem foldl_add_dragExtents {sizes : List Int} {index : Nat} (delta : Int)
    (h : index + 1 < sizes.length) :
    (dragExtents sizes index delta).foldl (· + ·) 0 = sizes.foldl (· + ·) 0 := by
  have hnext : (sizes.set index (draggedExtent sizes index delta)).getD (index + 1) 0 =
      sizes.getD (index + 1) 0 := by
    simp [List.getD_eq_getElem?_getD, List.getElem?_set_ne (show index ≠ index + 1 by omega)]
  rw [dragExtents, foldl_add_set (by simpa using h), hnext, foldl_add_set (by omega), pairExtent]
  omega

/-- A checked sum from `acc` of entries none below zero overflows exactly when the sum passes
the word. -/
theorem foldlM_add32 {xs : List Int} (hx : ∀ x ∈ xs, 0 ≤ x) {acc : Int} (h0 : 0 ≤ acc)
    (h1 : acc ≤ int32Max) :
    xs.foldlM add32 acc =
      if int32Max < xs.foldl (· + ·) acc then .error .add else .ok (xs.foldl (· + ·) acc) := by
  induction xs generalizing acc with
  | nil =>
    rw [List.foldlM_nil, List.foldl_nil, if_neg (Int.not_lt.mpr h1)]
    rfl
  | cons x xs ih =>
    have hx0 : 0 ≤ x := hx x List.mem_cons_self
    have hxs : ∀ y ∈ xs, 0 ≤ y := fun y hy => hx y (List.mem_cons_of_mem x hy)
    rw [List.foldlM_cons, List.foldl_cons]
    by_cases hover : int32Max < acc + x
    · -- the partial sum already leaves the word, and the rest only adds
      have hadd : add32 acc x = .error .add := if_pos (.inr hover)
      rw [hadd, if_pos (Int.lt_of_lt_of_le hover (le_foldl_add hxs _))]
      rfl
    · have hadd : add32 acc x = .ok (acc + x) := if_neg (by unfold int32Min; omega)
      rw [hadd]
      exact ih hxs (by omega) (by omega)

theorem sum32_eq {xs : List Int} (hx : ∀ x ∈ xs, 0 ≤ x) :
    sum32 xs = if int32Max < xs.foldl (· + ·) 0 then .error .add else .ok (xs.foldl (· + ·) 0) :=
  foldlM_add32 hx (Int.le_refl 0) (by unfold int32Max; omega)

/-- The checked sum of the dragged extents is that of the extents before the drag. -/
theorem sum32_dragExtents {s : Store} {o : Orientation} {cs : List NodeId} {index : Nat}
    (delta : Int) (h : index + 1 < (shownSlots s cs).length)
    (hroom : minSashSize * 2 ≤ pairExtent (shownExtents s o cs) index) :
    sum32 (dragExtents (shownExtents s o cs) index delta) =
      if int32Max < (shownExtents s o cs).foldl (· + ·) 0 then .error .add
      else .ok ((shownExtents s o cs).foldl (· + ·) 0) := by
  have hlen : index + 1 < (shownExtents s o cs).length := by
    rw [length_shownExtents]
    exact h
  rw [sum32_eq fun _ hx => nonneg_of_mem_dragExtents (fun _ => nonneg_of_mem_shownExtents) hroom hx,
    foldl_add_dragExtents delta hlen]

/-! ## The weights -/

/-- Setting weights at the positions of a list of pairs leaves every other position alone. -/
theorem getElem?_foldl_set_of_not_mem (ps : List (Nat × Int)) (g : Nat × Int → Float32)
    (acc : List Float32) {j : Nat} (hj : j ∉ ps.map (·.1)) :
    (ps.foldl (fun acc q => if q.1 < acc.length then acc.set q.1 (g q) else acc) acc)[j]? =
      acc[j]? := by
  induction ps generalizing acc with
  | nil => rfl
  | cons q ps ih =>
    simp only [List.map_cons, List.mem_cons, not_or] at hj
    rw [List.foldl_cons, ih _ hj.2]
    split
    · rw [List.getElem?_set_ne (Ne.symm hj.1)]
    · rfl

theorem getElem?_weighBy_of_not_mem (ws : List Float32) {slots : List Nat} (sizes : List Int)
    (total : Int) {j : Nat} (hj : j ∉ slots) : (weighBy ws slots sizes total)[j]? = ws[j]? := by
  refine getElem?_foldl_set_of_not_mem _ _ _ fun hmem => hj ?_
  obtain ⟨q, hq, rfl⟩ := List.mem_map.mp hmem
  exact (List.of_mem_zip hq).1

/-! ## The drag as a whole -/

/-- What a drag of the sash after the `index`-th shown child of a split with children `cs` and
weights `ws` does when it sets the weights `ws'`. -/
structure SashDrag (s : Store) (o : Orientation) (cs : List NodeId) (ws : List Float32)
    (index : Nat) (delta : Int) (ws' : List Float32) : Prop where
  /-- a shown child follows the `index`-th -/
  fits : index + 1 < (shownSlots s cs).length
  /-- the shown extents add up within a signed 32-bit word -/
  total : (shownExtents s o cs).foldl (· + ·) 0 ≤ int32Max
  /-- the new weights are those of extents dragged within the minimums, over their sum -/
  drags : ∃ sizes', ExtentDrag (shownExtents s o cs) sizes' index delta ∧
    ws' = weighBy ws (shownSlots s cs) sizes' ((shownExtents s o cs).foldl (· + ·) 0)
  /-- only the weights of shown children change -/
  frame : ∀ j ∉ shownSlots s cs, ws'[j]? = ws[j]?

section Weights

variable {s : Store} {o : Orientation} {cs : List NodeId} {ws : List Float32} {index : Nat}
  {delta : Int}

/-- Every set of weights a sash drag gives is one of a drag within the minimums. -/
theorem sashDrag_of_sashWeights {ws' : List Float32}
    (h : LayoutM.sashWeights s o cs ws index delta = .ok (some ws')) :
    SashDrag s o cs ws index delta ws' := by
  rw [sashWeights_eq] at h
  split at h
  · cases h
  · next hfits =>
    split at h
    · cases h
    · next hroom =>
      have hlen : index + 1 < (shownExtents s o cs).length := by
        rw [length_shownExtents]
        omega
      rw [sum32_dragExtents delta (by omega) (by omega)] at h
      split at h
      · cases h
      · next htotal =>
        cases h
        exact ⟨by omega, Int.not_lt.mp htotal, ⟨_, extentDrag_dragExtents hlen (by omega), rfl⟩,
          fun j hj => getElem?_weighBy_of_not_mem _ _ _ hj⟩

/-- A sash drag overflows only on a sash between two shown children with room for both
minimums, whose shown extents add up past a signed 32-bit word. -/
theorem sashWeights_eq_error {e : Overflow}
    (h : LayoutM.sashWeights s o cs ws index delta = .error e) :
    e = .add ∧ index + 1 < (shownSlots s cs).length ∧
      minSashSize * 2 ≤ pairExtent (shownExtents s o cs) index ∧
      int32Max < (shownExtents s o cs).foldl (· + ·) 0 := by
  rw [sashWeights_eq] at h
  split at h
  · cases h
  · next hfits =>
    split at h
    · cases h
    · next hroom =>
      rw [sum32_dragExtents delta (by omega) (by omega)] at h
      split at h
      · next htotal =>
        cases h
        exact ⟨rfl, by omega, by omega, htotal⟩
      · cases h

end Weights

/-- How a sash drag on the layout `l` can end. -/
inductive SashAnswer (l : Layout) (split : NodeId) (index : Nat) (delta : Int) :
    Except Overflow Bool → Layout → Prop
  /-- the largest index has no position after it -/
  | overflow : indexMax ≤ index → SashAnswer l split index delta (.error .add) l
  /-- the shown extents of a sash that could move add up past a signed 32-bit word -/
  | sumOverflow {n : Node} {o : Orientation} {cs : List NodeId} {ws : List Float32} :
    index < indexMax → l.store.get? split = some n → n.kind = .split o cs ws →
    index + 1 < (shownSlots l.store cs).length →
    minSashSize * 2 ≤ pairExtent (shownExtents l.store o cs) index →
    int32Max < (shownExtents l.store o cs).foldl (· + ·) 0 →
    SashAnswer l split index delta (.error .add) l
  /-- there is no such sash, or its neighbours are too small -/
  | unchanged : index < indexMax → SashAnswer l split index delta (.ok false) l
  /-- the split takes the weights of the drag -/
  | dragged {n : Node} {o : Orientation} {cs : List NodeId} {ws ws' : List Float32} :
    index < indexMax → l.store.get? split = some n → n.kind = .split o cs ws →
    SashDrag l.store o cs ws index delta ws' →
    SashAnswer l split index delta (.ok true) { l with store := l.store.setKind split (.split o cs ws') }

namespace LayoutM

/-- A sash drag overflows only when asked for the largest index or when the shown extents of
a sash it could move add up past a signed 32-bit word, answers `true` only for a sash between
two shown children that it moves within the minimums, and is refused, with nothing changed,
only on a node that is no split. -/
theorem resizeSash_answers (l : Layout) (split : NodeId) (index : Nat) (delta : Int) :
    Ends (resizeSash split index delta) l (SashAnswer l split index delta)
      fun _ l' => l' = l ∧ ∀ n o cs ws, l.store.get? split = some n → n.kind ≠ .split o cs ws := by
  rw [resizeSash, ends_bind, ends_node]
  split
  · next n hn =>
    split
    · next o cs ws hk =>
      split
      · next hmax => exact .overflow hmax
      · next hmax =>
        have hlt : index < indexMax := Nat.lt_of_not_le hmax
        rw [ends_bind, ends_store]
        split
        · next e herr =>
          obtain ⟨rfl, hfits, hroom, htotal⟩ := sashWeights_eq_error herr
          exact .sumOverflow hlt hn hk hfits hroom htotal
        · exact .unchanged hlt
        · next updated hup =>
          rw [ends_bind, ends_onStore, ends_pure]
          exact .dragged hlt hn hk (sashDrag_of_sashWeights hup)
    · next hk =>
      rw [ends_throw]
      refine ⟨rfl, fun n' o cs ws hn' hk' => ?_⟩
      rw [hn] at hn'
      cases hn'
      exact hk o cs ws hk'
  · next hn =>
    refine ⟨rfl, fun n' o cs ws hn' _ => ?_⟩
    rw [hn] at hn'
    cases hn'

end LayoutM

end Docking
