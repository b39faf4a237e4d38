import Docking.Proofs.Weights
/-!
# A folder's selection follows its tabs

A tab folder shows the tab at its selected index, and only a pane can be shown. Every edit of
a folder's tabs ends with `Store.fixSelection`, which keeps the selection while it rests on a
pane and otherwise takes the nearest pane, searching backward from the old slot and then
forward (`Store.NearestVisible`, found by `pickVisible`: `Store.pickVisible_nearest`). For each
edit (`insertChild_selection`, `removeChild_selection`, `replaceChild_selection`,
`fixSelection_selection`) the selection rests on a pane, none exactly when no tab is one
(`Store.OnVisible`); a selected pane the edit left alone stays selected, shifted past an
inserted or removed tab; one whose slot now holds another pane passes the selection to it;
one taken out, or whose slot now holds no pane, passes it to the nearest pane. Main statement:
`Store.selection_follows_tabs`.
-/

namespace Docking

namespace Store

/-! ### Searching for a visible tab -/

/-- The first element a search down from `n - 1` meets. -/
theorem find?_reverse_range {p : Nat → Bool} {i n : Nat} :
    (List.range n).reverse.find? p = some i ↔
      i < n ∧ p i = true ∧ ∀ j, i < j → j < n → p j = false := by
  rw [List.find?_eq_some_iff_getElem]
  simp only [List.getElem_reverse, List.getElem_range, List.length_reverse, List.length_range]
  constructor
  · rintro ⟨hp, t, ht, rfl, hbefore⟩
    refine ⟨by omega, hp, fun j hj hjn => ?_⟩
    have := hbefore (n - 1 - j) (by omega)
    simpa [show n - 1 - (n - 1 - j) = j by omega] using this
  · rintro ⟨hn, hp, hbefore⟩
    refine ⟨hp, n - 1 - i, by omega, by omega, fun t ht => ?_⟩
    simpa using hbefore (n - 1 - t) (by omega) (by omega)

/-- The first element a search up from `m` to `n - 1` meets. -/
theorem find?_drop_range {p : Nat → Bool} {i m n : Nat} :
    ((List.range n).drop m).find? p = some i ↔
      m ≤ i ∧ i < n ∧ p i = true ∧ ∀ j, m ≤ j → j < i → p j = false := by
  rw [List.find?_eq_some_iff_getElem]
  simp only [List.getElem_drop, List.getElem_range, List.length_drop, List.length_range]
  constructor
  · rintro ⟨hp, t, ht, rfl, hbefore⟩
    refine ⟨by omega, by omega, hp, fun j hj hji => ?_⟩
    have := hbefore (j - m) (by omega)
    simpa [show m + (j - m) = j by omega] using this
  · rintro ⟨hm, hn, hp, hbefore⟩
    refine ⟨hp, i - m, by omega, by omega, fun t ht => ?_⟩
    simpa using hbefore (m + t) (by omega) (by omega)

/-- A selection that rests on a visible tab, and is none exactly when no tab is visible. -/
def OnVisible (visible : List Bool) : Option Nat → Prop
  | none => ∀ i, visible.getD i false = false
  | some i => visible.getD i false = true

/-- `r` is the tab a search around slot `k` should find: the nearest visible tab before `k`,
else the first visible tab from `k` on, and none when no tab is visible. -/
def NearestVisible (visible : List Bool) (k : Nat) : Option Nat → Prop
  | none => ∀ i, visible.getD i false = false
  | some i => visible.getD i false = true ∧
      ((i < k ∧ ∀ j, i < j → j < k → visible.getD j false = false) ∨
        (k ≤ i ∧ ∀ j < i, visible.getD j false = false))

variable {visible : List Bool} {k : Nat} {r : Option Nat}

theorem NearestVisible.onVisible (h : NearestVisible visible k r) : OnVisible visible r := by
  cases r with
  | none => exact h
  | some i => exact h.1

/-- Slots that show nothing can move the search's start across them. -/
theorem nearestVisible_iff_of_hidden {k' : Nat} (hk : k ≤ k')
    (hidden : ∀ j, k ≤ j → j < k' → visible.getD j false = false) :
    NearestVisible visible k r ↔ NearestVisible visible k' r := by
  cases r with
  | none => exact Iff.rfl
  | some i =>
    simp only [NearestVisible]
    refine and_congr_right fun hi => ?_
    -- the found tab is visible, so it lies outside the hidden slots
    have hout : i < k ∨ k' ≤ i := by
      by_contra hin
      have := hidden i (by omega) (by omega)
      rw [hi] at this
      cases this
    constructor
    · rintro (⟨hik, hb⟩ | ⟨hki, hb⟩)
      · refine .inl ⟨by omega, fun j hij hjk => ?_⟩
        by_cases hj : j < k
        · exact hb j hij hj
        · exact hidden j (by omega) hjk
      · rcases hout with hout | hout
        · omega
        · exact .inr ⟨hout, hb⟩
    · rintro (⟨hik, hb⟩ | ⟨hki, hb⟩)
      · rcases hout with hout | hout
        · exact .inl ⟨hout, fun j hij hjk => hb j hij (by omega)⟩
        · omega
      · exact .inr ⟨by omega, hb⟩

/-- The search of `pickVisible`, down from `start` and then up, finds the nearest visible tab
before `start + 1`, else the first one after. -/
theorem pickVisible_nearest (visible : List Bool) (start : Nat) :
    NearestVisible visible (start + 1) (pickVisible visible start) := by
  unfold pickVisible
  rw [List.find?_append]
  cases hdown : (List.range (start + 1)).reverse.find? fun i => visible.getD i false with
  | some i =>
    obtain ⟨hi, hv, hb⟩ := find?_reverse_range.mp hdown
    exact ⟨hv, .inl ⟨hi, hb⟩⟩
  | none =>
    -- nothing at or before `start` is visible
    have hdown' : ∀ j, j < start + 1 → visible.getD j false = false := fun j hj => by
      have := List.find?_eq_none.mp hdown j (by simpa using hj)
      simpa using this
    rw [Option.none_or]
    cases hup : ((List.range visible.length).drop (start + 1)).find? fun i => visible.getD i false with
    | some i =>
      obtain ⟨hsi, -, hv, hb⟩ := find?_drop_range.mp hup
      refine ⟨hv, .inr ⟨hsi, fun j hj => ?_⟩⟩
      by_cases hjs : j < start + 1
      · exact hdown' j hjs
      · exact hb j (by omega) hj
    | none =>
      intro j
      by_cases hjs : j < start + 1
      · exact hdown' j hjs
      · by_cases hjl : j < visible.length
        · have := List.find?_eq_none.mp hup j (List.mem_drop_iff_getElem.mpr
            ⟨j - (start + 1), by simp; omega, by simp; omega⟩)
          simpa using this
        · simp [List.getD_eq_getElem?_getD, List.getElem?_eq_none (by omega : visible.length ≤ j)]

theorem nextSelection_of_visible {i : Nat} (h : visible.getD i false = true) :
    nextSelection visible (some i) = some i := by
  simp only [nextSelection, h, if_true]

/-- A selection on a hidden tab moves to the nearest visible tab around it. -/
theorem nextSelection_of_hidden {i : Nat} (h : visible.getD i false = false) :
    NearestVisible visible i (nextSelection visible (some i)) := by
  simp only [nextSelection, h, Bool.false_eq_true, if_false]
  split
  · next he =>
    intro j
    simp [List.isEmpty_iff.mp he]
  · next he =>
    have hlen : 0 < visible.length := List.length_pos_iff.mpr (by simpa using he)
    have hsearch := pickVisible_nearest visible (min i (visible.length - 1))
    by_cases hi : i < visible.length
    · rw [Nat.min_eq_left (by omega : i ≤ visible.length - 1)] at hsearch ⊢
      exact (nearestVisible_iff_of_hidden (Nat.le_succ i)
        fun j hj hj' => (show j = i by omega) ▸ h).mpr hsearch
    · -- past the last tab: the search starts from the last one
      rw [Nat.min_eq_right (by omega : visible.length - 1 ≤ i)] at hsearch ⊢
      rw [Nat.sub_add_cancel hlen] at hsearch
      have hle : visible.length ≤ i := by omega
      refine (nearestVisible_iff_of_hidden hle fun j hj _ => ?_).mp hsearch
      simp [List.getD_eq_getElem?_getD, List.getElem?_eq_none (by omega : visible.length ≤ j)]

/-- The selection `nextSelection` gives rests on a visible tab, and is none exactly when no tab
is visible. -/
theorem nextSelection_onVisible (visible : List Bool) (sel : Option Nat) :
    OnVisible visible (nextSelection visible sel) := by
  cases sel with
  | some i =>
    cases h : visible.getD i false with
    | true => rw [nextSelection_of_visible h]; exact h
    | false => exact (nextSelection_of_hidden h).onVisible
  | none =>
    simp only [nextSelection]
    split
    · next he =>
      intro j
      simp [List.isEmpty_iff.mp he]
    · exact (pickVisible_nearest visible 0).onVisible

/-! ### The panes among a folder's tabs -/

variable {s s' : Store} {f c : NodeId} {cs : List NodeId} {sel : Option Nat}

theorem isPane_eq_kindOf (s : Store) (x : NodeId) :
    s.isPane x = ((s.kindOf x).map NodeKind.isPane).getD false := by
  unfold isPane kindOf
  cases s.get? x <;> rfl

theorem isPane_eq_of_kindOf {x : NodeId} (h : s'.kindOf x = s.kindOf x) : s'.isPane x = s.isPane x := by
  rw [isPane_eq_kindOf, isPane_eq_kindOf, h]

theorem isPane_of_folder (hk : s.kindOf f = some (.folder cs sel)) : s.isPane f = false := by
  rw [isPane_eq_kindOf, hk]
  rfl

theorem isPane_eq_of_folderEdit {cs' : List NodeId} {sel' : Option Nat}
    (hk : s.kindOf f = some (.folder cs sel)) (hk' : s'.kindOf f = some (.folder cs' sel'))
    (hrest : ∀ x, f ≠ x → s'.kindOf x = s.kindOf x) : s'.isPane = s.isPane := by
  funext x
  by_cases hx : f = x
  · subst hx
    rw [isPane_of_folder hk, isPane_of_folder hk']
  · exact isPane_eq_of_kindOf (hrest x hx)

theorem getD_map_isPane {k : Nat} {x : NodeId} (h : cs[k]? = some x) :
    (cs.map s.isPane).getD k false = s.isPane x := by
  simp [List.getD_eq_getElem?_getD, h]

theorem kindOf_fixSelection_folder (hk : s.kindOf f = some (.folder cs sel)) :
    (s.fixSelection f).kindOf f = some (.folder cs (nextSelection (cs.map s.isPane) sel)) := by
  obtain ⟨⟨ident, parent, bounds, kind⟩, hn, hkind⟩ := Option.map_eq_some_iff.mp hk
  cases hkind
  simp only [fixSelection, hn]
  rw [kindOf_setKind_self, kindOf, hn]
  rfl

/-- A folder edit ends by giving the folder its new tabs and a selection to fix, and by setting
links; the fix then searches the panes the table had before. -/
theorem kindOf_folderEdit {cs' : List NodeId} {sel₀ : Option Nat} (hk : s.kindOf f = some (.folder cs sel))
    (g : Store → Store) (hg : ∀ t x, (g t).kindOf x = t.kindOf x) :
    ((g (s.setKind f (.folder cs' sel₀))).fixSelection f).kindOf f =
      some (.folder cs' (nextSelection (cs'.map s.isPane) sel₀)) := by
  have hk₁ : (g (s.setKind f (.folder cs' sel₀))).kindOf f = some (.folder cs' sel₀) := by
    rw [hg, kindOf_setKind_self, hk]
    rfl
  have hpane : (g (s.setKind f (.folder cs' sel₀))).isPane = s.isPane :=
    isPane_eq_of_folderEdit hk hk₁ fun x hx => by rw [hg, kindOf_setKind_of_ne _ _ hx]
  rw [kindOf_fixSelection_folder hk₁, hpane]

theorem childIndex_folder {i : Nat} (hk : s.kindOf f = some (.folder cs sel))
    (h : s.childIndex f c = .ok i) : cs.idxOf c = i ∧ c ∈ cs := by
  obtain ⟨pn, hpn, hkind⟩ := Option.map_eq_some_iff.mp hk
  obtain ⟨pn', hpn', hm, hidx⟩ := childIndex_eq_ok h
  rw [hpn] at hpn'
  cases hpn'
  rw [hkind] at hm hidx
  exact ⟨idxOf_eq_of_idxOf? (hidx rfl), by simpa [walkChildren] using hm⟩

theorem kindOf_insertChild_folder {i : Nat} {w : Float32} (hk : s.kindOf f = some (.folder cs sel))
    (h : s.insertChild f i c w = .ok s') :
    s'.kindOf f = some (.folder (cs.insertIdx (min i cs.length) c)
      (nextSelection ((cs.insertIdx (min i cs.length) c).map s.isPane)
        (sel.map fun k => if min i cs.length ≤ k then k + 1 else k))) := by
  obtain ⟨pn, hpn, hkind⟩ := Option.map_eq_some_iff.mp hk
  have hcc : s.contains c = true := insertChild_contains h
  unfold insertChild at h
  simp only [hcc, Bool.not_true, Bool.false_eq_true, if_false, node, hpn, except_ok_bind,
    hkind, except_pure_bind] at h
  rw [setParent_of_contains _ (by rwa [contains_setKind])] at h
  cases h
  -- the selection moves up by one when the tab goes in at or before it
  have hedit : ∀ sel₀, ((((s.setKind f (.folder (cs.insertIdx (min i cs.length) c) sel₀)).modify c
      fun n => { n with parent := some f }).fixSelection f).kindOf f =
      some (.folder (cs.insertIdx (min i cs.length) c)
        (nextSelection ((cs.insertIdx (min i cs.length) c).map s.isPane) sel₀))) := fun _ =>
    kindOf_folderEdit hk (fun t => t.modify c fun n => { n with parent := some f })
      fun t x => kindOf_setParentField t c x _
  cases sel with
  | none => exact hedit none
  | some k =>
    by_cases hle : min i cs.length ≤ k
    · simpa only [hle, if_true, Option.map_some] using hedit (some (k + 1))
    · simpa only [hle, if_false, Option.map_some] using hedit (some k)

theorem kindOf_removeChild_folder {w : Float32} (hk : s.kindOf f = some (.folder cs sel))
    (h : s.removeChild f c = .ok (w, s')) :
    s'.kindOf f = some (.folder (cs.eraseIdx (cs.idxOf c))
      (nextSelection ((cs.eraseIdx (cs.idxOf c)).map s.isPane)
        (selectionAfterRemoval (cs.eraseIdx (cs.idxOf c)).length (cs.idxOf c) sel))) := by
  obtain ⟨pn, hpn, hkind⟩ := Option.map_eq_some_iff.mp hk
  obtain ⟨-, -, -, -, -, hcc, -⟩ := removeChild_eq_ok h
  unfold removeChild at h
  cases hi : s.childIndex f c with
  | error e => simp [hi] at h
  | ok i =>
    obtain ⟨rfl, -⟩ := childIndex_folder hk hi
    simp only [hi, node, hpn, except_ok_bind, hkind, except_pure_bind] at h
    rw [setParent_of_contains _ (by rwa [contains_setKind])] at h
    cases h
    exact kindOf_folderEdit hk (fun t => t.modify c fun n => { n with parent := none })
      fun t x => kindOf_setParentField t c x _

theorem kindOf_replaceChild_folder {old new : NodeId} (hk : s.kindOf f = some (.folder cs sel))
    (h : s.replaceChild f old new = .ok s') :
    s'.kindOf f = some (.folder (cs.set (cs.idxOf old) new)
      (nextSelection ((cs.set (cs.idxOf old) new).map s.isPane) sel)) := by
  obtain ⟨pn, hpn, hkind⟩ := Option.map_eq_some_iff.mp hk
  obtain ⟨hoc, hnc, -⟩ := replaceChild_eq_ok h
  unfold replaceChild at h
  cases hi : s.childIndex f old with
  | error e => simp [hi] at h
  | ok i =>
    obtain ⟨rfl, -⟩ := childIndex_folder hk hi
    simp only [hi, hnc, Bool.not_true, Bool.false_eq_true, if_false, node, hpn, except_ok_bind,
      hkind, except_pure_bind] at h
    rw [setParent_of_contains _ (by rwa [contains_setKind]), except_ok_bind,
      setParent_of_contains _ (by rwa [contains_modify, contains_setKind])] at h
    cases h
    exact kindOf_folderEdit hk (fun t => (t.modify old fun n => { n with parent := none }).modify new
        fun n => { n with parent := some f })
      fun t x => by rw [kindOf_setParentField, kindOf_setParentField]

theorem nearestVisible_of_allHidden {visible : List Bool} {k : Nat} {r : Option Nat}
    (hidden : ∀ i, visible.getD i false = false) (h : OnVisible visible r) :
    NearestVisible visible k r := by
  cases r with
  | none => exact hidden
  | some i =>
    have := (hidden i).symm.trans h
    cases this

/-! ### Each edit of a folder's tabs -/

/-- Inserting a tab: the selection stays on a pane, and a selected pane stays selected, one slot
further on when the tab went in at or before it. -/
theorem insertChild_selection {i : Nat} {w : Float32} (hk : s.kindOf f = some (.folder cs sel))
    (h : s.insertChild f i c w = .ok s') :
    ∃ sel', s'.kindOf f = some (.folder (cs.insertIdx (min i cs.length) c) sel') ∧
      OnVisible ((cs.insertIdx (min i cs.length) c).map s'.isPane) sel' ∧
      ∀ k x, sel = some k → cs[k]? = some x → s.isPane x = true →
        sel' = some (if min i cs.length ≤ k then k + 1 else k) ∧ s'.selectedTab f = some x := by
  have hkind := kindOf_insertChild_folder hk h
  have hpane : s'.isPane = s.isPane :=
    isPane_eq_of_folderEdit hk hkind fun x hx => kindOf_insertChild h hx
  refine ⟨_, hkind, hpane ▸ nextSelection_onVisible _ _, fun k x hsel hx hpx => ?_⟩
  subst hsel
  have hlt : k < cs.length := (List.getElem?_eq_some_iff.mp hx).1
  -- the selected pane keeps its place among the others
  have hslot : (cs.insertIdx (min i cs.length) c)[if min i cs.length ≤ k then k + 1 else k]? =
      some x := by
    rw [List.getElem?_insertIdx]
    by_cases hle : min i cs.length ≤ k
    · rw [if_pos hle, if_neg (by omega), if_neg (by omega), Nat.add_sub_cancel]
      exact hx
    · rw [if_neg hle, if_pos (by omega)]
      exact hx
  have hkeep := nextSelection_of_visible ((getD_map_isPane hslot).trans hpx)
  rw [Option.map_some, hkeep] at hkind
  exact ⟨hkeep, by simp only [selectedTab, hkind, hslot]⟩

/-- Taking a tab out: the selection stays on a pane; a selected pane in another slot stays
selected, one slot back when the removed tab stood before it; a selected pane taken out passes
the selection to the nearest pane before its slot, else after it. -/
theorem removeChild_selection {w : Float32} (hk : s.kindOf f = some (.folder cs sel))
    (h : s.removeChild f c = .ok (w, s')) :
    ∃ sel', s'.kindOf f = some (.folder (cs.eraseIdx (cs.idxOf c)) sel') ∧
      OnVisible ((cs.eraseIdx (cs.idxOf c)).map s'.isPane) sel' ∧
      ∀ k x, sel = some k → cs[k]? = some x → s.isPane x = true →
        (cs.idxOf c ≠ k →
          sel' = some (if cs.idxOf c < k then k - 1 else k) ∧ s'.selectedTab f = some x) ∧
        (cs.idxOf c = k → NearestVisible ((cs.eraseIdx k).map s'.isPane) k sel') := by
  have hkind := kindOf_removeChild_folder hk h
  have hpane : s'.isPane = s.isPane :=
    isPane_eq_of_folderEdit hk hkind fun x hx => kindOf_removeChild h hx
  refine ⟨_, hkind, hpane ▸ nextSelection_onVisible _ _, fun k x hsel hx hpx => ?_⟩
  subst hsel
  rw [hpane]
  have hlt : k < cs.length := (List.getElem?_eq_some_iff.mp hx).1
  have hj : cs.idxOf c < cs.length := by
    obtain ⟨pn, -, -, hc, -⟩ := removeChild_eq_ok h
    have hmem : c ∈ cs := by
      obtain ⟨i, hi⟩ : ∃ i, s.childIndex f c = .ok i := by
        cases hi : s.childIndex f c with
        | ok i => exact ⟨i, rfl⟩
        | error e => simp [removeChild, hi] at h
      exact (childIndex_folder hk hi).2
    exact List.idxOf_lt_length_iff.mpr hmem
  have hlen : (cs.eraseIdx (cs.idxOf c)).length = cs.length - 1 := by
    rw [List.length_eraseIdx, if_pos hj]
  refine ⟨fun hne => ?_, fun heq => ?_⟩
  · -- the selected slot stays: it moves back by one past the removed tab
    have hsel₀ : selectionAfterRemoval (cs.eraseIdx (cs.idxOf c)).length (cs.idxOf c) (some k) =
        some (if cs.idxOf c < k then k - 1 else k) := by
      unfold selectionAfterRemoval
      rw [if_neg (by omega)]
      dsimp only
      by_cases hjk : cs.idxOf c < k
      · rw [if_pos hjk, if_pos hjk]
      · rw [if_neg hjk, if_neg hjk, if_neg (Ne.symm hne)]
    have hslot : (cs.eraseIdx (cs.idxOf c))[if cs.idxOf c < k then k - 1 else k]? = some x := by
      rw [List.getElem?_eraseIdx]
      by_cases hjk : cs.idxOf c < k
      · rw [if_pos hjk, if_neg (by omega), Nat.sub_add_cancel (by omega)]
        exact hx
      · rw [if_neg hjk, if_pos (by omega)]
        exact hx
    have hkeep := nextSelection_of_visible ((getD_map_isPane hslot).trans hpx)
    rw [hsel₀, hkeep] at hkind
    exact ⟨by rw [hsel₀, hkeep], by simp only [selectedTab, hkind, hslot]⟩
  · -- the selected pane went: the search starts from the slot before
    subst heq
    by_cases hempty : (cs.eraseIdx (cs.idxOf c)).length = 0
    · have hnil : (cs.eraseIdx (cs.idxOf c)).map s.isPane = [] := by
        rw [List.map_eq_nil_iff, ← List.length_eq_zero_iff, hempty]
      rw [hnil]
      exact nearestVisible_of_allHidden (fun i => rfl) (nextSelection_onVisible _ _)
    · have hsel₀ : selectionAfterRemoval (cs.eraseIdx (cs.idxOf c)).length (cs.idxOf c)
          (some (cs.idxOf c)) = some (cs.idxOf c - 1) := by
        unfold selectionAfterRemoval
        rw [if_neg hempty]
        dsimp only
        rw [if_neg (Nat.lt_irrefl _), if_pos rfl]
      rw [hsel₀]
      cases hv : ((cs.eraseIdx (cs.idxOf c)).map s.isPane).getD (cs.idxOf c - 1) false with
      | true =>
        rw [nextSelection_of_visible hv]
        refine ⟨hv, ?_⟩
        by_cases hz : cs.idxOf c = 0
        · exact .inr ⟨by omega, fun j hj => by omega⟩
        · exact .inl ⟨by omega, fun j h₁ h₂ => by omega⟩
      | false =>
        refine (nearestVisible_iff_of_hidden (Nat.sub_le _ 1) fun j hj hj' => ?_).mp
          (nextSelection_of_hidden hv)
        rwa [show j = cs.idxOf c - 1 by omega]

/-- Putting a node in a tab's slot: the selection stays on a pane; a selected pane in another
slot stays selected; a selected pane whose slot now holds a pane leaves the selection on it,
and one whose slot now holds no pane passes it to the nearest pane before the slot, else
after it. -/
theorem replaceChild_selection {old new : NodeId} (hk : s.kindOf f = some (.folder cs sel))
    (h : s.replaceChild f old new = .ok s') :
    ∃ sel', s'.kindOf f = some (.folder (cs.set (cs.idxOf old) new) sel') ∧
      OnVisible ((cs.set (cs.idxOf old) new).map s'.isPane) sel' ∧
      ∀ k x, sel = some k → cs[k]? = some x → s.isPane x = true →
        (cs.idxOf old ≠ k → sel' = some k ∧ s'.selectedTab f = some x) ∧
        (cs.idxOf old = k → s'.isPane new = true → sel' = some k ∧ s'.selectedTab f = some new) ∧
        (cs.idxOf old = k → s'.isPane new = false →
          NearestVisible ((cs.set k new).map s'.isPane) k sel') := by
  have hkind := kindOf_replaceChild_folder hk h
  have hpane : s'.isPane = s.isPane :=
    isPane_eq_of_folderEdit hk hkind fun x hx => kindOf_replaceChild h hx
  refine ⟨_, hkind, hpane ▸ nextSelection_onVisible _ _, fun k x hsel hx hpx => ?_⟩
  subst hsel
  rw [hpane]
  have hlt : k < cs.length := (List.getElem?_eq_some_iff.mp hx).1
  refine ⟨fun hne => ?_, fun heq hnew => ?_, fun heq hnew => ?_⟩
  · -- another slot took the new node: the selected pane is where it was
    have hslot : (cs.set (cs.idxOf old) new)[k]? = some x := by
      rw [List.getElem?_set_ne hne]
      exact hx
    have hkeep := nextSelection_of_visible ((getD_map_isPane hslot).trans hpx)
    rw [hkeep] at hkind
    exact ⟨hkeep, by simp only [selectedTab, hkind, hslot]⟩
  · have hslot : (cs.set (cs.idxOf old) new)[k]? = some new := by
      rw [heq]
      exact List.getElem?_set_self hlt
    have hkeep := nextSelection_of_visible ((getD_map_isPane hslot).trans hnew)
    rw [hkeep] at hkind
    exact ⟨hkeep, by simp only [selectedTab, hkind, hslot]⟩
  · rw [← heq]
    have hslot : (cs.set (cs.idxOf old) new)[k]? = some new := by
      rw [heq]
      exact List.getElem?_set_self hlt
    rw [heq]
    exact nextSelection_of_hidden ((getD_map_isPane (heq ▸ hslot)).trans hnew)

/-- Fixing a folder's selection on its own: the selection ends on a pane, and one already on a
pane stays. -/
theorem fixSelection_selection (hk : s.kindOf f = some (.folder cs sel)) :
    ∃ sel', (s.fixSelection f).kindOf f = some (.folder cs sel') ∧
      OnVisible (cs.map (s.fixSelection f).isPane) sel' ∧
      ∀ k x, sel = some k → cs[k]? = some x → s.isPane x = true → sel' = some k := by
  have hkind := kindOf_fixSelection_folder hk
  have hpane : (s.fixSelection f).isPane = s.isPane :=
    isPane_eq_of_folderEdit hk hkind fun x hx => kindOf_fixSelection_of_ne s hx
  refine ⟨_, hkind, hpane ▸ nextSelection_onVisible _ _, fun k x hsel hx hpx => ?_⟩
  subst hsel
  exact nextSelection_of_visible ((getD_map_isPane hx).trans hpx)

/-! ### Main statement -/

/-- How the selection of the folder `f`, whose tabs are `cs` and whose selection is `sel` in
`s`, follows each edit of its tabs. After the edit the selection rests on a pane and is none
exactly when no tab is a pane (`OnVisible`); and when it was on a pane:

* a pane whose slot the edit left alone is still selected, its index shifted past the tab that
  went in or out;
* a slot refilled with a pane keeps the selection, now on the new pane;
* a pane taken out, or whose slot now holds no pane, hands the selection to the nearest pane
  before its slot, else the nearest one after it (`NearestVisible`).

An edit names the slot of the first tab holding its node. -/
structure FollowsTabs (s : Store) (f : NodeId) (cs : List NodeId) (sel : Option Nat) : Prop where
  insert : ∀ (i : Nat) (c : NodeId) (w : Float32) (s' : Store), s.insertChild f i c w = .ok s' →
    ∃ sel', s'.kindOf f = some (.folder (cs.insertIdx (min i cs.length) c) sel') ∧
      OnVisible ((cs.insertIdx (min i cs.length) c).map s'.isPane) sel' ∧
      ∀ k x, sel = some k → cs[k]? = some x → s.isPane x = true →
        sel' = some (if min i cs.length ≤ k then k + 1 else k) ∧ s'.selectedTab f = some x
  remove : ∀ (c : NodeId) (w : Float32) (s' : Store), s.removeChild f c = .ok (w, s') →
    ∃ sel', s'.kindOf f = some (.folder (cs.eraseIdx (cs.idxOf c)) sel') ∧
      OnVisible ((cs.eraseIdx (cs.idxOf c)).map s'.isPane) sel' ∧
      ∀ k x, sel = some k → cs[k]? = some x → s.isPane x = true →
        (cs.idxOf c ≠ k →
          sel' = some (if cs.idxOf c < k then k - 1 else k) ∧ s'.selectedTab f = some x) ∧
        (cs.idxOf c = k → NearestVisible ((cs.eraseIdx k).map s'.isPane) k sel')
  replace : ∀ (old new : NodeId) (s' : Store), s.replaceChild f old new = .ok s' →
    ∃ sel', s'.kindOf f = some (.folder (cs.set (cs.idxOf old) new) sel') ∧
      OnVisible ((cs.set (cs.idxOf old) new).map s'.isPane) sel' ∧
      ∀ k x, sel = some k → cs[k]? = some x → s.isPane x = true →
        (cs.idxOf old ≠ k → sel' = some k ∧ s'.selectedTab f = some x) ∧
        (cs.idxOf old = k → s'.isPane new = true →
          sel' = some k ∧ s'.selectedTab f = some new) ∧
        (cs.idxOf old = k → s'.isPane new = false →
          NearestVisible ((cs.set k new).map s'.isPane) k sel')
  fix : ∃ sel', (s.fixSelection f).kindOf f = some (.folder cs sel') ∧
    OnVisible (cs.map (s.fixSelection f).isPane) sel' ∧
    ∀ k x, sel = some k → cs[k]? = some x → s.isPane x = true → sel' = some k

/-- Every tab folder's selection follows its tabs through every edit. -/
theorem selection_follows_tabs {s : Store} {f : NodeId} {cs : List NodeId} {sel : Option Nat}
    (hk : s.kindOf f = some (.folder cs sel)) : FollowsTabs s f cs sel :=
  ⟨fun _ _ _ _ h => insertChild_selection hk h, fun _ _ _ h => removeChild_selection hk h,
    fun _ _ _ h => replaceChild_selection hk h, fixSelection_selection hk⟩

/-- A folder with two panes, the second one selected. -/
def twoTabs : Store :=
  ⟨#[some ⟨"folder-0", none, Rect.zero, .folder [⟨1⟩, ⟨2⟩] (some 1)⟩,
    some ⟨"a", some ⟨0⟩, Rect.zero, .pane ⟨"a", .view⟩⟩,
    some ⟨"b", some ⟨0⟩, Rect.zero, .pane ⟨"b", .view⟩⟩]⟩

theorem selection_follows_tabs_twoTabs :
    twoTabs.kindOf ⟨0⟩ = some (.folder [⟨1⟩, ⟨2⟩] (some 1)) ∧
      FollowsTabs twoTabs ⟨0⟩ [⟨1⟩, ⟨2⟩] (some 1) :=
  ⟨rfl, selection_follows_tabs rfl⟩

/-- A placeholder taking the selected pane's slot passes the selection to the pane before it. -/
example : (match (twoTabs.alloc "b" (.placeholder "b")).2.replaceChild ⟨0⟩ ⟨2⟩ ⟨3⟩ with
    | .ok s => s.selectedTab ⟨0⟩
    | .error _ => none) = some ⟨1⟩ := by
  decide

end Store

end Docking
