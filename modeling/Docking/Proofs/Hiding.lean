import Docking.Proofs.ShownPanes
import Docking.Proofs.Beside
import Mathlib.Data.List.Flatten
import Mathlib.Data.List.Find
import Mathlib.Data.Multiset.AddSub
/-!
# What hiding a pane changes

Hiding a pane (`LayoutM.removePane`) puts a placeholder into the pane's slot and frees the
pane; then it folds the containers above that show no pane any more (main window), or parks
the pane's detached window when the pane was the last one it showed. Nothing else one can
see changes (`Layout.HidesPane`): the placeholder has the pane's container, index and weight,
the shown panes lose exactly that part, every other pane stays in its window, and the window
is parked exactly when the pane was its last. Retaining panes (`LayoutM.retainPanes`) hides
the rejected ones one by one, so it leaves the accepted panes in their order and a
placeholder for each rejected one.

The proofs read the walks behind `Layout.panes` through the views of the node table, one
edit at a time: the placeholder taking the pane's slot (`contains_hide` and its siblings),
one fold (`FoldsKeep.fold`), and the parking of a window.
-/

namespace Docking

theorem NodeKind.weights_eq_nil {k : NodeKind} (h : k.form ≠ .split) : k.weights = [] := by
  cases k with
  | split => exact absurd rfl h
  | _ => rfl

namespace Store

variable {s s' : Store}

/-! ### Window roots -/

theorem parent?_climb_eq_none : ∀ (k : Nat) (x : NodeId),
    (s.ancestorsFrom k x).length < k → s.parent? (s.climb k x) = none
  | 0, _, h => absurd h (Nat.not_lt_zero _)
  | k + 1, x, h => by
    cases hp : s.parent? x with
    | none => simp [climb, hp]
    | some p =>
      rw [ancestorsFrom_succ_of_parent hp, List.length_cons] at h
      simpa [climb, hp] using parent?_climb_eq_none k p (by omega)

theorem Forest.parent?_rootOf (hf : s.Forest) (x : NodeId) : s.parent? (s.rootOf x) = none := by
  refine parent?_climb_eq_none _ x ?_
  cases hp : s.parent? x with
  | none => simp [ancestorsFrom_of_top hp, depthBound]
  | some p =>
    have := hf.length_ancestorsFrom_lt s.depthBound (contains_of_parent? hp)
    unfold depthBound at this ⊢
    omega

theorem Forest.rootOf_eq (hf : s.Forest) {x t : NodeId} (hu : Under s.parent? t x)
    (ht : s.parent? t = none) : s.rootOf x = t :=
  hf.top_unique (climb_under s _ x) hu (hf.parent?_rootOf x) ht

theorem Forest.contains_of_under (hf : s.Forest) {t m : NodeId} (hu : Under s.parent? t m)
    (hm : s.contains m = true) : s.contains t = true := by
  rcases hu with rfl | ha
  · exact hm
  · obtain ⟨c, hc⟩ := ha.exists_child
    exact hf.contains_of_parent hc

theorem Forest.rootOf_congr (hf : s.Forest) (hf' : s'.Forest) {m : NodeId}
    (hup : ∀ t, Above s.parent? t m → Above s'.parent? t m)
    (htop : ∀ t, Under s.parent? t m → s.parent? t = none → s'.parent? t = none) :
    s'.rootOf m = s.rootOf m := by
  have hu : Under s.parent? (s.rootOf m) m := climb_under s _ m
  refine hf'.rootOf_eq ?_ (htop _ hu (hf.parent?_rootOf m))
  rcases hu with he | ha
  · exact .inl he
  · exact .inr (hup _ ha)

theorem IsLeaf.of_leafOf {x : NodeId} (h : s'.leafOf = s.leafOf) (hx : s.IsLeaf x) :
    s'.IsLeaf x := by
  obtain ⟨f, hf, hl⟩ := hx
  have hx' : (s'.form? x).filter Form.isLeaf = some f := by
    rw [← leafOf, h, leafOf, hf, Option.filter_eq_some_iff]
    exact ⟨rfl, hl⟩
  exact ⟨f, (Option.filter_eq_some_iff.mp hx').1, hl⟩

/-! ### Lists of nodes and parts -/

theorem contains_of_isPane {x : NodeId} (h : s.isPane x = true) : s.contains x = true := by
  unfold isPane at h
  cases hx : s.get? x with
  | none => simp [hx] at h
  | some _ => exact (contains_iff s x).mpr ⟨_, hx⟩

/-- Leaving out one node that shows a part shows one part fewer. -/
theorem length_filterMap_drop {L : List NodeId} {f : NodeId → Option PartId} {n : NodeId}
    (hnd : L.Nodup) (hn : n ∈ L) (hfn : (f n).isSome) :
    (L.filterMap fun y => if y = n then none else f y).length + 1 = (L.filterMap f).length := by
  induction L with
  | nil => cases hn
  | cons a L ih =>
    obtain ⟨ha, hnd⟩ := List.nodup_cons.mp hnd
    by_cases han : a = n
    · subst han
      obtain ⟨v, hv⟩ := Option.isSome_iff_exists.mp hfn
      have hrest : (L.filterMap fun y => if y = a then none else f y) = L.filterMap f :=
        List.filterMap_congr fun y hy => if_neg (by rintro rfl; exact ha hy)
      rw [List.filterMap_cons, if_pos rfl, hrest, List.filterMap_cons, hv, List.length_cons]
    · have hnL : n ∈ L := (List.mem_cons.mp hn).resolve_left (Ne.symm han)
      rw [List.filterMap_cons, if_neg han, List.filterMap_cons]
      cases f a with
      | none => exact ih hnd hnL
      | some w =>
        have := ih hnd hnL
        simp only [List.length_cons]
        omega

/-- Over distinct slots, reading a part off one more slot adds that part once. -/
theorem coe_filterMap_update {L : List Nat} {g g' : Nat → Option PartId} {a : Nat} {v : PartId}
    (hnd : L.Nodup) (ha : a ∈ L) (hg : g a = none) (hg' : g' a = some v)
    (hrest : ∀ x ∈ L, x ≠ a → g' x = g x) :
    (L.filterMap g' : Multiset PartId) = v ::ₘ (L.filterMap g : Multiset PartId) := by
  induction L with
  | nil => cases ha
  | cons x L ih =>
    obtain ⟨hx, hnd⟩ := List.nodup_cons.mp hnd
    by_cases hxa : x = a
    · subst hxa
      have hL : L.filterMap g' = L.filterMap g := List.filterMap_congr fun y hy =>
        hrest y (List.mem_cons_of_mem _ hy) (by rintro rfl; exact hx hy)
      rw [List.filterMap_cons, hg', List.filterMap_cons, hg, hL]
      rfl
    · have haL : a ∈ L := (List.mem_cons.mp ha).resolve_left (Ne.symm hxa)
      have ih' := ih hnd haL fun y hy => hrest y (List.mem_cons_of_mem _ hy)
      rw [List.filterMap_cons, hrest x List.mem_cons_self hxa, List.filterMap_cons]
      cases g x with
      | none => exact ih'
      | some w =>
        dsimp only
        rw [← Multiset.cons_coe, ← Multiset.cons_coe, ih', Multiset.cons_swap]

/-- Dropping items whose share of a `flatMap` is empty changes nothing. -/
theorem flatMap_filter_of_nil {α β : Type} {L : List α} {P : α → Bool} {G : α → List β}
    (h : ∀ x ∈ L, P x = false → G x = []) : (L.filter P).flatMap G = L.flatMap G := by
  induction L with
  | nil => rfl
  | cons x L ih =>
    have ih' := ih fun y hy => h y (List.mem_cons_of_mem _ hy)
    rw [List.filter_cons, List.flatMap_cons]
    cases hx : P x with
    | true => rw [if_pos rfl, List.flatMap_cons, ih']
    | false => rw [if_neg Bool.false_ne_true, h x List.mem_cons_self hx, List.nil_append, ih']

/-! ### A placeholder takes the slot of a pane

The first edits of hiding the pane `n` of `p`: a placeholder for `part`, the new node
`s.nextId`, takes the slot of `n` in `p`, and `n` is freed. Every view of the table after
them is the view before, changed at `n`, `p` and the placeholder. -/

section Hide

variable {s₂ : Store} {part : PartId} {n p : NodeId} (hf : s.Forest) (hf₂ : s₂.Forest)
  (hleaf : s.IsLeaf n) (hpar : s.parent? n = some p)
  (h₂ : (s.alloc part (.placeholder part)).2.replaceChild p n s.nextId = .ok s₂)

include hf₂ hleaf h₂ in
theorem under_hide_iff {y : NodeId} : Under s₂.parent? n y ↔ y = n := by
  have hleaf₂ : s₂.IsLeaf n := (IsLeaf.congr ((form?_replaceChild h₂ n).trans
    (form?_alloc_of_contains hleaf.contains _ _))).mpr hleaf
  rw [hf₂.under_leaf_iff hleaf₂, eq_comm]

include hf₂ hleaf h₂ in
theorem contains_hide {y : NodeId} (hyn : y ≠ n) (hyh : y ≠ s.nextId) :
    (s₂.free n).contains y = s.contains y := by
  simp only [hf₂.contains_free, under_hide_iff hf₂ hleaf h₂, hyn, decide_false, Bool.not_false,
    Bool.true_and, contains_replaceChild h₂]
  exact Bool.eq_iff_iff.mpr ((contains_alloc _ _ _ _).trans (or_iff_right hyh))

include hf₂ hleaf h₂ in
theorem contains_hide_holder : (s₂.free n).contains s.nextId = true := by
  have hnh : s.nextId ≠ n := (ne_nextId_of_contains hleaf.contains).symm
  simp only [hf₂.contains_free, under_hide_iff hf₂ hleaf h₂, hnh, decide_false, Bool.not_false,
    Bool.true_and, contains_replaceChild h₂]
  exact (contains_alloc _ _ _ _).mpr (.inl rfl)

include hf₂ hleaf h₂ in
theorem form?_hide {y : NodeId} (hyn : y ≠ n) :
    (s₂.free n).form? y = if y = s.nextId then some (.placeholder part) else s.form? y := by
  rw [hf₂.form?_free, if_neg fun hu => hyn ((under_hide_iff hf₂ hleaf h₂).mp hu),
    form?_replaceChild h₂, form?_alloc]
  rfl

include hf₂ hleaf h₂ in
theorem held_hide {y : NodeId} (hyp : y ≠ p) (hyh : y ≠ s.nextId) :
    (s₂.free n).held y = s.held y := by
  rw [hf₂.held_free]
  split
  · next hu =>
    rw [(under_hide_iff hf₂ hleaf h₂).mp hu, held_eq_nil_of_isLeaf hleaf]
  · rw [held_replaceChild h₂, if_neg hyp, held_alloc, if_neg hyh]

include hf hf₂ hleaf hpar h₂ in
theorem held_hide_parent :
    (s₂.free n).held p = (s.held p).set ((s.held p).idxOf n) s.nextId := by
  rw [hf₂.held_free, if_neg fun hu => hf.ne_of_parent hpar ((under_hide_iff hf₂ hleaf h₂).mp hu).symm,
    held_replaceChild h₂, if_pos rfl, held_alloc_of_contains (hf.contains_of_parent hpar)]

include hf hf₂ hleaf hpar h₂ in
theorem held_hide_holder : (s₂.free n).held s.nextId = [] := by
  have hnh : s.nextId ≠ n := (ne_nextId_of_contains hleaf.contains).symm
  have hph : s.nextId ≠ p := (ne_nextId_of_contains (hf.contains_of_parent hpar)).symm
  rw [hf₂.held_free, if_neg fun hu => hnh ((under_hide_iff hf₂ hleaf h₂).mp hu),
    held_replaceChild h₂, if_neg hph, held_alloc, if_pos rfl]
  rfl

include hf₂ hleaf h₂ in
theorem parent?_hide {y : NodeId} (hyn : y ≠ n) (hyh : y ≠ s.nextId) :
    (s₂.free n).parent? y = s.parent? y := by
  rw [hf₂.parent?_free, if_neg fun hu => hyn ((under_hide_iff hf₂ hleaf h₂).mp hu),
    parent?_replaceChild h₂, if_neg hyh, if_neg hyn, parent?_alloc, if_neg hyh]

include hf₂ hleaf h₂ in
theorem parent?_hide_holder : (s₂.free n).parent? s.nextId = some p := by
  have hnh : s.nextId ≠ n := (ne_nextId_of_contains hleaf.contains).symm
  rw [hf₂.parent?_free, if_neg fun hu => hnh ((under_hide_iff hf₂ hleaf h₂).mp hu),
    parent?_replaceChild h₂, if_pos rfl]

include hf hf₂ hleaf hpar h₂ in
theorem kindOf_hide_holder : (s₂.free n).kindOf s.nextId = some (.placeholder part) := by
  have hnh : s.nextId ≠ n := (ne_nextId_of_contains hleaf.contains).symm
  have hph : p ≠ s.nextId := ne_nextId_of_contains (hf.contains_of_parent hpar)
  rw [hf₂.kindOf_free, if_neg fun hu => hnh ((under_hide_iff hf₂ hleaf h₂).mp hu),
    kindOf_replaceChild h₂ hph, kindOf_alloc_self]

include hf hf₂ hleaf hpar h₂ in
/-- The container keeps its weights: the placeholder takes the pane's weight. -/
theorem weights_hide :
    ((s₂.free n).kindOf p).map NodeKind.weights = (s.kindOf p).map NodeKind.weights := by
  have hpc : s.contains p = true := hf.contains_of_parent hpar
  have hk₁ : (s.alloc part (.placeholder part)).2.kindOf p = s.kindOf p :=
    kindOf_alloc_of_ne _ _ _ (ne_nextId_of_contains hpc)
  rw [hf₂.kindOf_free,
    if_neg fun hu => hf.ne_of_parent hpar ((under_hide_iff hf₂ hleaf h₂).mp hu).symm]
  obtain ⟨k, hk⟩ := Option.isSome_iff_exists.mp ((contains_iff_kindOf s p).mp hpc)
  cases k with
  | split o cs ws =>
    obtain ⟨i, -, hk₂⟩ := kindOf_replaceChild_split (hk₁.trans hk) h₂
    rw [hk₂, hk]
    rfl
  | _ =>
    -- the edits keep the form of `p`, and no form other than a split has weights
    have hform : (s₂.kindOf p).map NodeKind.form = (s.kindOf p).map NodeKind.form := by
      rw [← form?_eq_map_kindOf, ← form?_eq_map_kindOf, form?_replaceChild h₂,
        form?_alloc_of_contains hpc]
    rw [hk] at hform ⊢
    obtain ⟨k₂, hk₂, hform₂⟩ := Option.map_eq_some_iff.mp hform
    rw [hk₂, Option.map_some, Option.map_some, NodeKind.weights_eq_nil (by rw [hform₂]; nofun),
      NodeKind.weights_eq_nil (by nofun)]

include hf hf₂ hleaf hpar h₂ in
theorem children_hide (hp : s.IsContainer p) :
    (s₂.free n).children p = (s.children p).set ((s.children p).idxOf n) s.nextId := by
  have hp₃ : (s₂.free n).IsContainer p := (IsContainer.congr
    ((form?_hide hf₂ hleaf h₂ (hf.ne_of_parent hpar).symm).trans
      (if_neg (ne_nextId_of_contains hp.contains)))).mpr hp
  rw [← held_eq_children hp₃, ← held_eq_children hp, held_hide_parent hf hf₂ hleaf hpar h₂]

include hf₂ hleaf h₂ in
/-- The pane stops carrying its part, and the placeholder carries it. -/
theorem leafOf_hide (y : NodeId) : (s₂.free n).leafOf y =
    if y = s.nextId then some (.placeholder part) else if y = n then none else s.leafOf y := by
  by_cases hyn : y = n
  · rw [hyn, if_neg (ne_nextId_of_contains hleaf.contains), if_pos rfl, leafOf, hf₂.form?_free,
      if_pos (.refl _)]
    rfl
  · rw [if_neg hyn, leafOf, form?_hide hf₂ hleaf h₂ hyn]
    split
    · rfl
    · rfl

include hf hf₂ hleaf hpar h₂ in
/-- A walk from a node of the table other than the pane shows what it showed, the pane left
out. -/
theorem shownParts_hide (hf₃ : (s₂.free n).Forest) (hpc : s.form? p ≠ some .collapsed)
    {r : NodeId} (hr : s.contains r = true) (hrn : r ≠ n) :
    ((s₂.free n).walk r false).filterMap (s₂.free n).paneAt =
      (s.walk r false).filterMap fun y => if y = n then none else s.paneAt y := by
  have hnh : n ≠ s.nextId := ne_nextId_of_contains hleaf.contains
  have hwalk : (s₂.free n).walk r false =
      (s.walk r false).map fun y => if y = n then s.nextId else y := by
    rw [← hf₃.walkFrom_stable (le_max_right s.depthBound (s₂.free n).depthBound),
      ← hf.walkFrom_stable (le_max_left s.depthBound (s₂.free n).depthBound)]
    exact walkFrom_replaceLeaf hf hpar (fun _ hyn hyh => contains_hide hf₂ hleaf h₂ hyn hyh)
      (fun _ hyn hyh => (form?_hide hf₂ hleaf h₂ hyn).trans (if_neg hyh))
      (fun _ hyp hyh => held_hide hf₂ hleaf h₂ hyp hyh) (held_hide_parent hf hf₂ hleaf hpar h₂)
      hpc (held_eq_nil_of_isLeaf hleaf) (contains_hide_holder hf₂ hleaf h₂)
      (held_hide_holder hf hf₂ hleaf hpar h₂) (contains_nextId s) _ r hrn
      (ne_nextId_of_contains hr)
  rw [hwalk, List.filterMap_map]
  refine List.filterMap_congr fun y hy => ?_
  have hyh : y ≠ s.nextId := ne_nextId_of_contains (hf.mem_walk hy).1
  by_cases hyn : y = n
  · -- the placeholder in the pane's place shows no pane
    rw [Function.comp_apply, if_pos hyn, if_pos hyn, paneAt_eq_form,
      form?_hide hf₂ hleaf h₂ hnh.symm, if_pos rfl]
    rfl
  · rw [Function.comp_apply, if_neg hyn, if_neg hyn, paneAt_eq_form, paneAt_eq_form,
      form?_hide hf₂ hleaf h₂ hyn, if_neg hyh]

include hf₂ hleaf h₂ in
/-- The placeholders keep places for the hidden part once more. -/
theorem placeholderParts_hide {pn : Pane} (hform : s.form? n = some (.pane pn)) :
    (s₂.free n).placeholderParts = part ::ₘ s.placeholderParts := by
  have hpick : ∀ f : Form, f.isLeaf = false → f.placeholderPart = none := fun f hf => by
    cases f <;> simp_all [Form.isLeaf, Form.placeholderPart]
  have hlt : s.nextId.val < max s.slots.size (s₂.free n).slots.size := by
    obtain ⟨_, hn⟩ := (contains_iff _ _).mp (contains_hide_holder hf₂ hleaf h₂)
    exact lt_of_lt_of_le (lt_size_of_get? hn) (le_max_right _ _)
  rw [placeholderParts, placeholderParts, parts_eq_range (s₂.free n) hpick (le_max_right _ _),
    parts_eq_range s hpick (le_max_left _ (s₂.free n).slots.size)]
  refine coe_filterMap_update List.nodup_range (List.mem_range.mpr hlt) ?_ ?_ fun i _ hi => ?_
  · rw [leafOf, form?_eq_none_iff.mpr (by simpa [contains] using contains_nextId s)]
    rfl
  · rw [leafOf_hide hf₂ hleaf h₂, if_pos rfl]
    rfl
  · -- off the placeholder, only the pane changed, and a pane keeps no place
    have hi' : (⟨i⟩ : NodeId) ≠ s.nextId := fun he => hi (by rw [← he])
    rw [leafOf_hide hf₂ hleaf h₂, if_neg hi']
    split
    · next he => rw [he, leafOf, hform]; rfl
    · rfl

end Hide

/-! ### One fold

The container `cur` of `pp` goes behind a new collapsed node, which takes its slot. -/

section Fold

variable {ident : String} {cur pp : NodeId} {s₂ s₃ : Store} (hf : s.Forest)
  (hcur : s.parent? cur = some pp)
  (h₂ : (s.alloc ident (.collapsed cur)).2.replaceChild pp cur s.nextId = .ok s₂)
  (h₃ : s₂.setParent cur (some s.nextId) = .ok s₃)

include hf hcur h₂ h₃ in
/-- Every node of the table keeps the root of its window: the fold only makes a path longer. -/
theorem rootOf_fold {m : NodeId} (hm : s.contains m = true) : s₃.rootOf m = s.rootOf m := by
  have hpar := parent?_fold hcur h₂ h₃
  have hcn : cur ≠ s.nextId := ne_nextId_of_contains (contains_of_parent? hcur)
  refine hf.rootOf_congr (hf.fold hcur h₂ h₃) (fun t ht => above_of_shortcut ?_ ht)
    fun t hu ht => ?_
  · intro x q hq
    by_cases hx : x = cur
    · -- the link from `cur` to `pp` now goes through the collapsed node
      subst hx
      obtain rfl : q = pp := Option.some.inj (hq.symm.trans hcur)
      exact .up (by rw [hpar, if_pos rfl]) (.parent (by rw [hpar, if_neg hcn.symm, if_pos rfl]))
    · have hxn : x ≠ s.nextId := ne_nextId_of_contains (contains_of_parent? hq)
      exact .parent (by rw [hpar, if_neg hx, if_neg hxn]; exact hq)
  · -- a root is neither `cur`, which has a container, nor the new node
    have htc : t ≠ cur := fun he => by
      rw [he, hcur] at ht
      cases ht
    have htn : t ≠ s.nextId := ne_nextId_of_contains (hf.contains_of_under hu hm)
    rw [hpar, if_neg htc, if_neg htn, ht]

include h₂ h₃ in
theorem kindOf_fold {x : NodeId} (hx : x ≠ pp) (hxn : x ≠ s.nextId) :
    s₃.kindOf x = s.kindOf x := by
  obtain ⟨-, rfl⟩ := setParent_eq_ok h₃
  rw [kindOf_setParentField, kindOf_replaceChild h₂ (Ne.symm hx), kindOf_alloc_of_ne _ _ _ hxn]

include h₂ h₃ in
theorem leafOf_fold : s₃.leafOf = s.leafOf := funext fun x => by
  unfold leafOf
  rw [form?_fold h₂ h₃]
  split
  · next hx =>
    rw [hx, form?_eq_none_iff.mpr (by simpa [contains] using contains_nextId s)]
    rfl
  · rfl

include hcur h₂ h₃ in
theorem parent?_fold_leaf {x : NodeId} (hx : s.IsLeaf x) (hcc : s.IsContainer cur) :
    s₃.parent? x = s.parent? x := by
  have hxc : x ≠ cur := fun he => hx.not_isContainer (he ▸ hcc)
  rw [parent?_fold hcur h₂ h₃, if_neg hxc, if_neg (ne_nextId_of_contains hx.contains)]

include hf hcur h₂ h₃ in
/-- A walk from a node of the table shows the same panes after folding a container that shows
none. -/
theorem shownParts_fold_walk (hpp : s.form? pp ≠ some .collapsed) (hc : s.countPanes cur = 0)
    {r : NodeId} (hr : s.contains r = true) :
    (s₃.walk r false).filterMap s₃.paneAt = (s.walk r false).filterMap s.paneAt := by
  have hheld := hf.held_fold hcur h₂ h₃
  rw [← (hf.fold hcur h₂ h₃).walkFrom_stable (le_max_right s.depthBound s₃.depthBound),
    ← hf.walkFrom_stable (le_max_left s.depthBound s₃.depthBound)]
  exact shownParts_fold hf hcur
    (fun y hy => Bool.eq_iff_iff.mpr ((contains_fold h₂ h₃ y).trans (or_iff_right hy)))
    (fun y hy => by rw [form?_fold h₂ h₃, if_neg hy])
    (fun y hyp hyh => by rw [hheld, if_neg hyp, if_neg hyh])
    (by rw [hheld, if_pos rfl]) hpp (by rw [form?_fold h₂ h₃, if_pos rfl]) (contains_nextId s) hc
    _ r (ne_nextId_of_contains hr)

end Fold

end Store

namespace Layout

open Store

variable {l l' : Layout} {E : List NodeId}

/-! ### The shown nodes -/

/-- The nodes the windows show, the main window's first, staying out of collapsed
containers. -/
def shown (l : Layout) : List NodeId := l.windowRoots.flatMap (l.store.walk · false)

theorem panes_eq (l : Layout) :
    l.panes = l.windowRoots.flatMap fun r => (l.store.walk r false).filterMap l.store.paneAt :=
  rfl

theorem panes_eq_shown (l : Layout) : l.panes = l.shown.filterMap l.store.paneAt := by
  rw [panes_eq, shown, List.filterMap_flatMap]

/-- The pane found for a part is the first shown node that shows the part. -/
theorem findPane_eq_shown (l : Layout) (part : PartId) :
    l.findPane part = l.shown.find? fun y => l.store.paneAt y == some part := by
  rw [findPane, shown, List.find?_flatMap]
  congr 1
  funext r
  unfold Store.findPane
  congr 1
  funext y
  unfold paneAt
  cases l.store.get? y with
  | none => rfl
  | some yn =>
    obtain ⟨_, _, _, kind⟩ := yn
    cases kind <;> simp [NodeKind.pane?]

/-- In a sound layout the windows show each node once: walks from distinct window roots never
meet. -/
theorem Sound.nodup_shown (hs : l.Sound E) : l.shown.Nodup := by
  have hf := hs.forest
  have hroots : l.windowRoots.Nodup :=
    (((List.sublist_append_left _ _).cons_cons l.root).trans
      (List.sublist_append_left l.tops E)).nodup hs.tops_nodup
  rw [shown, List.nodup_flatMap]
  refine ⟨fun r _ => hf.nodup_walk r false, ?_⟩
  refine (List.nodup_iff_pairwise_ne.mp hroots).imp_of_mem fun hr₁ hr₂ hne x hx₁ hx₂ => hne ?_
  exact hf.top_unique (hf.mem_walk hx₁).2 (hf.mem_walk hx₂).2
    (hs.top_of_mem (List.mem_append_left _ (mem_tops_of_windowRoots hr₁))).2
    (hs.top_of_mem (List.mem_append_left _ (mem_tops_of_windowRoots hr₂))).2

theorem windowOf_congr (hroot : l'.root = l.root) (hwin : l'.windows = l.windows) {m : NodeId}
    (hc : l'.store.contains m = l.store.contains m) (hr : l'.store.rootOf m = l.store.rootOf m) :
    l'.windowOf m = l.windowOf m := by
  unfold windowOf
  rw [hroot, hwin, hc, hr]

/-! ### Folding containers that show no pane -/

/-- What folding containers from `cur` upward keeps: only the table changes; every node stays
in it and in its window; the shown panes stay; every node that carries a part keeps its form
and its container; and a node of the table not above `cur` keeps its kind. -/
structure FoldsKeep (cur : NodeId) (l l' : Layout) : Prop where
  frame : l' = { l with store := l'.store }
  contains : ∀ x, l.store.contains x = true → l'.store.contains x = true
  windowOf : ∀ m, l.store.contains m = true → l'.windowOf m = l.windowOf m
  panes : l'.panes = l.panes
  kinds : ∀ x, l.store.contains x = true → ¬ Above l.store.parent? x cur →
    l'.store.kindOf x = l.store.kindOf x
  links : ∀ x, l.store.IsLeaf x → l'.store.parent? x = l.store.parent? x
  leaves : l'.store.leafOf = l.store.leafOf

theorem FoldsKeep.refl (cur : NodeId) (l : Layout) : FoldsKeep cur l l :=
  ⟨rfl, fun _ h => h, fun _ _ => rfl, rfl, fun _ _ _ => rfl, fun _ _ => rfl, rfl⟩

/-- Folding from `cur`, then from its container `next` whose ancestors the first folds kept,
folds from `cur`. -/
theorem FoldsKeep.trans {cur next : NodeId} {l₁ l₂ : Layout} (h₁ : FoldsKeep cur l l₁)
    (hnext : l.store.parent? cur = some next)
    (hup : ∀ x, Above l₁.store.parent? x next → Above l.store.parent? x next)
    (h₂ : FoldsKeep next l₁ l₂) : FoldsKeep cur l l₂ where
  frame := by rw [h₂.frame, h₁.frame]
  contains x hx := h₂.contains x (h₁.contains x hx)
  windowOf m hm := (h₂.windowOf m (h₁.contains m hm)).trans (h₁.windowOf m hm)
  panes := h₂.panes.trans h₁.panes
  kinds x hx hab :=
    (h₂.kinds x (h₁.contains x hx) fun ha => hab (.up hnext (hup x ha))).trans (h₁.kinds x hx hab)
  links x hx := (h₂.links x (hx.of_leafOf h₁.leaves)).trans (h₁.links x hx)
  leaves := h₂.leaves.trans h₁.leaves

/-- One fold of a container that shows no pane. -/
theorem FoldsKeep.fold {ident : String} {cur pp : NodeId} {s₂ s₃ : Store} (hf : l.store.Forest)
    (hroots : ∀ r ∈ l.windowRoots, l.store.contains r = true)
    (hcur : l.store.parent? cur = some pp) (hcc : l.store.IsContainer cur)
    (hpp : l.store.form? pp ≠ some .collapsed) (hc : l.store.countPanes cur = 0)
    (h₂ : (l.store.alloc ident (.collapsed cur)).2.replaceChild pp cur l.store.nextId = .ok s₂)
    (h₃ : s₂.setParent cur (some l.store.nextId) = .ok s₃) :
    FoldsKeep cur l { l with store := s₃ } where
  frame := rfl
  contains x hx := (contains_fold h₂ h₃ x).mpr (.inr hx)
  windowOf m hm := by
    refine windowOf_congr ?_ ?_ ?_ (rootOf_fold hf hcur h₂ h₃ hm)
    · rfl
    · rfl
    · show s₃.contains m = l.store.contains m
      rw [(contains_fold h₂ h₃ m).mpr (.inr hm), hm]
  panes := by
    rw [panes_eq, panes_eq]
    exact List.flatMap_congr fun r hr => shownParts_fold_walk hf hcur h₂ h₃ hpp hc (hroots r hr)
  kinds x hx hab := kindOf_fold h₂ h₃ (fun he => hab (by rw [he]; exact .parent hcur))
    (ne_nextId_of_contains hx)
  links x hx := parent?_fold_leaf hcur h₂ h₃ hx hcc
  leaves := leafOf_fold h₂ h₃

/-- Closing windows whose folders are not the root of a node's window leaves the node in its
window. -/
theorem windowOf_filter_windows (l : Layout) {P : Window → Bool} {m : NodeId}
    (h : ∀ x ∈ l.windows, P x = false → x.folder ≠ l.store.rootOf m) :
    ({ l with windows := l.windows.filter P } : Layout).windowOf m = l.windowOf m := by
  unfold windowOf
  split
  · rfl
  · dsimp only
    split
    · rfl
    · rw [List.find?_filter]
      congr 1
      refine List.find?_congr fun x hx => ?_
      cases hP : P x with
      | true => simp only [true_and, Bool.decide_eq_true]
      | false => simp [h x hx hP]

/-- Two distinct panes that are tabs of one folder make it show two panes at least. -/
theorem Sound.two_le_countPanes (hs : l.Sound E) {q m n : NodeId}
    (hq : l.store.form? q = some .folder) (hm : l.store.parent? m = some q)
    (hn : l.store.parent? n = some q) (hmp : l.store.isPane m = true)
    (hnp : l.store.isPane n = true) (hmn : m ≠ n) : 2 ≤ l.store.countPanes q := by
  have hf := hs.forest
  rw [countPanes_tabs hq fun c hc => hs.tabs_leaves q c hq hc]
  have hsub : [m, n] ⊆ (l.store.held q).filter l.store.isPane := by
    intro x hx
    simp only [List.mem_cons, List.not_mem_nil, or_false] at hx
    rcases hx with rfl | rfl
    · exact List.mem_filter.mpr ⟨hf.mem_held_iff.mpr hm, hmp⟩
    · exact List.mem_filter.mpr ⟨hf.mem_held_iff.mpr hn, hnp⟩
  exact (List.nodup_cons.mpr ⟨by simpa using hmn, List.nodup_singleton n⟩).length_le_of_subset hsub

/-! ### What hiding a pane leaves -/

/-- The detached window that shows the node `n`, when `n` is the only pane it shows. -/
def soleWindow? (l : Layout) (n : NodeId) : Option Window :=
  match l.windowOf n with
  | some (.detached w) => (l.window? w).filter fun win => l.store.countPanes win.folder == 1
  | _ => none

/-- What the placeholder `holder` left for the pane `n` of `part`, a child of `p`, keeps in
`l'`: it is a placeholder for the part in the pane's slot of `p`, whose weights stay; every
other node stays in the table; and the placeholders keep places for the part once more. -/
structure KeepsSlot (l : Layout) (part : PartId) (n p holder : NodeId) (l' : Layout) :
    Prop where
  placeholder : l'.store.kindOf holder = some (.placeholder part)
  parent : l'.store.parent? holder = some p
  children : l'.store.children p = (l.store.children p).set ((l.store.children p).idxOf n) holder
  weights : (l'.store.kindOf p).map NodeKind.weights = (l.store.kindOf p).map NodeKind.weights
  stay : ∀ m, m ≠ n → l.store.contains m = true → l'.store.contains m = true
  placeholders : l'.store.placeholderParts = part ::ₘ l.store.placeholderParts

/-- What hiding the pane `n` of `part` leaves in `l'`, with the placeholder `holder` in its
slot: the shown panes lose the part and no other, every other pane stays in its window, and
the pane's detached window is parked with its bounds exactly when the pane was the only one
it showed. -/
structure HidesPane (l : Layout) (part : PartId) (n p holder : NodeId) (l' : Layout) : Prop
    extends KeepsSlot l part n p holder l' where
  panes : l'.panes = l.panes.erase part
  windows : ∀ m, m ≠ n → l.store.isPane m = true → l'.windowOf m = l.windowOf m
  parks : ∀ win, l.soleWindow? n = some win →
    l'.windows = l.windows.filter (·.id != win.id) ∧
      l'.parked = l.parked ++ [{ bounds := win.bounds, folder := win.folder }]
  stays : l.soleWindow? n = none → l'.windows = l.windows ∧ l'.parked = l.parked

variable {part : PartId} {n p holder : NodeId} {l₁ l₂ : Layout}

theorem KeepsSlot.of_store (h : KeepsSlot l part n p holder l₁) (he : l₂.store = l₁.store) :
    KeepsSlot l part n p holder l₂ where
  placeholder := by rw [he]; exact h.placeholder
  parent := by rw [he]; exact h.parent
  children := by rw [he]; exact h.children
  weights := by rw [he]; exact h.weights
  stay := by rw [he]; exact h.stay
  placeholders := by rw [he]; exact h.placeholders

/-- Folding containers from the placeholder's container keeps the slot. -/
theorem KeepsSlot.of_folds (h : KeepsSlot l part n p holder l₁) (hf₁ : l₁.store.Forest)
    (hk : FoldsKeep p l₁ l₂) : KeepsSlot l part n p holder l₂ := by
  have hleaf : l₁.store.IsLeaf holder :=
    ⟨_, by rw [form?_eq_map_kindOf, h.placeholder]; rfl, rfl⟩
  have hkp := hk.kinds p (hf₁.contains_of_parent h.parent) (hf₁.not_above_self p)
  exact {
    placeholder :=
      (hk.kinds holder hleaf.contains (hf₁.not_above_of_isLeaf hleaf)).trans h.placeholder
    parent := (hk.links holder hleaf).trans h.parent
    children := (children_eq_of_kindOf hkp).trans h.children
    weights := by rw [hkp]; exact h.weights
    stay := fun m hmn hm => hk.contains m (h.stay m hmn hm)
    placeholders := (placeholderParts_congr hk.leaves).trans h.placeholders }

/-- Folding containers from the placeholder's container keeps all that hiding left. -/
theorem HidesPane.of_folds (h : HidesPane l part n p holder l₁) (hf₁ : l₁.store.Forest)
    (hk : FoldsKeep p l₁ l₂) : HidesPane l part n p holder l₂ := by
  have hw : l₂.windows = l₁.windows := by rw [hk.frame]
  have hpk : l₂.parked = l₁.parked := by rw [hk.frame]
  exact { h.toKeepsSlot.of_folds hf₁ hk with
    panes := hk.panes.trans h.panes
    windows := fun m hmn hm =>
      (hk.windowOf m (h.stay m hmn (contains_of_isPane hm))).trans (h.windows m hmn hm)
    parks := fun win hwin => by rw [hw, hpk]; exact h.parks win hwin
    stays := fun hn => by rw [hw, hpk]; exact h.stays hn }

theorem isLeaf_of_findPane (hfind : l.findPane part = some n) : l.store.IsLeaf n := by
  obtain ⟨_, -, hform⟩ := findPane_form hfind
  exact ⟨_, hform, rfl⟩

theorem Sound.parent_ne_collapsed (hs : l.Sound E) (hleaf : l.store.IsLeaf n)
    (hpar : l.store.parent? n = some p) : l.store.form? p ≠ some .collapsed := fun hpc =>
  hleaf.not_isContainer (hs.fold_held p n hpc (hs.forest.mem_held_iff.mpr hpar))

theorem exists_findPane (hp : part ∈ l.panes) : ∃ n, l.findPane part = some n := by
  rw [panes_eq_shown, List.mem_filterMap] at hp
  obtain ⟨y, hy, hpy⟩ := hp
  refine Option.isSome_iff_exists.mp ?_
  rw [findPane_eq_shown, List.find?_isSome]
  exact ⟨y, hy, by simp [hpy]⟩

/-! The layout right after the placeholder took the slot of the pane `n` found for `part`,
and `n` was freed; hiding also ended the zoom. -/

section Hide

variable {s₂ : Store} (hs : l.Sound E) (hfind : l.findPane part = some n)
  (hpar : l.store.parent? n = some p)
  (h₂ : (l.store.alloc part (.placeholder part)).2.replaceChild p n l.store.nextId = .ok s₂)
  (hf₂ : s₂.Forest) (hf₃ : (s₂.free n).Forest)

include hs hfind hpar h₂ hf₂ in
theorem keepsSlot_hide :
    KeepsSlot l part n p l.store.nextId { l with zoomed := none, store := s₂.free n } := by
  have hf := hs.forest
  have hleaf := isLeaf_of_findPane hfind
  obtain ⟨_, -, hform⟩ := findPane_form hfind
  exact {
    placeholder := kindOf_hide_holder hf hf₂ hleaf hpar h₂
    parent := parent?_hide_holder hf₂ hleaf h₂
    children := children_hide hf hf₂ hleaf hpar h₂
      (hs.holder_isContainer hpar (hs.parent_ne_collapsed hleaf hpar))
    weights := weights_hide hf hf₂ hleaf hpar h₂
    stay := fun m hmn hm => (contains_hide hf₂ hleaf h₂ hmn (ne_nextId_of_contains hm)).trans hm
    placeholders := placeholderParts_hide hf₂ hleaf h₂ hform }

include hs hfind hpar h₂ hf₂ hf₃ in
/-- The shown panes lose the first pane of the part, the one found. -/
theorem panes_hide :
    ({ l with zoomed := none, store := s₂.free n } : Layout).panes = l.panes.erase part := by
  have hf := hs.forest
  have hleaf := isLeaf_of_findPane hfind
  -- the window roots are tops of the table, so none is the pane
  have hroot : ∀ r ∈ l.windowRoots, l.store.contains r = true ∧ r ≠ n := fun r hr => by
    obtain ⟨hrc, hrt⟩ := hs.top_of_mem (List.mem_append_left _ (mem_tops_of_windowRoots hr))
    exact ⟨hrc, fun he => by rw [he, hpar] at hrt; cases hrt⟩
  rw [panes_eq ({ l with zoomed := none, store := s₂.free n } : Layout)]
  show (l.windowRoots.flatMap fun r => ((s₂.free n).walk r false).filterMap (s₂.free n).paneAt) = _
  rw [List.flatMap_congr fun r hr => shownParts_hide hf hf₂ hleaf hpar h₂ hf₃
      (hs.parent_ne_collapsed hleaf hpar) (hroot r hr).1 (hroot r hr).2,
    ← List.filterMap_flatMap, panes_eq_shown l]
  exact filterMap_erase_of_find? (fun _ => beq_iff_eq)
    ((findPane_eq_shown l part).symm.trans hfind) hs.nodup_shown

include hs hfind h₂ hf₂ hf₃ in
/-- Every other node of the table keeps the root of its window. -/
theorem rootOf_hide {m : NodeId} (hm : l.store.contains m = true) (hmn : m ≠ n) :
    (s₂.free n).rootOf m = l.store.rootOf m := by
  have hf := hs.forest
  have hleaf := isLeaf_of_findPane hfind
  have hnh : n ≠ l.store.nextId := ne_nextId_of_contains hleaf.contains
  refine hf.rootOf_congr hf₃ (fun t ht => ?_) fun t hu ht => ?_
  · -- every link met climbing from `m` avoids the pane, which holds nothing, and the new node
    refine above_of_agree
      (fun x (hx : x ≠ n ∧ x ≠ l.store.nextId) => (parent?_hide hf₂ hleaf h₂ hx.1 hx.2).symm)
      (fun x q hq => ⟨?_, ne_nextId_of_contains (hf.contains_of_parent hq)⟩)
      ⟨hmn, ne_nextId_of_contains hm⟩ ht
    rintro rfl
    have := hf.mem_held_iff.mpr hq
    rw [held_eq_nil_of_isLeaf hleaf] at this
    cases this
  · have htn : t ≠ n := fun he => by
      obtain ⟨q, hq⟩ := hs.linked_of_findPane hfind
      rw [he, hq] at ht
      cases ht
    rw [parent?_hide hf₂ hleaf h₂ htn (ne_nextId_of_contains (hf.contains_of_under hu hm)), ht]

include hs hfind h₂ hf₂ hf₃ in
theorem windowOf_hide {m : NodeId} (hm : l.store.contains m = true) (hmn : m ≠ n) :
    ({ l with zoomed := none, store := s₂.free n } : Layout).windowOf m = l.windowOf m := by
  refine windowOf_congr ?_ ?_ ?_ (rootOf_hide hs hfind h₂ hf₂ hf₃ hm hmn)
  · rfl
  · rfl
  · exact contains_hide hf₂ (isLeaf_of_findPane hfind) h₂ hmn (ne_nextId_of_contains hm)

include hs hfind hpar h₂ hf₂ hf₃ in
/-- A window root above the pane shows one pane fewer. -/
theorem countPanes_hide {r : NodeId} (hr : l.store.contains r = true) (hrn : r ≠ n)
    (hnr : n ∈ l.store.walk r false) :
    (s₂.free n).countPanes r + 1 = l.store.countPanes r := by
  have hf := hs.forest
  have hleaf := isLeaf_of_findPane hfind
  obtain ⟨_, -, hform⟩ := findPane_form hfind
  rw [countPanes, countPanes, ← length_shownParts, ← length_shownParts, ← hf.walk_eq_walkFrom,
    ← hf₃.walk_eq_walkFrom,
    shownParts_hide hf hf₂ hleaf hpar h₂ hf₃ (hs.parent_ne_collapsed hleaf hpar) hr hrn]
  exact length_filterMap_drop (hf.nodup_walk r false) hnr
    (by rw [paneAt_eq_form, hform]; rfl)

include hs hfind hpar h₂ hf₂ hf₃ in
theorem hidesPane_hide (hsole : l.soleWindow? n = none) :
    HidesPane l part n p l.store.nextId { l with zoomed := none, store := s₂.free n } :=
  { keepsSlot_hide hs hfind hpar h₂ hf₂ with
    panes := panes_hide hs hfind hpar h₂ hf₂ hf₃
    windows := fun m hmn hm => windowOf_hide hs hfind h₂ hf₂ hf₃ (contains_of_isPane hm) hmn
    parks := fun win hw => by
      rw [hsole] at hw
      cases hw
    stays := fun _ => ⟨rfl, rfl⟩ }

include hs hfind in
/-- The pane found for a part, shown in a detached window, is met walking from the window's
folder. -/
theorem mem_walk_folder {w : WindowId} {win : Window} (hw : l.windowOf n = some (.detached w))
    (hwin : l.window? w = some win) : n ∈ l.store.walk win.folder false := by
  have hf := hs.forest
  have hwinmem : win ∈ l.windows := List.mem_of_find?_eq_some hwin
  obtain ⟨r, hr, hnr⟩ := List.mem_flatMap.mp
    (List.mem_of_find?_eq_some ((findPane_eq_shown l part).symm.trans hfind))
  have htop : ∀ t ∈ l.windowRoots, l.store.parent? t = none := fun t ht =>
    (hs.top_of_mem (List.mem_append_left _ (mem_tops_of_windowRoots ht))).2
  have hrf : r = win.folder := hf.top_unique (hf.mem_walk hnr).2
    (hs.under_of_windowOf hw hwin) (htop r hr)
    (htop _ (List.mem_cons_of_mem _ (List.mem_map_of_mem hwinmem)))
  rw [← hrf]
  exact hnr

include hs hfind hpar h₂ hf₂ hf₃ in
/-- When the pane was the only one its detached window showed, the window is parked with its
bounds and its folder. -/
theorem hidesPane_park {win : Window} (hw : l.windowOf n = some (.detached win.id))
    (hwin : l.window? win.id = some win) (hone : l.store.countPanes win.folder = 1)
    (host : Host) :
    HidesPane l part n p l.store.nextId
      { l with zoomed := none, store := s₂.free n, windows := l.windows.filter (·.id != win.id),
               host := host,
               parked := l.parked ++ [{ bounds := win.bounds, folder := win.folder }] } := by
  have hf := hs.forest
  have hwinmem : win ∈ l.windows := List.mem_of_find?_eq_some hwin
  obtain ⟨_, -, hnform⟩ := findPane_form hfind
  have hfold : l.store.form? win.folder = some .folder :=
    hs.frames_folders _ (List.mem_append_left _ (List.mem_map_of_mem hwinmem))
  obtain ⟨hfc, hft⟩ := hs.top_of_mem
    (List.mem_append_left _ (mem_tops_of_windowRoots (List.mem_cons_of_mem _
      (List.mem_map_of_mem hwinmem))))
  have hfn : win.folder ≠ n := fun he => by
    rw [he, hpar] at hft
    cases hft
  -- the pane is a tab of the folder
  have hnp : l.store.parent? n = some win.folder :=
    (hs.tab_of_above_folder hfold ((hs.under_of_windowOf hw hwin).resolve_left hfn)).1
  have hnone : (s₂.free n).countPanes win.folder = 0 := by
    have := countPanes_hide hs hfind hpar h₂ hf₂ hf₃ hfc hfn (mem_walk_folder hs hfind hw hwin)
    omega
  -- the window closed is the only one with its number
  have hsame : ∀ x ∈ l.windows, (x.id != win.id) = false → x = win := fun x hx hid => by
    have hx' := LayoutM.window?_eq hs hx
    rw [show x.id = win.id by simpa using hid, hwin] at hx'
    exact (Option.some.inj hx').symm
  have hsole : l.soleWindow? n = some win := by
    unfold soleWindow?
    rw [hw]
    show (l.window? win.id).filter _ = some win
    rw [hwin]
    simp [hone]
  refine { (keepsSlot_hide hs hfind hpar h₂ hf₂).of_store rfl with
    panes := ?_, windows := fun m hmn hm => ?_, parks := fun win' hw' => ?_, stays := fun h => ?_ }
  · -- the parked folder shows no pane any more
    rw [← panes_hide hs hfind hpar h₂ hf₂ hf₃, panes_eq, panes_eq]
    show (l.root :: (l.windows.filter (·.id != win.id)).map (·.folder)).flatMap _ =
      (l.root :: l.windows.map (·.folder)).flatMap _
    rw [List.flatMap_cons, List.flatMap_cons, List.flatMap_map, List.flatMap_map,
      flatMap_filter_of_nil fun x hx hid => by
        rw [hsame x hx hid]
        exact (hf₃.walk_eq_walkFrom _ _).symm ▸ hf₃.shownParts_eq_nil hnone _]
  · -- no other pane was in the window closed
    have hmc := contains_of_isPane hm
    have hne : l.store.rootOf m ≠ win.folder := fun he => by
      have hu : Under l.store.parent? win.folder m := he ▸ climb_under _ _ m
      have hmf : m ≠ win.folder := fun he' => by
        rw [he', isPane_eq_false_of_folder hfold] at hm
        cases hm
      have := hs.two_le_countPanes hfold
        (hs.tab_of_above_folder hfold (hu.resolve_left (Ne.symm hmf))).1 hnp hm
        (isPane_of_form hnform) hmn
      omega
    rw [← windowOf_hide hs hfind h₂ hf₂ hf₃ hmc hmn]
    exact windowOf_filter_windows { l with zoomed := none, store := s₂.free n }
      fun x hx hid => by
        rw [hsame x hx hid, rootOf_hide hs hfind h₂ hf₂ hf₃ hmc hmn]
        exact Ne.symm hne
  · rw [hsole] at hw'
    cases hw'
    exact ⟨rfl, rfl⟩
  · rw [hsole] at h
    cases h

end Hide

end Layout

namespace LayoutM

open Layout

/-- A pass of folding from a node of a forest never fails and keeps everything `FoldsKeep`
names. It goes on, if at all, from the node's container, above which it changed nothing. -/
theorem ends_collapsePass_foldsKeep {cur : NodeId} (hf : l.store.Forest)
    (hroots : ∀ r ∈ l.windowRoots, l.store.contains r = true) (hcon : l.store.contains cur = true) :
    Ends (collapsePass cur) l (fun r l' => FoldsKeep cur l l' ∧ ∀ next, r = some next →
      l'.store.Forest ∧ (∀ r ∈ l'.windowRoots, l'.store.contains r = true) ∧
      l'.store.contains next = true ∧ l.store.parent? cur = some next ∧
      ∀ x, Above l'.store.parent? x next → Above l.store.parent? x next) fun _ _ => False := by
  rw [collapsePass, ends_bind, ends_get]
  split
  · exact ⟨.refl cur l, fun _ h => by cases h⟩
  obtain ⟨n, hn⟩ := (Store.contains_iff _ _).mp hcon
  rw [ends_bind, ends_node_of hn]
  split
  · exact ⟨.refl cur l, fun _ h => by cases h⟩
  next hkind =>
  -- past the guards `cur` is a container that shows no pane
  simp only [Bool.or_eq_true, Bool.not_eq_eq_eq_not, Bool.not_true, not_or, Store.hasPane,
    decide_eq_true_eq, Nat.not_lt, Nat.le_zero] at hkind
  have hcc := Store.isContainer_of_get? hn (Bool.not_eq_false _ ▸ hkind.1.1)
  split
  · exact ⟨.refl cur l, fun _ h => by cases h⟩
  next parent hpar =>
  obtain ⟨pn, hpn⟩ := (Store.contains_iff _ _).mp (hf.contains_of_parent hpar)
  rw [ends_bind, ends_node_of hpn]
  split
  · exact ⟨.refl cur l, fun _ h => by cases h⟩
  next hpc =>
  have hpform := Store.form?_ne_collapsed hpn (Bool.eq_false_iff.mpr hpc)
  obtain ⟨s₂, s₃, h₂, h₃⟩ := hf.fold_ok hpar (hf.holder_isContainer hpar hpform) n.ident
  have hstep := FoldsKeep.fold hf hroots hpar hcc hpform hkind.2 h₂ h₃
  simp only [ends_bind, ends_alloc, ends_edit, h₂, h₃]
  refine ⟨hstep, fun _ h => ?_⟩
  cases h
  exact ⟨hf.fold hpar h₂ h₃, fun r hr => hstep.contains r (hroots r hr),
    hstep.contains _ (hf.contains_of_parent hpar), hpar, fun x hx => hf.above_fold hpar h₂ h₃
      (hf.contains_of_parent hpar) (hf.not_under_of_parent hpar) hx⟩

/-- Folding placeholder-only containers from a node of a forest never fails, and keeps
everything `FoldsKeep` names. -/
theorem ends_collapseFrom_foldsKeep (k : Nat) : ∀ (cur : NodeId) {l : Layout},
    l.store.Forest → (∀ r ∈ l.windowRoots, l.store.contains r = true) →
    l.store.contains cur = true →
    Ends (collapseFrom k cur) l (fun _ l' => FoldsKeep cur l l') fun _ _ => False := by
  induction k with
  | zero => exact fun cur l _ _ _ => .refl cur l
  | succ k ih =>
    intro cur l hf hroots hcon
    rw [collapseFrom, ends_climbFrom_succ]
    refine (ends_collapsePass_foldsKeep hf hroots hcon).mono (fun r l' h => ?_) fun _ _ h => h
    cases r with
    | none => exact h.1
    | some next =>
      obtain ⟨hf', hroots', hcon', hpar, hup⟩ := h.2 next rfl
      exact (ih next hf' hroots' hcon').mono (fun _ _ h' => h.1.trans hpar hup h')
        fun _ _ h => h

/-- Hiding the pane found for a part never fails: it leaves a placeholder in the pane's slot
and the rest as `HidesPane` says. -/
theorem ends_removePane_hides (hs : l.Sound E) {part : PartId} {n p : NodeId}
    (hfind : l.findPane part = some n) (hpar : l.store.parent? n = some p) :
    Ends (removePane part) l (fun holder l' => l.HidesPane part n p holder l')
      fun _ _ => False := by
  have hs₀ : ({ l with zoomed := none } : Layout).Sound E := hs.of_frames rfl rfl rfl rfl rfl rfl
  obtain ⟨pn, -, hnform⟩ := findPane_form hfind
  obtain ⟨s₂, h₂, hf₂, hs₃, hpc₃⟩ := sound_hidePane hs₀ part hnform hpar
  have hf₃ : (s₂.free n).Forest := hs₃.forest
  rw [removePane, ends_bind, ends_zoomOut, ends_bind, ends_get]
  simp only [show ({ l with zoomed := none } : Layout).findPane part = some n from hfind,
    show ({ l with zoomed := none } : Layout).store.parent? n = some p from hpar]
  simp only [ends_bind, ends_alloc, ends_onError, ends_edit, h₂, ends_onStore]
  split
  · -- the main window: fold what shows no pane any more
    next hmain =>
    have hsole : l.soleWindow? n = none := by
      unfold soleWindow?
      rw [show l.windowOf n = some .main from hmain]
    have hroots : ∀ r ∈ l.windowRoots, (s₂.free n).contains r = true := fun r hr =>
      (hs₃.top_of_mem (List.mem_append_left _ (mem_tops_of_windowRoots hr))).1
    rw [ends_bind, collapseEmpty, ends_bind, ends_store]
    exact (ends_collapseFrom_foldsKeep _ p hf₃ hroots hpc₃).mono
      (fun _ _ hk => (hidesPane_hide hs hfind hpar h₂ hf₂ hf₃ hsole).of_folds hf₃ hk)
      fun _ _ h => h
  · -- a detached window: park it when it shows no pane any more
    next w hw =>
    have hw' : l.windowOf n = some (.detached w) := hw
    rw [ends_bind, retireIfEmpty, ends_bind, ends_get]
    split
    · next hnone =>
      refine hidesPane_hide hs hfind hpar h₂ hf₂ hf₃ ?_
      unfold soleWindow?
      rw [hw']
      show (l.window? w).filter _ = none
      rw [show l.window? w = none from hnone]
      rfl
    · next win hwin =>
      have hwin' : l.window? w = some win := hwin
      obtain rfl : win.id = w := by simpa using List.find?_some hwin'
      have hwinmem : win ∈ l.windows := List.mem_of_find?_eq_some hwin'
      obtain ⟨hfc, hft⟩ := hs.top_of_mem
        (List.mem_append_left _ (mem_tops_of_windowRoots (List.mem_cons_of_mem _
          (List.mem_map_of_mem hwinmem))))
      have hfn : win.folder ≠ n := fun he => by
        rw [he, hpar] at hft
        cases hft
      have hcount := Layout.countPanes_hide hs hfind hpar h₂ hf₂ hf₃ hfc hfn
        (Layout.mem_walk_folder hs hfind hw' hwin')
      split
      · -- the window still shows a pane: it stays
        next hhas =>
        refine hidesPane_hide hs hfind hpar h₂ hf₂ hf₃ ?_
        have hhas' : 0 < (s₂.free n).countPanes win.folder := by
          simpa [Store.hasPane] using hhas
        unfold soleWindow?
        rw [hw']
        show (l.window? win.id).filter _ = none
        rw [hwin']
        simp only [Option.filter_some, beq_iff_eq]
        rw [if_neg (by omega)]
      · next hnot =>
        have hone : l.store.countPanes win.folder = 1 := by
          have : (s₂.free n).countPanes win.folder = 0 := by
            simpa [Store.hasPane] using hnot
          omega
        dsimp only
        split
        · -- the folder keeps the placeholder, so it is never empty
          next hempty =>
          have hnp : l.store.parent? n = some win.folder :=
            (hs.tab_of_above_folder (hs.frames_folders _ (List.mem_append_left _
              (List.mem_map_of_mem hwinmem)))
              ((hs.under_of_windowOf hw' hwin').resolve_left hfn)).1
          have hpf : p = win.folder := Option.some.inj (hpar.symm.trans hnp)
          have hmem : n ∈ l.store.children p := by
            rw [← Store.held_eq_children (hs.holder_isContainer hpar
              (hs.parent_ne_collapsed (isLeaf_of_findPane hfind) hpar))]
            exact hs.forest.mem_held_iff.mpr hpar
          rw [← hpf, (keepsSlot_hide hs hfind hpar h₂ hf₂).children, List.isEmpty_iff,
            ← List.length_eq_zero_iff, List.length_set] at hempty
          exact absurd hempty (List.length_pos_of_mem hmem).ne'
        · exact hidesPane_park hs hfind hpar h₂ hf₂ hf₃ hw' hwin' hone _
  · -- no window: nothing more to do
    next hnone =>
    refine hidesPane_hide hs hfind hpar h₂ hf₂ hf₃ ?_
    unfold soleWindow?
    rw [show l.windowOf n = none from hnone]

/-- Retaining the panes that `keep` accepts never fails: it hides the others one by one, in
their order, and leaves the accepted panes in theirs, with a placeholder for each rejected
one. -/
theorem ends_retainPanes_filters (hs : l.Sound []) (keep : PartId → Bool) :
    Ends (retainPanes keep) l (fun _ l' => l'.panes = l.panes.filter keep ∧
      l'.store.placeholderParts =
        l.store.placeholderParts + (l.panes.filter (!keep ·) : Multiset PartId))
      fun _ _ => False := by
  rw [retainPanes, ends_bind, ends_get, ends_bind]
  -- the loop's invariant: the accepted panes are as they were, and the rejected ones still
  -- shown are those left to hide, in order
  refine (ends_forIn _ _ _ (fun rest _ l' => l'.Sound [] ∧
      l'.panes.filter keep = l.panes.filter keep ∧ l'.panes.filter (!keep ·) = rest ∧
      l'.store.placeholderParts + (rest : Multiset PartId) =
        l.store.placeholderParts + (l.panes.filter (!keep ·) : Multiset PartId))
    (fun part rest _ l₁ h₁ => ?_) ⟨hs, rfl, rfl, rfl⟩).mono
    (fun _ l' h => ?_) fun _ _ h => h
  · obtain ⟨hs₁, hk₁, hr₁, hp₁⟩ := h₁
    have hrej : part ∈ l₁.panes.filter (!keep ·) := hr₁ ▸ List.mem_cons_self
    have hkp : keep part = false := by simpa using (List.mem_filter.mp hrej).2
    obtain ⟨n, hfind⟩ := exists_findPane (List.mem_filter.mp hrej).1
    obtain ⟨p, hpar⟩ := hs₁.linked_of_findPane hfind
    rw [ends_bind]
    refine ((ends_removePane hs₁ part).and (ends_removePane_hides hs₁ hfind hpar)).mono
      (fun _ l₂ h₂ => ?_) fun _ _ h => h.2
    obtain ⟨hs₂, hh⟩ := h₂
    refine ⟨_, rfl, hs₂, ?_, ?_, ?_⟩
    · -- the part hidden is rejected, so the accepted panes stay
      rw [hh.panes, ← List.erase_filter,
        List.erase_of_not_mem fun hm => by simp [hkp] at hm, hk₁]
    · rw [hh.panes, ← List.erase_filter, hr₁, List.erase_cons_head]
    · rw [hh.placeholders, ← hp₁, ← Multiset.cons_coe, Multiset.cons_add, Multiset.add_cons]
  · -- nothing rejected is left shown
    obtain ⟨_, hk, hr, hp⟩ := h
    have hall : l'.panes.filter keep = l'.panes := List.filter_eq_self.mpr fun a ha => by
      have := List.filter_eq_nil_iff.mp hr a ha
      simpa using this
    refine ⟨hall.symm.trans hk, ?_⟩
    rw [← hp, Multiset.coe_nil, Multiset.add_zero]

end LayoutM

namespace Layout

/-- Hiding frames everything else. In a reachable layout, hiding the pane of a shown part
never fails: a placeholder for the part takes the pane's slot, with the same container, index
and weights; the shown panes lose that part and keep their order; every other pane stays in
its window; and the pane's detached window is parked with its bounds exactly when the pane
was the last one it showed. So retaining the panes that `keep` accepts never fails, and
leaves exactly the accepted panes shown, in their order, with a placeholder for each rejected
one. -/
theorem Reachable.hiding_frames_others {l : Layout} (hr : l.Reachable) :
    (∀ part ∈ l.panes, ∃ n p, l.findPane part = some n ∧ l.store.parent? n = some p ∧
      LayoutM.Ends (LayoutM.removePane part) l
        (fun holder l' => l.HidesPane part n p holder l') fun _ _ => False) ∧
    ∀ keep : PartId → Bool, LayoutM.Ends (LayoutM.retainPanes keep) l
      (fun _ l' => l'.panes = l.panes.filter keep ∧
        l'.store.placeholderParts =
          l.store.placeholderParts + (l.panes.filter (!keep ·) : Multiset PartId))
      fun _ _ => False := by
  have hs := hr.sound
  refine ⟨fun part hp => ?_, LayoutM.ends_retainPanes_filters hs⟩
  obtain ⟨n, hfind⟩ := exists_findPane hp
  obtain ⟨p, hpar⟩ := hs.linked_of_findPane hfind
  exact ⟨n, p, hfind, hpar, LayoutM.ends_removePane_hides hs hfind hpar⟩

/-- The one view of a layout is hidden behind a placeholder in its slot. -/
theorem Reachable.hiding_frames_others_view :
    let l := (Script.layoutStep ⟨Layout.empty (Host.fresh true), []⟩
      (.addPane ⟨"A", .view⟩)).2.layout
    l.Reachable ∧ l.panes = ["A"] ∧ ∃ n p, l.findPane "A" = some n ∧
      l.store.parent? n = some p ∧ LayoutM.Ends (LayoutM.removePane "A") l
        (fun holder l' => l.HidesPane "A" n p holder l') fun _ _ => False :=
  have h := Reachable.step [] (.addPane ⟨"A", .view⟩) (.empty _) fun _ => nofun
  have hp : (Script.layoutStep ⟨Layout.empty (Host.fresh true), []⟩
      (.addPane ⟨"A", .view⟩)).2.layout.panes = ["A"] := by decide
  ⟨h, hp, (Reachable.hiding_frames_others h).1 "A" (by rw [hp]; exact List.mem_singleton_self _)⟩

end Layout

end Docking
