import Docking.Proofs.Reachable
import Docking.Proofs.FastViews
/-!
# Where stacked and floated tabs go

Stacking a node into the folder of another (`LayoutM.stackNode`) and floating it in a window
of its own (`LayoutM.detachNode`) both end by moving it into a folder (`LayoutM.moveInto`): a
pane becomes the folder's last tab and is selected there; a folder hands its tabs over in
order, with the one it showed, and goes, closing the window it was the folder of.

`Store.stackedTabs` and `Store.shownTab` say what a node brings into a folder and which tab
it shows there. `LayoutM.ends_moveInto_tabs` says where they end and what taking the node out
leaves alone: off the climb from the node's old container, every node keeps its kind, and
every window stays but the one whose folder held the node. Floating either moves the node's own
detached window, when the node shows every pane of it (`Layout.FloatedAlone`), or opens a new
window whose new folder takes the node (`Layout.FloatedNew`). The main results read this off
for whole requests on reachable layouts: `Layout.Reachable.stacking_appends_tabs` and
`Layout.Reachable.detaching_floats`.
-/

namespace Docking

namespace Store

variable {s : Store}

theorem climb_under (s : Store) : ∀ (k : Nat) (x : NodeId), Under s.parent? (s.climb k x) x
  | 0, _ => .refl _
  | k + 1, x => by
    rw [climb]
    split
    · next p hp => exact .inr ((climb_under s k p).of_parent hp)
    · exact .refl _

theorem panesBelow_leaf {c : NodeId} (h : s.IsLeaf c) (k : Nat) :
    s.panesBelow (k + 1) c = if s.isPane c then 1 else 0 := by
  obtain ⟨f, hf, hl⟩ := h
  obtain ⟨cn, hcn, rfl⟩ := Option.map_eq_some_iff.mp hf
  obtain ⟨i, p, b, kind⟩ := cn
  cases kind <;> simp [panesBelow, isPane, hcn, NodeKind.isPane, NodeKind.form, Form.isLeaf] at hl ⊢

theorem isPane_eq_false_of_folder {x : NodeId} (h : s.form? x = some .folder) :
    s.isPane x = false := by
  obtain ⟨xn, hxn, hxf⟩ := Option.map_eq_some_iff.mp h
  obtain ⟨i, p, b, kind⟩ := xn
  cases kind <;> simp_all [isPane, NodeKind.isPane, NodeKind.form]

theorem countPanes_leaf {c : NodeId} (h : s.IsLeaf c) :
    s.countPanes c = if s.isPane c then 1 else 0 :=
  panesBelow_leaf h s.slots.size

/-- A folder of leaves shows as many panes as it has pane tabs. -/
theorem countPanes_tabs {q : NodeId} (hq : s.form? q = some .folder)
    (hleaves : ∀ c ∈ s.held q, s.IsLeaf c) :
    s.countPanes q = ((s.held q).filter s.isPane).length := by
  obtain ⟨qn, hqn, hqf⟩ := Option.map_eq_some_iff.mp hq
  obtain ⟨k, hk⟩ : ∃ k, s.slots.size = k + 1 :=
    ⟨s.slots.size - 1, by have := lt_size_of_get? hqn; omega⟩
  have hsum : ∀ cs : List NodeId, (∀ c ∈ cs, s.IsLeaf c) →
      (cs.map (s.panesBelow (k + 1))).sum = (cs.filter s.isPane).length := by
    intro cs hcs
    induction cs with
    | nil => rfl
    | cons c cs ih =>
      rw [List.map_cons, List.sum_cons, List.filter_cons, panesBelow_leaf (hcs c List.mem_cons_self),
        ih fun c' hc' => hcs c' (List.mem_cons_of_mem _ hc')]
      split <;> simp [Nat.add_comm]
  rw [held_of_get? hqn] at hleaves ⊢
  unfold countPanes depthBound
  rw [hk]
  obtain ⟨i, p, b, kind⟩ := qn
  cases kind <;> simp only [NodeKind.form, reduceCtorEq] at hqf
  simp only [panesBelow, hqn, walkChildren] at hleaves ⊢
  exact hsum _ hleaves

theorem mem_held_of_mem_children {x c : NodeId} (h : c ∈ s.children x) : c ∈ s.held x := by
  unfold children at h
  unfold held
  split at h
  · next xn _ =>
    obtain ⟨i, p, b, kind⟩ := xn
    cases kind <;> simp_all [NodeKind.children, walkChildren]
  · cases h

/-- A new node changes no climb between the nodes of a table. -/
theorem Forest.under_of_under_alloc (hf : s.Forest) {ident : String} {kind : NodeKind}
    {a n : NodeId} (hn : n ≠ s.nextId) (h : Under (s.alloc ident kind).2.parent? a n) :
    Under s.parent? a n := by
  have hup : ∀ x m, (s.alloc ident kind).2.parent? x = some m → m ≠ s.nextId := by
    intro x m hm
    rw [parent?_alloc] at hm
    split at hm
    · cases hm
    · exact fun he => hf.parent_ne_nextId (he ▸ hm)
  rcases h with rfl | h
  · exact .refl _
  · exact .inr (above_of_agree (fun x hx => by rw [parent?_alloc, if_neg hx]) hup hn h)

theorem countPanes_empty {q : NodeId} (hq : s.form? q = some .folder) (hheld : s.held q = []) :
    s.countPanes q = 0 := by
  rw [countPanes_tabs hq (by simp [hheld]), hheld]
  rfl

/-- The tabs a node brings into a folder it is stacked into: a folder's tabs, in order, or
the node itself. -/
def stackedTabs (s : Store) (n : NodeId) : List NodeId :=
  if s.isFolder n then s.children n else [n]

/-- The tab a node shows once stacked into a folder: the tab a folder shows, or the node
itself. -/
def shownTab (s : Store) (n : NodeId) : Option NodeId :=
  if s.isFolder n then s.selectedTab n else some n

theorem stackedTabs_eq_of_kindOf {s s' : Store} {x : NodeId} (h : s'.kindOf x = s.kindOf x) :
    s'.stackedTabs x = s.stackedTabs x := by
  rw [stackedTabs, stackedTabs, isFolder_eq_of_kindOf h, children_eq_of_kindOf h]

theorem shownTab_eq_of_kindOf {s s' : Store} {x : NodeId} (h : s'.kindOf x = s.kindOf x) :
    s'.shownTab x = s.shownTab x := by
  rw [shownTab, shownTab, isFolder_eq_of_kindOf h, selectedTab_eq_of_kindOf h]

/-- Putting a tab at the end of a folder and selecting it: the folder holds its tabs and then
the new one, and shows the new one. -/
theorem pushChild_select {f c : NodeId} {s' : Store} (hff : s.form? f = some .folder)
    (h : s.pushChild f c = .ok s') :
    (s'.select c).2.children f = s.children f ++ [c] ∧ (s'.select c).2.selectedTab f = some c := by
  have hff' : s'.form? f = some .folder := by rw [form?_pushChild h, hff]
  have hheld : s'.held f = s.held f ++ [c] := by rw [held_pushChild h, if_pos rfl]
  have hsame := sameShape_select s' c
  obtain ⟨cs, sel, hk, hcs⟩ := exists_kindOf_folder hff'
  refine ⟨?_, ?_⟩
  · rw [← held_eq_children (.inl ((hsame f).2.2.trans hff')), (hsame f).2.1, hheld,
      held_eq_children (.inl hff)]
  · rw [← hcs, hheld] at hk
    exact selectedTab_select (by rw [parent?_pushChild h, if_pos rfl]) hk
      (List.mem_append_right _ (List.mem_singleton_self _))

end Store

namespace Layout

variable {l : Layout} {E : List NodeId}

theorem Sound.folders_nodup (hs : l.Sound E) : (l.windows.map (·.folder)).Nodup := by
  have h := hs.tops_nodup
  rw [tops, List.cons_append, List.append_assoc] at h
  exact (List.nodup_cons.mp h).2.sublist (List.sublist_append_left _ _)

theorem Sound.find_folder (hs : l.Sound E) {win : Window} (hw : win ∈ l.windows) :
    l.windows.find? (·.folder == win.folder) = some win :=
  LayoutM.find?_key_of_mem Window.folder hs.folders_nodup hw

theorem Sound.tab_of_above_folder (hs : l.Sound E) {f x : NodeId}
    (hf : l.store.form? f = some .folder) (h : Above l.store.parent? f x) :
    l.store.parent? x = some f ∧ l.store.IsLeaf x := by
  obtain ⟨t, ht, htx⟩ := h.exists_child_under
  have htleaf := hs.tabs_leaves f t hf (hs.forest.mem_held_iff.mpr ht)
  obtain rfl := (hs.forest.under_leaf_iff htleaf).mp htx
  exact ⟨ht, htleaf⟩

theorem Sound.not_under_folder (hs : l.Sound E) {f c p : NodeId}
    (hf : l.store.form? f = some .folder) (hp : l.store.parent? c = some p) (hpf : p ≠ f) :
    ¬ Under l.store.parent? f p := by
  rintro (h | h)
  · exact hpf h.symm
  · -- `p` would be a tab of `f`, a leaf, holding `c`
    have hmem := hs.forest.mem_held_iff.mpr hp
    rw [Store.held_eq_nil_of_isLeaf (hs.tab_of_above_folder hf h).2] at hmem
    cases hmem

/-- A node of a shown window without a container is the main root or a window's folder. -/
theorem windowOf_loose {n : NodeId} (hw : (l.windowOf n).isSome) (hp : l.store.parent? n = none) :
    n = l.root ∨ ∃ win ∈ l.windows, win.folder = n := by
  have htop : l.store.rootOf n = n := by
    simp [Store.rootOf, Store.depthBound, Store.climb, hp]
  unfold windowOf at hw
  split at hw
  · cases hw
  rw [htop] at hw
  dsimp only at hw
  split at hw
  · next hr => exact .inl (beq_iff_eq.mp hr)
  · obtain ⟨win, hwin⟩ := Option.isSome_iff_exists.mp (Option.isSome_map.symm.trans hw)
    exact .inr ⟨win, List.mem_of_find?_eq_some hwin, by simpa using List.find?_some hwin⟩

/-- What moving `source` into the folder `f`, which held the tabs `before`, left in `l'`: `f`
holds those tabs and then the ones `source` brings, and shows the tab `source` showed; a moved
folder is gone, and so is the window it was the folder of. -/
structure StackedInto (l l' : Layout) (source f : NodeId) (before : List NodeId) : Prop where
  tabs : l'.store.children f = before ++ l.store.stackedTabs source
  shown : ∀ t, l.store.shownTab source = some t → l'.store.selectedTab f = some t
  gone : l.store.isFolder source = true → l'.store.contains source = false ∧
    ∀ win ∈ l.windows, win.folder = source → l'.window? win.id = none

theorem StackedInto.of_kindOf {l₀ l l' : Layout} {source f : NodeId} {before : List NodeId}
    (h : StackedInto l₀ l' source f before) (hk : l₀.store.kindOf source = l.store.kindOf source)
    (hw : ∀ win ∈ l.windows, win ∈ l₀.windows) : StackedInto l l' source f before := by
  refine ⟨?_, fun t ht => ?_, fun hf => ?_⟩
  · rw [h.tabs, Store.stackedTabs_eq_of_kindOf hk]
  · exact h.shown t (by rwa [Store.shownTab_eq_of_kindOf hk])
  · obtain ⟨hgone, hwin⟩ := h.gone (by rwa [Store.isFolder_eq_of_kindOf hk])
    exact ⟨hgone, fun win hw' => hwin win (hw win hw')⟩

/-- A node moved into a folder is held by no other node. -/
theorem StackedInto.not_held {l l' : Layout} {E' : List NodeId} (hs' : l'.Sound E')
    {source f : NodeId} {before : List NodeId} (h : StackedInto l l' source f before)
    {p : NodeId} (hp : p ≠ f) : source ∉ l'.store.held p := by
  intro hin
  have hpar := hs'.forest.held_parent hin
  cases hfold : l.store.isFolder source
  · -- a pane is now a tab of `f`
    have hmem : source ∈ l'.store.children f := by
      rw [h.tabs, Store.stackedTabs, hfold]
      exact List.mem_append_right _ (List.mem_singleton_self _)
    exact hp (Option.some.inj (hpar.symm.trans
      (hs'.forest.held_parent (Store.mem_held_of_mem_children hmem))))
  · -- a folder is gone
    have hgone := (h.gone hfold).1
    rw [Store.contains_of_parent? hpar] at hgone
    cases hgone

/-- The folder that stacking beside `reference` goes to, with the tabs it held before: the
reference itself when it is a folder, else the folder it is a tab of, each less `source`; or,
for a reference with no folder, a new folder holding the reference. -/
def StackTarget (l : Layout) (source reference F : NodeId) (before : List NodeId) : Prop :=
  (((l.store.isFolder reference = true ∧ F = reference) ∨
      (l.store.isFolder reference = false ∧ l.folderOf reference = some F)) ∧
    before = (l.store.children F).erase source) ∨
  (l.store.isFolder reference = false ∧ l.folderOf reference = none ∧
    l.store.contains F = false ∧ before = [reference])

/-- A node shown in a detached window lies below the window's folder. -/
theorem Sound.under_of_windowOf (hs : l.Sound E) {n : NodeId} {w : WindowId} {win : Window}
    (hn : l.windowOf n = some (.detached w)) (hw : l.window? w = some win) :
    Under l.store.parent? win.folder n := by
  unfold windowOf at hn
  split at hn
  · cases hn
  dsimp only at hn
  split at hn
  · cases hn
  obtain ⟨v, hv, hvw⟩ := Option.map_eq_some_iff.mp hn
  cases hvw
  have hvf : v.folder = l.store.rootOf n := by simpa using List.find?_some hv
  rw [LayoutM.window?_eq hs (List.mem_of_find?_eq_some hv)] at hw
  cases hw
  rw [hvf]
  exact Store.climb_under _ _ _

/-- In a folder's window, a node that shows as many panes as the folder shows all of them. -/
theorem Sound.under_of_countPanes (hs : l.Sound E) {f n : NodeId}
    (hf : l.store.form? f = some .folder) (hn : Under l.store.parent? f n)
    (hcount : l.store.countPanes f = l.store.countPanes n) {x : NodeId}
    (hx : l.store.isPane x = true) (hxu : Under l.store.parent? f x) :
    Under l.store.parent? n x := by
  rcases hn with rfl | hn
  · exact hxu
  obtain ⟨hnp, hnleaf⟩ := hs.tab_of_above_folder hf hn
  rcases hxu with rfl | hxu
  · rw [Store.isPane_eq_false_of_folder hf] at hx
    cases hx
  obtain ⟨hxp, -⟩ := hs.tab_of_above_folder hf hxu
  -- the folder's panes are its pane tabs, and `n` counts for at most one of them
  have hxin : x ∈ (l.store.held f).filter l.store.isPane :=
    List.mem_filter.mpr ⟨hs.forest.mem_held_iff.mpr hxp, hx⟩
  rw [Store.countPanes_tabs hf (fun c hc => hs.tabs_leaves f c hf hc),
    Store.countPanes_leaf hnleaf] at hcount
  split at hcount
  · next hnpane =>
    obtain ⟨a, ha⟩ := List.length_eq_one_iff.mp hcount
    have hnin : n ∈ (l.store.held f).filter l.store.isPane :=
      List.mem_filter.mpr ⟨hs.forest.mem_held_iff.mpr hnp, hnpane⟩
    rw [ha, List.mem_singleton] at hxin hnin
    exact .inl (hnin.trans hxin.symm)
  · rw [List.length_eq_zero_iff] at hcount
    rw [hcount] at hxin
    cases hxin

theorem Sound.window?_next (hs : l.Sound E) : l.window? ⟨l.nextWindow⟩ = none := by
  rw [window?, List.find?_eq_none]
  intro v hv hid
  have hlt := hs.ids_lt v hv
  rw [beq_iff_eq.mp hid] at hlt
  exact Nat.lt_irrefl _ hlt

/-- What floating `source` alone left in `l'`: `source` lay in the detached window `w`, shown
as `win`, and every pane of that window lay under `source`; the window now has the bounds `b`
raised to the floor, and no node or other window changed. -/
structure FloatedAlone (l l' : Layout) (source : NodeId) (b : FloatRect) (w : WindowId)
    (win : Window) : Prop where
  was : l.window? w = some win
  within : Under l.store.parent? win.folder source
  every : ∀ x, l.store.isPane x = true → Under l.store.parent? win.folder x →
    Under l.store.parent? source x
  moved : l'.window? w = some { win with bounds := b.withMinSize }
  store : l'.store = l.store
  others : ∀ w', w' ≠ w → l'.window? w' = l.window? w'

/-- What floating `source` in a new window left in `l'`: `w` was no window, and is now `win`,
open on a surface with the bounds `b` raised to the floor; its folder is new and holds what
`source` brings (`StackedInto`). The container `source` left no longer holds it, and every
node off the climb from that container stays, with its kind. -/
structure FloatedNew (l l' : Layout) (source : NodeId) (b : FloatRect) (w : WindowId)
    (win : Window) : Prop where
  fresh : l.window? w = none
  opened : l'.window? w = some win
  bounds : win.bounds = b.withMinSize
  surface : win.surface.isSome = true
  folder : l.store.contains win.folder = false
  tabs : StackedInto l l' source win.folder []
  left : ∀ p, l.store.parent? source = some p → source ∉ l'.store.held p
  keeps : ∀ p, l.store.parent? source = some p → ∀ x, l.store.contains x = true →
    ¬ Under l.store.parent? x p → x ≠ source →
    l'.store.contains x = true ∧ l'.store.kindOf x = l.store.kindOf x

end Layout

namespace LayoutM

open Layout

variable {l : Layout} {E : List NodeId}

/-- Tidying from the folder of a window when the folder holds nothing closes the window and
frees the folder. -/
theorem ends_tidy_closesEmpty (hs : l.Sound E) {win : Window} (hw : win ∈ l.windows)
    (hfix : l.isFixed win.folder = false) (hnil : l.store.held win.folder = []) :
    Ends (tidy win.folder) l (fun _ l' => l'.window? win.id = none ∧
      l'.store.contains win.folder = false) fun _ _ => True := by
  have hframe : win.folder ∈ l.frames := List.mem_append_left _ (List.mem_map_of_mem hw)
  have htop := hs.top_of_mem (List.mem_append_left E (List.mem_cons_of_mem _ hframe))
  have hfold := hs.frames_folders _ hframe
  rw [tidy, ends_bind, ends_store, Store.depthBound, tidyFrom, ends_climbFrom_succ, tidyPass,
    ends_bind, ends_get]
  rw [if_neg (by simp [hfix, htop.1]), hs.find_folder hw]
  dsimp only
  rw [ends_bind, retireIfEmpty, ends_bind, ends_get, window?_eq hs hw]
  dsimp only
  rw [if_neg (by simp [Store.hasPane, Store.countPanes_empty hfold hnil])]
  have hchildren : l.store.children win.folder = [] := by
    rw [← Store.held_eq_children (.inl hfold), hnil]
  rw [hchildren]
  simp only [List.isEmpty_nil, if_true, ends_set, ends_pure, Option.elim_none]
  refine ⟨?_, ?_⟩
  · simp [window?, List.find?_filter]
  · rw [hs.forest.contains_free]
    simp [Under]

/-- Moving a pane, or the tabs of a folder, into a folder `f` that does not hold it puts them
after the tabs of `f` (`StackedInto`). The windows stay, but for the one whose folder held the
moved node, and off the climb from the moved node's container every node stays, with its
kind. -/
theorem ends_moveInto_tabs (hs : l.Sound E) {source f : NodeId} (hsrc : l.store.Movable source)
    (hf : l.store.form? f = some .folder) (hne : source ≠ f)
    (hnot : l.store.parent? source ≠ some f) (hfix : l.isFixed source = false)
    (hloose : l.store.parent? source = none → ∃ win ∈ l.windows, win.folder = source) :
    Ends (moveInto source f) l (fun _ l' => StackedInto l l' source f (l.store.children f) ∧
      (∀ win ∈ l.windows, win.folder ≠ source →
        (∀ p, l.store.parent? source = some p → win.folder ≠ p) → win ∈ l'.windows) ∧
      ∀ p, l.store.parent? source = some p → ∀ x, l.store.contains x = true →
        ¬ Under l.store.parent? x p → x ≠ f → x ≠ source →
        l'.store.contains x = true ∧ l'.store.kindOf x = l.store.kindOf x)
      fun _ _ => True := by
  have hfo := hs.forest
  have hfc : l.store.contains f = true := Store.IsContainer.contains (.inl hf)
  obtain ⟨sn, hsn⟩ := (Store.contains_iff _ _).mp hsrc.contains
  rw [moveInto, ends_bind, ends_node_of hsn]
  split
  · -- a folder hands its tabs over, then goes
    next hfold =>
    have hsf : l.store.form? source = some .folder :=
      Store.form?_of_isFolder (by simp [Store.isFolder, hsn, hfold])
    have hisf : l.store.isFolder source = true := Store.isFolder_of_form? hsf
    have hnin : source ∉ l.store.held source := fun h =>
      hfo.ne_of_parent (hfo.mem_held_iff.mp h) rfl
    rw [ends_bind]
    refine (ends_transferTabs hs hsrc hf hne).mono (fun _ l₂ h => ?_) fun _ _ _ => trivial
    obtain ⟨s₂, rfl, hs₂, hform₂, hheld₂, hkind₂, hlink₂, hsel₂⟩ := h
    have hfc₂ : s₂.contains f = true := by rw [Store.contains_iff_form?, hform₂, hf]; rfl
    -- what follows keeps the kind of `f`, which then holds and shows what it should
    have hfinal : ∀ s₃ : Store, s₃.kindOf f = s₂.kindOf f →
        s₃.children f = l.store.children f ++ l.store.stackedTabs source ∧
        ∀ t, l.store.shownTab source = some t → s₃.selectedTab f = some t := by
      intro s₃ hk
      refine ⟨?_, fun t ht => ?_⟩
      · rw [Store.children_eq_of_kindOf hk, ← Store.held_eq_children
          ((Store.IsContainer.congr (hform₂ f)).mpr (.inl hf)), hheld₂, if_neg hne.symm, if_pos rfl,
          Store.held_eq_children (.inl hf), Store.held_eq_children (.inl hsf), Store.stackedTabs,
          if_pos hisf]
      · rw [Store.selectedTab_eq_of_kindOf hk]
        exact hsel₂ t (by rwa [Store.shownTab, if_pos hisf] at ht)
    rw [ends_bind, ends_store]
    split
    · -- with a container, the folder is taken out of it and dropped
      next hsome =>
      obtain ⟨p, hp₂⟩ := Option.isSome_iff_exists.mp hsome
      have hp : l.store.parent? source = some p := (hlink₂ source hnin).symm.trans hp₂
      -- the climb from `p` is the climb it was: the moved tabs are leaves, holding nothing
      have hkeep : ∀ x m, s₂.parent? x = some m → m ∉ l.store.held source := fun x m hm hin => by
        have hmem := hs₂.forest.mem_held_iff.mpr hm
        rw [Store.held_eq_nil_of_isLeaf ((Store.IsLeaf.congr (hform₂ m)).mpr
          (hs.tabs_leaves source m hsf hin))] at hmem
        cases hmem
      have hup : ∀ x, Under s₂.parent? x p → Under l.store.parent? x p := by
        rintro x (rfl | hu)
        · exact .refl _
        · exact .inr (above_of_agree (fun y hy => hlink₂ y hy) hkeep (hkeep _ _ hp₂) hu)
      rw [ends_bind]
      refine ((ends_takeNode hs₂ source).and (ends_takeNode_keepsWindows hs₂ source)).mono
        (fun _ l₃ h => ?_) fun _ _ _ => trivial
      obtain ⟨⟨-, p', hp', hsp⟩, hwin₃⟩ := h
      obtain rfl : p = p' := Option.some.inj (hp₂.symm.trans hp')
      rw [ends_onStore]
      -- `f` lies off the climb from `p`, and is not `source`
      obtain ⟨htabs, hshown⟩ := hfinal _ ((Store.kindOf_discard_of_ne _ hne).trans
        (hsp.kinds f hfc₂ fun hu => hs.not_under_folder hf hp (fun h => hnot (h ▸ hp)) (hup f hu)))
      refine ⟨⟨htabs, hshown, fun _ => ⟨Store.contains_discard_self _ _, fun win hw hws => ?_⟩⟩,
        fun win hw _ hwp => hwin₃ p hp₂ win hw (hwp p hp), fun q hq x hx hxu hxf hxs => ?_⟩
      · -- a node with a container is no window's folder
        have htop := hs.top_of_mem (List.mem_append_left E (List.mem_cons_of_mem _
          (List.mem_append_left _ (List.mem_map_of_mem hw))))
        rw [hws, hp] at htop
        cases htop.2
      · obtain rfl : p = q := Option.some.inj (hp.symm.trans hq)
        have hx₂ : s₂.kindOf x = l.store.kindOf x := hkind₂ x hxs hxf
        have hxc₂ : s₂.contains x = true := (Store.contains_eq_of_kindOf hx₂).trans hx
        have hoff : ¬ Under s₂.parent? x p := fun hu => hxu (hup x hu)
        rw [Store.kindOf_discard_of_ne _ (Ne.symm hxs), hsp.kinds x hxc₂ hoff, hx₂,
          Store.contains_eq_of_kindOf (Store.kindOf_discard_of_ne _ (Ne.symm hxs))]
        exact ⟨(hsp.kept x hxc₂ hoff).1, rfl⟩
    · -- without a container it is a window's folder: the window closes
      next hnone =>
      have hp₂ : s₂.parent? source = none := by simpa using hnone
      have hp : l.store.parent? source = none := (hlink₂ source hnin).symm.trans hp₂
      obtain ⟨win, hw, rfl⟩ := hloose hp
      have hempty : s₂.held win.folder = [] := by rw [hheld₂, if_pos rfl]
      refine ((ends_tidy_closesEmpty hs₂ hw hfix hempty).and ((ends_tidy hs₂ win.folder).and
        (ends_tidy_keepsWindows hs₂ win.folder))).mono (fun _ l₃ h => ?_) fun _ _ _ => trivial
      obtain ⟨⟨hclosed, hgone⟩, ⟨-, hsp⟩, hkeep⟩ := h
      -- `f` is not the folder, which has no container, nor above it
      have hfoff : ¬ Under s₂.parent? f win.folder := by
        rintro (h | h)
        · exact hne h.symm
        · obtain ⟨m, hm⟩ := h.exists_parent
          rw [hp₂] at hm
          cases hm
      obtain ⟨htabs, hshown⟩ := hfinal _ (hsp.kinds f hfc₂ hfoff)
      refine ⟨⟨htabs, hshown, fun _ => ⟨hgone, fun win' hw' hws' => ?_⟩⟩,
        fun win' hw' hws' _ => hkeep win' hw' hws', fun q hq => by rw [hp] at hq; cases hq⟩
      rw [List.inj_on_of_nodup_map hs.folders_nodup hw' hw hws']
      exact hclosed
  · -- a pane leaves its container for the folder, where it is selected
    next hnotfold =>
    have hnf : l.store.isFolder source = false := by simp [Store.isFolder, hsn, hnotfold]
    rw [ends_bind]
    refine ((ends_takeNode hs source).and (ends_takeNode_keepsWindows hs source)).mono
      (fun _ l₃ h => ?_) fun _ _ _ => trivial
    obtain ⟨⟨hs₃, p, hp, hsp⟩, hwin₃⟩ := h
    have hfoff : ¬ Under l.store.parent? f p := hs.not_under_folder hf hp fun h => hnot (h ▸ hp)
    have hfk₃ := hsp.kinds f hfc hfoff
    have hff₃ : l₃.store.form? f = some .folder := (Store.form?_eq_of_kindOf hfk₃).trans hf
    obtain ⟨s₄, h₄⟩ := Store.pushChild_ok (.inl hff₃)
      (hs₃.top_of_mem (hs₃.extra_mem List.mem_cons_self)).1
    rw [ends_bind, ends_edit_of_ok h₄, ends_bind, ends_select, ends_pure]
    obtain ⟨htabs, hshown⟩ := Store.pushChild_select hff₃ h₄
    have hpar₄ : s₄.parent? source = some f := by rw [Store.parent?_pushChild h₄, if_pos rfl]
    refine ⟨⟨?_, fun t ht => ?_, fun h => absurd h (by simp [hnf])⟩,
      fun win hw _ hwp => hwin₃ p hp win hw (hwp p hp), fun q hq x hx hxu hxf hxs => ?_⟩
    · rw [htabs, Store.children_eq_of_kindOf hfk₃, Store.stackedTabs, hnf]
      rfl
    · rw [Store.shownTab, hnf] at ht
      cases ht
      exact hshown
    · obtain rfl : p = q := Option.some.inj (hp.symm.trans hq)
      have hk : (s₄.select source).2.kindOf x = l.store.kindOf x := by
        rw [Store.kindOf_select hpar₄ (Ne.symm hxf), Store.kindOf_pushChild h₄ (Ne.symm hxf),
          hsp.kinds x hx hxu]
      exact ⟨(Store.contains_eq_of_kindOf hk).trans hx, hk⟩

/-- Stacking through the folder found or made for a reference that is a pane or a folder,
when the node is not a tab of that folder yet. -/
theorem ends_stackInto (hs : l.Sound E) {source reference : NodeId}
    (hsrc : l.store.Movable source) (href : l.store.Movable reference) (hsr : source ≠ reference)
    (hnab : ¬ Above l.store.parent? source reference) (hfix : l.isFixed source = false)
    (hloose : l.store.parent? source = none → ∃ win ∈ l.windows, win.folder = source)
    (hA : ∀ f', l.store.form? f' = some .folder →
      (f' = reference ∨ l.store.parent? reference = some f') → l.store.parent? source ≠ some f') :
    Ends (do let f ← targetFolder reference; moveInto source f) l (fun _ l' => ∃ F before,
      StackTarget l source reference F before ∧ StackedInto l l' source F before)
      fun _ _ => True := by
  have hf := hs.forest
  rw [ends_bind]
  refine (ends_targetFolder hs href).mono (fun f' l₂ h => ?_) fun _ _ _ => trivial
  rcases h with ⟨hl₂, hff, hwhere⟩ |
    ⟨hs₂, hff, hnew, hkeep, hpar₂, hsame, hkids, hkind, hrnf, hrnone, hl₂⟩
  · -- the reference is the folder, or a tab of it
    subst l₂
    have hsf : source ≠ f' := by
      rintro rfl
      rcases hwhere with h | h
      · exact hsr h
      · exact hnab (.parent h)
    -- `source` is no tab of the folder
    have herase : (l.store.children f').erase source = l.store.children f' :=
      List.erase_of_not_mem fun hm => hA f' hff hwhere
        (hf.mem_held_iff.mp (by rwa [Store.held_eq_children (.inl hff)]))
    refine (ends_moveInto_tabs hs hsrc hff hsf (hA f' hff hwhere) hfix hloose).mono
      (fun _ l' h => ⟨f', _, .inl ⟨?_, rfl⟩, by rw [herase]; exact h.1⟩) fun _ _ _ => trivial
    rcases hwhere with rfl | h
    · exact .inl ⟨Store.isFolder_of_form? hff, rfl⟩
    · have hleaf := hs.tabs_leaves f' reference hff (hf.mem_held_iff.mpr h)
      refine .inr ⟨?_, folderOf_eq_some_iff.mpr ⟨h, hff⟩⟩
      cases hrf : l.store.isFolder reference
      · rfl
      · exact absurd (.inl (Store.form?_of_isFolder hrf)) hleaf.not_isContainer
  · -- a new folder takes the reference's slot; `source` keeps its kind and its container
    have hsc := hsrc.contains
    have hkeep₀ : l₂.store.kindOf source = l.store.kindOf source :=
      hkind source hsc fun h => hnab (.parent h)
    have hsf : source ≠ f' := fun h => by rw [h, hnew] at hsc; cases hsc
    have hpar : l₂.store.parent? source = l.store.parent? source := hsame source hsc hsr
    have hfix₂ : l₂.isFixed source = false := by rw [hl₂]; exact hfix
    have hloose₂ : l₂.store.parent? source = none → ∃ win ∈ l₂.windows, win.folder = source := by
      rw [hpar, hl₂]
      exact hloose
    refine (ends_moveInto_tabs hs₂ ((Store.Movable.congr (hkeep source hsc)).mpr hsrc) hff hsf
      (fun h => hsr (hpar₂ source h)) hfix₂ hloose₂).mono
      (fun _ l' h => ⟨f', [reference], .inr ⟨hrnf, hrnone, hnew, rfl⟩, ⟨?_, fun t ht => ?_, fun hsf' => ?_⟩⟩)
      fun _ _ _ => trivial
    · rw [h.1.tabs, hkids, Store.stackedTabs_eq_of_kindOf hkeep₀]
    · exact h.1.shown t (by rwa [Store.shownTab_eq_of_kindOf hkeep₀])
    · have hgone := h.1.gone (by rwa [Store.isFolder_eq_of_kindOf hkeep₀])
      rw [hl₂] at hgone
      exact hgone

/-- Stacking a node into the folder of another puts the tabs it brings after the tabs of the
folder found for the reference (`StackTarget`, `StackedInto`). -/
theorem ends_stackNode_tabs (hs : l.Sound E) (source reference : NodeId) :
    Ends (stackNode source reference) l (fun _ l' => ∃ F before,
      StackTarget l source reference F before ∧ StackedInto l l' source F before)
      fun _ _ => True := by
  have hs₀ : ({ l with zoomed := none } : Layout).Sound E := hs.of_frames rfl rfl rfl rfl rfl rfl
  rw [stackNode, ends_bind, ends_zoomOut]
  -- ending the zoom changes nothing the stacking reads
  set l₀ : Layout := { l with zoomed := none } with hl₀
  have hf := hs₀.forest
  rw [ends_bind]
  refine (ends_ensureMovable source).mono (fun _ l₀ h => ?_) fun _ _ _ => trivial
  obtain ⟨rfl, hfix, hsrc, hwin⟩ := h
  rw [ends_bind, ends_get]
  refine ends_guard (fun _ => trivial) fun hc₁ => ?_
  have hsr : source ≠ reference := fun h => hc₁ (by simp [h])
  have hnab : ¬ Above l₀.store.parent? source reference := fun h =>
    hc₁ (by simp [hf.isAncestor_iff.mpr h])
  -- a node without a container that may move is a window's folder
  have hloose : l₀.store.parent? source = none → ∃ win ∈ l₀.windows, win.folder = source := by
    intro hp
    rcases windowOf_loose hwin hp with hroot | hw
    · simp [isFixed, hroot] at hfix
    · exact hw
  rw [ends_bind, ends_node]
  split
  · next target hrn =>
    refine ends_guard (fun _ => trivial) fun hc₂ => ?_
    have href : l₀.store.Movable reference :=
      Store.movable_of_get? hrn (by cases hp : target.kind.isPane <;> simp_all)
    have hstack : (∀ f', l₀.store.form? f' = some .folder →
        (f' = reference ∨ l₀.store.parent? reference = some f') →
        l₀.store.parent? source ≠ some f') →
        Ends (do let f ← targetFolder reference; moveInto source f) l₀ (fun _ l' => ∃ F before,
          StackTarget l source reference F before ∧ StackedInto l l' source F before)
          fun _ _ => True := fun hA =>
      (ends_stackInto hs₀ hsrc href hsr hnab hfix hloose hA).mono
        (fun _ _ h => by
          obtain ⟨F, before, h₁, h₂⟩ := h
          exact ⟨F, before, h₁, h₂.of_kindOf rfl fun _ h => h⟩) fun _ _ h => h
    obtain ⟨sn, hsn⟩ := (Store.contains_iff _ _).mp hsrc.contains
    rw [ends_bind, ends_node_of hsn]
    dsimp only
    split
    · next f hrf =>
      -- the folder the reference is in, or is
      have hwhich : (l₀.store.isFolder reference = true ∧ f = reference) ∨
          (l₀.store.isFolder reference = false ∧ l₀.folderOf reference = some f) := by
        split at hrf
        · next hfold =>
          cases hrf
          exact .inl ⟨by simp [Store.isFolder, hrn, hfold], rfl⟩
        · next hnfold => exact .inr ⟨by simp [Store.isFolder, hrn, hnfold], hrf⟩
      have hff : l₀.store.form? f = some .folder := by
        rcases hwhich with ⟨h, rfl⟩ | ⟨-, h⟩
        · exact Store.form?_of_isFolder h
        · exact (folderOf_eq_some_iff.mp h).2
      split
      · -- a tab moves to the end of its own folder
        next hre =>
        refine ends_guard (fun _ => trivial) fun _ => ?_
        simp only [Bool.and_eq_true, Bool.not_eq_true', beq_iff_eq] at hre
        obtain ⟨hnf, hfs⟩ := hre
        obtain ⟨hsp, -⟩ := folderOf_eq_some_iff.mp hfs
        have hnf' : l₀.store.isFolder source = false := by simp [Store.isFolder, hsn, hnf]
        obtain ⟨w, s₁, h₁⟩ := Store.removeChild_ok (.inl hff) (hf.mem_held_iff.mpr hsp)
          hsrc.contains
        have hff₁ : s₁.form? f = some .folder := by rw [Store.form?_removeChild h₁, hff]
        obtain ⟨s₂, h₂⟩ := Store.pushChild_ok (.inl hff₁)
          ((Store.contains_removeChild h₁ _).trans hsrc.contains)
        rw [ends_bind, ends_editWith_of_ok h₁, ends_bind, ends_edit_of_ok h₂, ends_bind,
          ends_select, ends_pure]
        obtain ⟨htabs, hshown⟩ := Store.pushChild_select hff₁ h₂
        refine ⟨f, _, .inl ⟨hwhich, rfl⟩,
          ⟨?_, fun t ht => ?_, fun h => absurd (hnf'.symm.trans h) Bool.false_ne_true⟩⟩
        · rw [htabs, ← Store.held_eq_children (.inl hff₁), Store.held_removeChild h₁, if_pos rfl,
            Store.held_eq_children (.inl hff), Store.stackedTabs, hnf']
          rfl
        · rw [Store.shownTab, hnf'] at ht
          cases ht
          exact hshown
      · next hre =>
        refine hstack fun f' hff' hwhere hps => hre ?_
        -- `source` would be a tab of `f'`, which is the reference's folder
        have hleaf : l₀.store.IsLeaf source := hs₀.tabs_leaves f' source hff' (hf.mem_held_iff.mpr hps)
        have hnf : sn.kind.isFolder = false := by
          cases h : sn.kind.isFolder
          · rfl
          · exact absurd (.inl ((Store.form?_eq_folder_iff hsn).mpr h)) hleaf.not_isContainer
        have hf' : f' = f := by
          rcases hwhich with ⟨hrf', rfl⟩ | ⟨hrf', hfo'⟩
          · rcases hwhere with h | h
            · exact h
            · have hrleaf := hs₀.tabs_leaves f' f hff' (hf.mem_held_iff.mpr h)
              exact absurd (.inl (Store.form?_of_isFolder hrf')) hrleaf.not_isContainer
          · rcases hwhere with h | h
            · have hrleaf := hs₀.tabs_leaves f reference hff
                (hf.mem_held_iff.mpr (folderOf_eq_some_iff.mp hfo').1)
              rw [h] at hff'
              exact absurd (.inl hff') hrleaf.not_isContainer
            · exact Option.some.inj (h.symm.trans (folderOf_eq_some_iff.mp hfo').1)
        subst hf'
        simp [hnf, folderOf_eq_some_iff.mpr ⟨hps, hff'⟩]
    · next hrf =>
      refine hstack fun f' hff' hwhere _ => ?_
      -- the reference is a pane without a folder
      split at hrf
      · cases hrf
      · next hnotfold =>
        rcases hwhere with h | h
        · rw [h] at hff'
          exact hnotfold ((Store.form?_eq_folder_iff hrn).mp hff')
        · rw [folderOf_eq_some_iff.mpr ⟨h, hff'⟩] at hrf
          cases hrf
  · trivial

theorem detachNode_grounded (h : l.host.floating = false) (source : NodeId) (b : FloatRect) :
    (detachNode source b).run l = .ok none l := by
  unfold detachNode
  -- the request reads the host first, and one without floating windows ends it
  show (if (!l.host.floating) = true then pure none else _ : LayoutM (Option WindowId)) l = _
  rw [if_pos (by rw [h]; rfl)]
  rfl

/-- Opening a window gives it the next number, the bounds raised to the floor, the folder and
a new surface, after the windows already open. -/
theorem ends_openWindow_new (f : NodeId) (b : FloatRect) :
    Ends (openWindow f b) l (fun r l' => ∀ w, r = some w → w = ⟨l.nextWindow⟩ ∧
      ∃ surface, l'.windows = l.windows ++
        [{ id := w, bounds := b.withMinSize, folder := f, surface := some surface }])
      fun _ _ => True := by
  rw [openWindow, ends_bind, ends_get]
  dsimp only
  split
  · rw [ends_bind, ends_set, ends_pure]
    intro w hw
    cases hw
  · next surface host _ =>
    rw [ends_bind, ends_set, ends_pure]
    intro w hw
    cases hw
    exact ⟨rfl, surface, rfl⟩

/-- Moving a window sets its bounds, raised to the floor, and changes no other window and no
node. -/
theorem ends_moveWindow_moves {w : WindowId} {win : Window} (hw : l.window? w = some win)
    (b : FloatRect) :
    Ends (moveWindow w b) l (fun _ l' => l'.window? w = some { win with bounds := b.withMinSize } ∧
      l'.store = l.store ∧ ∀ w', w' ≠ w → l'.window? w' = l.window? w') fun _ _ => True := by
  have hid : win.id = w := by simpa using List.find?_some hw
  -- moving a window keeps every window's number
  have hkey : ∀ v : WindowId, ((fun x : Window => x.id == v) ∘ fun x : Window =>
      if (x.id == w) = true then { x with bounds := b.withMinSize } else x) =
      fun x => x.id == v := fun v => by
    funext x
    simp only [Function.comp]
    split <;> rfl
  rw [moveWindow, ends_bind, ends_get, hw]
  dsimp only
  rw [ends_set]
  refine ⟨?_, rfl, fun w' hne => ?_⟩
  · rw [window?, List.find?_map, hkey]
    rw [window?] at hw
    simp [hw, hid]
  · rw [window?, List.find?_map, hkey, window?]
    cases h : l.windows.find? (·.id == w') with
    | none => rfl
    | some x =>
      have hx : x.id = w' := by simpa using List.find?_some h
      simp [hx, hne]

/-- Moving a node into the folder of a window just opened for it, on a layout that the window
and its new folder are all that was added to: the node floats in a new window. -/
theorem ends_moveInto_opened (hs : l.Sound E) {source : NodeId} (hsrc : l.store.Movable source)
    (hfix : l.isFixed source = false) (hwin : (l.windowOf source).isSome) {b : FloatRect}
    {ident : String} {surface : SurfaceId} {l₂ : Layout} {E₂ : List NodeId} (hs₂ : l₂.Sound E₂)
    (hst : l₂.store = (l.store.alloc ident .emptyFolder).2) (hroot : l₂.root = l.root)
    (harea : l₂.editorArea = l.editorArea)
    (hwins : l₂.windows = l.windows ++
      [{ id := ⟨l.nextWindow⟩, bounds := b.withMinSize, folder := l.store.nextId,
         surface := some surface }]) :
    Ends (moveInto source l.store.nextId) l₂ (fun _ l' => FloatedNew l l' source b ⟨l.nextWindow⟩
      { id := ⟨l.nextWindow⟩, bounds := b.withMinSize, folder := l.store.nextId,
        surface := some surface }) fun _ _ => True := by
  have hf := hs.forest
  have hsc : l.store.contains source = true := hsrc.contains
  have hsn : source ≠ l.store.nextId := Store.ne_nextId_of_contains hsc
  have hkind : ∀ x, x ≠ l.store.nextId → l₂.store.kindOf x = l.store.kindOf x := fun x hx => by
    rw [hst]
    exact Store.kindOf_alloc_of_ne _ _ _ hx
  have hpar : l₂.store.parent? source = l.store.parent? source := by
    rw [hst, Store.parent?_alloc, if_neg hsn]
  have hF₂ : l₂.store.form? l.store.nextId = some .folder := by
    rw [hst, Store.form?_alloc, if_pos rfl]
    rfl
  have hsrc₂ : l₂.store.Movable source :=
    (Store.Movable.congr (by rw [hst]; exact Store.form?_alloc_of_contains hsc _ _)).mpr hsrc
  have hnot : l₂.store.parent? source ≠ some l.store.nextId := by
    rw [hpar]
    exact hf.parent_ne_nextId
  have hfix₂ : l₂.isFixed source = false := by
    rw [isFixed, hroot, harea]
    exact hfix
  -- a node without a container that may move is a window's folder
  have hloose₂ : l₂.store.parent? source = none → ∃ win ∈ l₂.windows, win.folder = source := by
    intro hp
    rw [hpar] at hp
    rcases windowOf_loose hwin hp with hr | ⟨v, hv, hvf⟩
    · simp [isFixed, hr] at hfix
    · exact ⟨v, by rw [hwins]; exact List.mem_append_left _ hv, hvf⟩
  refine ((ends_moveInto_tabs hs₂ hsrc₂ hF₂ hsn hnot hfix₂ hloose₂).and
    (ends_moveInto hs₂ hsrc₂ hF₂ hsn hnot)).mono (fun _ l' h => ?_) fun _ _ _ => trivial
  obtain ⟨⟨htabs, hwins', hkeep⟩, hs'⟩ := h
  have hchildren : l₂.store.children l.store.nextId = [] := by
    rw [← Store.held_eq_children (.inl hF₂), hst, Store.held_alloc, if_pos rfl]
    rfl
  rw [hchildren] at htabs
  have htabs' : StackedInto l l' source l.store.nextId [] :=
    htabs.of_kindOf (hkind source hsn) fun win hw => by
      rw [hwins]
      exact List.mem_append_left _ hw
  -- the new window stays: its folder is new, so neither `source` nor its container
  set win : Window :=
    { id := ⟨l.nextWindow⟩, bounds := b.withMinSize, folder := l.store.nextId,
      surface := some surface } with hwin_def
  have hmem : win ∈ l'.windows := by
    refine hwins' win ?_ hsn.symm fun p hp => ?_
    · rw [hwins]
      exact List.mem_append_right _ (List.mem_singleton_self _)
    · exact (Store.ne_nextId_of_contains (hf.contains_of_parent (hpar ▸ hp))).symm
  refine ⟨hs.window?_next, window?_eq hs' hmem, rfl, rfl, Store.contains_nextId _, htabs',
    fun p hp => htabs'.not_held hs' ?_, fun p hp x hx hxu hxs => ?_⟩
  · exact Store.ne_nextId_of_contains (hf.contains_of_parent hp)
  · have hxn : x ≠ l.store.nextId := Store.ne_nextId_of_contains hx
    have hx₂ : l₂.store.contains x = true := by
      rw [hst]
      exact (Store.contains_alloc _ _ _ x).mpr (.inr hx)
    obtain ⟨hc, hk⟩ := hkeep p (hpar.trans hp) x hx₂
      (fun hu => hxu (hf.under_of_under_alloc (Store.ne_nextId_of_contains
        (hf.contains_of_parent hp)) (hst ▸ hu))) hxn hxs
    exact ⟨hc, hk.trans (hkind x hxn)⟩

/-- Floating a node, when it gives a window: a node that shows every pane of its detached
window moves that window (`FloatedAlone`); any other goes into the folder of a new window
(`FloatedNew`). -/
theorem ends_detachNode_floats (hs : l.Sound E) (source : NodeId) (b : FloatRect) :
    Ends (detachNode source b) l (fun r l' => ∀ w, r = some w →
      (∃ win, FloatedAlone l l' source b w win) ∨ ∃ win, FloatedNew l l' source b w win)
      fun _ _ => True := by
  rw [detachNode, ends_bind, ends_get]
  split
  · intro w hw
    cases hw
  have hs₀ : ({ l with zoomed := none } : Layout).Sound E := hs.of_frames rfl rfl rfl rfl rfl rfl
  rw [ends_bind, ends_zoomOut]
  -- ending the zoom changes nothing the floating reads
  set l₀ : Layout := { l with zoomed := none } with hl₀
  rw [ends_bind]
  refine (ends_ensureMovable source).mono (fun _ l₀ h => ?_) fun _ _ _ => trivial
  obtain ⟨rfl, hfix, hsrc, hwin⟩ := h
  rw [ends_bind, ends_get]
  extract_lets toNewWindow
  -- a new folder in a new window takes `source`
  have hnew : Ends (toNewWindow ()) l₀ (fun r l' => ∀ w, r = some w →
      ∃ win, FloatedNew l l' source b w win) fun _ _ => True := by
    dsimp only [toNewWindow]
    obtain ⟨ident, hid⟩ := Store.allocContainer_eq l₀.store .emptyFolder
    have hs₁ : ({ l₀ with store := (l₀.store.alloc ident .emptyFolder).2 } : Layout).Sound
        (l₀.store.nextId :: E) := hs₀.alloc _ _ rfl rfl
    have hfold₁ : (l₀.store.alloc ident .emptyFolder).2.form? l₀.store.nextId = some .folder := by
      rw [Store.form?_alloc, if_pos rfl]
      rfl
    rw [ends_bind, ends_allocContainer, hid, ends_bind]
    refine ((ends_openWindow hs₁ List.mem_cons_self hfold₁ b).and (ends_openWindow_new _ b)).mono
      (fun r l₂ h => ?_) fun _ _ _ => trivial
    obtain ⟨⟨hst, hroot, harea, hs₂⟩, hopen⟩ := h
    cases r with
    | none =>
      rw [ends_bind, ends_onStore, ends_pure]
      intro w hw
      cases hw
    | some w =>
      obtain ⟨rfl, surface, hwins⟩ := hopen w rfl
      rw [ends_bind]
      exact (ends_moveInto_opened hs hsrc hfix hwin hs₂ hst hroot harea hwins).mono
        (fun _ _ h w' hw' => ⟨_, by cases hw'; exact h⟩) fun _ _ _ => trivial
  have hnew' : Ends (toNewWindow ()) l₀ (fun r l' => ∀ w, r = some w →
      (∃ win, FloatedAlone l l' source b w win) ∨ ∃ win, FloatedNew l l' source b w win)
      fun _ _ => True :=
    hnew.mono (fun _ _ h w hw => .inr (h w hw)) fun _ _ _ => trivial
  split
  · next w hw =>
    dsimp only
    split
    · next f hf =>
      split
      · -- `source` shows every pane of its window, which just moves
        next hlone =>
        obtain ⟨win, hwin', rfl⟩ := Option.map_eq_some_iff.mp hf
        have hmem : win ∈ l.windows := List.mem_of_find?_eq_some hwin'
        have hff : l.store.form? win.folder = some .folder :=
          hs.frames_folders _ (List.mem_append_left _ (List.mem_map_of_mem hmem))
        have hunder := hs₀.under_of_windowOf hw hwin'
        rw [ends_bind]
        refine (ends_moveWindow_moves hwin' b).mono (fun _ l' h => ?_) fun _ _ _ => trivial
        obtain ⟨hmoved, hst, hothers⟩ := h
        intro w' hw'
        cases hw'
        exact .inl ⟨win, hwin', hunder,
          fun x hx hxu => hs.under_of_countPanes hff hunder (beq_iff_eq.mp hlone) hx hxu,
          hmoved, hst, hothers⟩
      · exact hnew'
    · exact hnew'
  · exact hnew'

end LayoutM

namespace Layout

/-- On every layout a script can reach, stacking a node into the folder of another puts the
tabs the node brings after the tabs of the folder found for the reference: the reference itself
when it is a folder, else its folder, each less the node, or else a new folder holding the
reference. That folder shows the tab the node showed, and a stacked folder is gone, with the
window it was the folder of. -/
theorem Reachable.stacking_appends_tabs {l l' : Layout} (hl : l.Reachable)
    {source reference : NodeId} (h : (LayoutM.stackNode source reference).run l = .ok () l') :
    ∃ F before, StackTarget l source reference F before ∧ StackedInto l l' source F before :=
  (LayoutM.ends_stackNode_tabs hl.sound source reference).run_ok h

/-- Two views side by side: stacking the second onto the first wraps the first in a new
folder, whose tabs are the first and then the second. -/
theorem Reachable.stacking_appends_tabs_pair :
    let l := (Script.layoutStep ⟨(Script.layoutStep ⟨Layout.empty (Host.fresh true), []⟩
      (.addPane ⟨"A", .view⟩)).2.layout, []⟩ (.addPane ⟨"B", .view⟩)).2.layout
    let l' := LayoutM.leaves (LayoutM.stackNode ⟨2⟩ ⟨1⟩) l
    l.Reachable ∧ (LayoutM.stackNode ⟨2⟩ ⟨1⟩).run l = .ok () l' ∧
      ∃ F before, StackTarget l ⟨2⟩ ⟨1⟩ F before ∧ StackedInto l l' ⟨2⟩ F before :=
  have h := Reachable.step [] (.addPane ⟨"B", .view⟩)
    (.step [] (.addPane ⟨"A", .view⟩) (.empty _) fun _ => nofun) fun _ => nofun
  have hrun : (LayoutM.stackNode ⟨2⟩ ⟨1⟩).run _ = .ok () _ := rfl
  ⟨h, hrun, Reachable.stacking_appends_tabs h hrun⟩

/-- On every layout a script can reach, floating a node on a host without floating windows
does nothing and gives no window. A window that floating gives is the node's own detached
window, moved, when the node showed every pane of it (`FloatedAlone`), or else a new window
whose new folder holds what the node brings (`FloatedNew`). -/
theorem Reachable.detaching_floats {l : Layout} (hl : l.Reachable) (source : NodeId)
    (b : FloatRect) :
    (l.host.floating = false → (LayoutM.detachNode source b).run l = .ok none l) ∧
    ∀ w l', (LayoutM.detachNode source b).run l = .ok (some w) l' →
      (∃ win, FloatedAlone l l' source b w win) ∨ ∃ win, FloatedNew l l' source b w win :=
  ⟨fun h => LayoutM.detachNode_grounded h source b,
    fun w _ h => (LayoutM.ends_detachNode_floats hl.sound source b).run_ok h w rfl⟩

/-- A lone view floats in a new window, the first one, with its bounds raised to the floor. -/
theorem Reachable.detaching_floats_view :
    let l := (Script.layoutStep ⟨Layout.empty (Host.fresh true), []⟩
      (.addPane ⟨"A", .view⟩)).2.layout
    let b : FloatRect := ⟨10, 10, 20, 300⟩
    let l' := LayoutM.leaves (LayoutM.detachNode ⟨1⟩ b) l
    l.Reachable ∧ (LayoutM.detachNode ⟨1⟩ b).run l = .ok (some ⟨0⟩) l' ∧
      ((∃ win, FloatedAlone l l' ⟨1⟩ b ⟨0⟩ win) ∨ ∃ win, FloatedNew l l' ⟨1⟩ b ⟨0⟩ win) :=
  have h := Reachable.step [] (.addPane ⟨"A", .view⟩) (.empty _) fun _ => nofun
  have hrun : (LayoutM.detachNode ⟨1⟩ ⟨10, 10, 20, 300⟩).run _ = .ok (some ⟨0⟩) _ := rfl
  ⟨h, hrun, (Reachable.detaching_floats h ⟨1⟩ _).2 _ _ hrun⟩

end Layout

end Docking
