import Docking.Proofs.Showing
import Docking.Proofs.Page.Narration
/-!
# Activating a part brings it to the front

A layout pass shows a pane when the pass enters every container above it: a folder enters only
its selected tab, and a pass over a window starts from the zoomed unit when one of the window's
units is zoomed. `Layout.InFront l part n` says that `n` is the pane found for `part`, that it is
the selected tab of the folder holding it, and that it lies within the zoom. In a sound layout
the pass over the pane's window then lists the part, for every area (`InFront.regions_lists`):
below a folder lie only its tabs, so the one folder on the way down is the pane's own.

Activating an owned part that is shown or kept as a fast view puts it there
(`activate_brings_to_front`): a fast view is shown again first, the zoom ends when the pane lies
outside it, the pane is selected in its folder, and the part becomes the active one.
-/

namespace Docking

namespace Store

variable {s s' : Store} {x n : NodeId}

/-! ### The path of a pass -/

/-- Every folder between `x` and the node `n` below it selects the tab toward `n`. -/
def Raised (s : Store) (x n : NodeId) : Prop :=
  ∀ a c, Under s.parent? x a → s.parent? c = some a → Under s.parent? c n →
    s.form? a = some .folder → s.selectedTab a = some c

theorem Raised.below {c : NodeId} (h : s.Raised x n) (hc : s.parent? c = some x) :
    s.Raised c n :=
  fun a c' hca => h a c' ((Under.of_above (.parent hc)).trans hca)

theorem Raised.of_kindOf (h : s.Raised x n) (hp : s'.parent? = s.parent?)
    (hk : ∀ y, s'.kindOf y = s.kindOf y) : s'.Raised x n := by
  intro a c hxa hca hcn ha
  rw [hp] at hxa hca hcn
  rw [selectedTab_eq_of_kindOf (hk a)]
  exact h a c hxa hca hcn (by rwa [form?_eq_of_kindOf (hk a)] at ha)

theorem Forest.mem_walk_of_under (hf : s.Forest) {r u : NodeId} (hn : n ∈ s.walk r false)
    (htop : s.parent? r = none) (hu : Under s.parent? u n) : n ∈ s.walk u false := by
  obtain ⟨hc, hrn, hno⟩ := hf.mem_walk_false_iff.mp hn
  refine hf.mem_walk_false_iff.mpr ⟨hc, hu, fun a ha _ => hno a ha ?_⟩
  -- every container above `n` lies below the window's root, which has none above it
  rcases under_total hrn (.inr ha) with hra | har
  · exact hra
  · exact .inl (har.eq_of_top htop).symm

theorem kindOf_of_form_pane {pn : Pane} (h : s.form? x = some (.pane pn)) :
    s.kindOf x = some (.pane pn) := by
  obtain ⟨k, hk, hform⟩ := Option.map_eq_some_iff.mp ((form?_eq_map_kindOf s x).symm.trans h)
  cases k with
  | pane p =>
    cases hform
    exact hk
  | _ => cases hform

theorem held_of_kindOf {k : NodeKind} (h : s.kindOf x = some k) :
    s.held x = walkChildren true k := by
  obtain ⟨xn, hxn, rfl⟩ := Option.map_eq_some_iff.mp h
  exact held_of_get? hxn

theorem shownHeld_of_kindOf {k : NodeKind} (h : s.kindOf x = some k) :
    s.shownHeld x = walkChildren false k := by
  obtain ⟨xn, hxn, rfl⟩ := Option.map_eq_some_iff.mp h
  simp only [shownHeld, form?, held, hxn, Option.map_some, Option.some.injEq, walkChildren_false]

/-- A node below which a pane is shown is no placeholder and no collapsed node. -/
theorem not_isPlaceholder_of_walk {c : NodeId} {k : Nat} {kc : NodeKind} {pn : Pane}
    (hn : s.form? n = some (.pane pn)) (h : n ∈ s.walkFrom false k c)
    (hc : s.kindOf c = some kc) : kc.isPlaceholder = false := by
  cases k with
  | zero => simp [walkFrom] at h
  | succ k =>
    rw [walkFrom_false_succ, shownHeld_of_kindOf hc] at h
    -- a placeholder and a collapsed node show only themselves
    have hself : walkChildren false kc = [] → n = c := fun hw => by
      split at h
      · simpa [hw] using h
      · cases h
    cases kc with
    | placeholder q =>
      rw [hself rfl, form?_eq_map_kindOf, hc] at hn
      cases hn
    | collapsed inner =>
      rw [hself rfl, form?_eq_map_kindOf, hc] at hn
      cases hn
    | _ => rfl

end Store

theorem exists_mem_zip {α β : Type} {L : List α} {M : List β} {a : α} {Q : α × β → Prop}
    (ha : a ∈ L) (hlen : L.length ≤ M.length) (hQ : ∀ b, Q (a, b)) : ∃ t ∈ L.zip M, Q t := by
  obtain ⟨i, hi, rfl⟩ := List.getElem_of_mem ha
  exact ⟨(L[i], M[i]), List.mem_iff_getElem.mpr ⟨i, by simp; omega, by simp⟩, hQ _⟩

namespace Layout

open Store

variable {l : Layout} {E : List NodeId}

/-! ### Windows and the zoom read the links alone -/

theorem windowOf_sameShape {s s' : Store} (hf : s.Forest) (h : SameShape s s') :
    ({ l with store := s' } : Layout).windowOf = ({ l with store := s } : Layout).windowOf := by
  funext m
  have hp : s'.parent? = s.parent? := funext fun y => (h y).1
  refine windowOf_congr ?_ ?_ ?_ ?_
  · rfl
  · rfl
  · exact h.contains_eq m
  · exact hf.rootOf_congr (hf.of_sameShape h) (fun t ht => by rwa [hp]) fun t _ ht => by rwa [hp]

theorem isWithinZoom_sameShape {s s' : Store} (hf : s.Forest) (h : SameShape s s') :
    ({ l with store := s' } : Layout).isWithinZoom =
      ({ l with store := s } : Layout).isWithinZoom := by
  funext m
  have hp : s'.parent? = s.parent? := funext fun y => (h y).1
  have hanc : ∀ a, s'.isAncestor a m = s.isAncestor a m := fun a => by
    rw [Bool.eq_iff_iff, (hf.of_sameShape h).isAncestor_iff, hf.isAncestor_iff, hp]
  unfold isWithinZoom
  rw [windowOf_sameShape hf h]
  simp only [hanc]

theorem mem_windowRoots_of_windowRoot? {w : WindowRef} {r : NodeId}
    (hw : l.windowRoot? w = some r) : r ∈ l.windowRoots := by
  cases w with
  | main =>
    cases hw
    exact List.mem_cons_self
  | detached id =>
    obtain ⟨win, hwin, rfl⟩ := Option.map_eq_some_iff.mp hw
    exact List.mem_cons_of_mem _ (List.mem_map_of_mem (List.mem_of_find?_eq_some hwin))

/-- A node below a window's root is in that window. -/
theorem Sound.windowOf_of_under (hs : l.Sound E) {r n : NodeId} (hr : r ∈ l.windowRoots)
    (hu : Under l.store.parent? r n) (hn : l.store.contains n = true) :
    ∃ w, l.windowOf n = some w ∧ l.windowRoot? w = some r := by
  have htop := (hs.top_of_mem (List.mem_append_left _ (mem_tops_of_windowRoots hr))).2
  unfold windowOf
  rw [hn, hs.forest.rootOf_eq hu htop]
  rcases List.mem_cons.mp hr with rfl | hmem
  · exact ⟨.main, by simp, rfl⟩
  · obtain ⟨win, hwin, rfl⟩ := List.mem_map.mp hmem
    -- a window's folder is no main root
    have hne : win.folder ≠ l.root := fun h => by
      have hnd := hs.tops_nodup
      rw [tops, List.cons_append, List.nodup_cons] at hnd
      exact hnd.1 (h ▸ List.mem_append_left _ (List.mem_append_left _ hmem))
    refine ⟨.detached win.id, by simp [hne, hs.find_folder hwin], ?_⟩
    simp [windowRoot?, LayoutM.window?_eq hs hwin]

theorem Sound.raised (hs : l.Sound E) {n : NodeId}
    (hsel : ∀ f, l.folderOf n = some f → l.store.selectedTab f = some n) (x : NodeId) :
    l.store.Raised x n := by
  intro a c _ hca hcn ha
  have hleaf := hs.tabs_leaves a c ha (hs.forest.mem_held_iff.mpr hca)
  obtain rfl := (hs.forest.under_leaf_iff hleaf).mp hcn
  exact hsel a (by simp [folderOf, hca, isFolder_of_form? ha])

/-- A part is in front: `n` is the pane found for it, the selected tab of the folder holding it,
and within the zoom. -/
structure InFront (l : Layout) (part : PartId) (n : NodeId) : Prop where
  found : l.findPane part = some n
  selected : ∀ f, l.folderOf n = some f → l.store.selectedTab f = some n
  within : l.isWithinZoom n = true

end Layout

namespace LayoutM

open Store

variable {l : Layout} {E : List NodeId}

/-! ### A pass lists the panes on its path -/

/-- A loop over a list lists a part once the pass of one element lists it and every other
pass keeps `P` and what was listed. -/
theorem ends_forIn_lists {γ : Type} {P : Layout → Prop} {part : PartId} {L : List γ}
    {f : γ → List (PartId × Rect) → LayoutM (ForInStep (List (PartId × Rect)))}
    (hkeep : ∀ y out l, P l → Ends (f y out) l (fun r l' => ∃ out', r = .yield out' ∧ P l' ∧
      (part ∈ out.map (·.1) → part ∈ out'.map (·.1))) fun _ _ => True)
    (ht : ∃ t ∈ L, ∀ out l, P l → Ends (f t out) l (fun r l' => ∃ out', r = .yield out' ∧ P l' ∧
      part ∈ out'.map (·.1)) fun _ _ => True)
    (out : List (PartId × Rect)) (hl : P l) :
    Ends (forIn L out f) l (fun out' l' => P l' ∧ part ∈ out'.map (·.1)) fun _ _ => True := by
  obtain ⟨t, ht, htarget⟩ := ht
  -- the element on the path is still to come, or the part is listed already
  refine (ends_forIn L out f (fun rest out l => P l ∧ (t ∈ rest ∨ part ∈ out.map (·.1)))
    (fun y rest out l ⟨hl, hmem⟩ => ?_) ⟨hl, .inl ht⟩).mono
    (fun _ _ ⟨hl, h⟩ => ⟨hl, h.resolve_left (List.not_mem_nil)⟩) fun _ _ h => h
  by_cases hy : y = t
  · subst hy
    exact (htarget out l hl).mono (fun _ _ ⟨o, ho, hl', hp⟩ => ⟨o, ho, hl', .inr hp⟩) fun _ _ h => h
  · refine (hkeep y out l hl).mono (fun _ _ ⟨o, ho, hl', hp⟩ => ⟨o, ho, hl', ?_⟩) fun _ _ h => h
    rcases hmem with hm | hm
    · exact .inl ((List.mem_cons.mp hm).resolve_left (Ne.symm hy))
    · exact .inr (hp hm)

/-- A pass from `x` over a layout with the kinds of `s` lists the pane `n` when `n` is shown
from `x` and every folder on the way selects the tab toward it; the pass sets bounds only. -/
theorem ends_assignFrom_lists {s : Store} {n : NodeId} {pn : Pane} (hf : s.Forest)
    (ha : s.Aligned) (hn : s.form? n = some (.pane pn)) :
    ∀ (k : Nat) (x : NodeId) (area : Rect) {l : Layout}, l.store.kindOf = s.kindOf →
      n ∈ s.walkFrom false k x → s.Raised x n →
      Ends (assignFrom k x area true) l
        (fun out l' => l'.store.kindOf = s.kindOf ∧ pn.part ∈ out.map (·.1)) fun _ _ => True := by
  have hb : ∀ id r, Keeps (fun l : Layout => l.store.kindOf = s.kindOf)
      (onStore (·.setBounds id r)) :=
    fun id r l hl => funext fun y => (kindOf_setBounds l.store id y r).trans (congrFun hl y)
  intro k
  induction k with
  | zero => intro _ _ _ _ hx; simp [walkFrom] at hx
  | succ k ih =>
    intro x area l hk hx hr
    rw [walkFrom_false_succ] at hx
    have hcx : s.contains x = true := by
      by_contra h
      simp [h] at hx
    rw [if_pos hcx] at hx
    simp only [List.mem_cons, List.mem_flatMap] at hx
    rw [assignFrom, ends_bind, ends_store]
    cases hget : l.store.get? x with
    | none =>
      have hnone : s.kindOf x = none := by rw [← congrFun hk x, kindOf, hget]; rfl
      rw [contains_iff_kindOf, hnone] at hcx
      cases hcx
    | some nd =>
      obtain ⟨ident, parent, bounds, kind⟩ := nd
      dsimp only
      have hkind : s.kindOf x = some kind := by rw [← congrFun hk x, kindOf, hget]; rfl
      have hk₁ : ({ l with store := l.store.setBounds x area } : Layout).store.kindOf = s.kindOf :=
        hb x area l hk
      rw [shownHeld_of_kindOf hkind] at hx
      -- `n` is `x` itself, a pane, or lies below a child of `x` on the path
      obtain rfl | ⟨c, hc, hnc⟩ := hx
      · rw [kindOf_of_form_pane hn] at hkind
        cases hkind
        rw [if_neg (by simp [NodeKind.isPlaceholder]), ends_bind, ends_onStore]
        exact ⟨hk₁, by simp⟩
      have hcx : s.parent? c = some x :=
        hf.held_parent (by rw [held_of_kindOf hkind]; exact mem_walkChildren_true hc)
      have hcn : Under s.parent? c n := (hf.mem_walkFrom hnc).2
      -- a sibling's pass keeps the kinds and appends to what is listed
      have hkeep : ∀ (child : NodeId) (r : Rect) (b : Bool) (out : List (PartId × Rect)) l₂,
          l₂.store.kindOf = s.kindOf →
          Ends (do
              let lifted ← assignFrom k child r b
              pure (ForInStep.yield (out ++ lifted))) l₂
            (fun r l' => ∃ out', r = .yield out' ∧ l'.store.kindOf = s.kindOf ∧
              (pn.part ∈ out.map (·.1) → pn.part ∈ out'.map (·.1))) fun _ _ => True :=
        fun child r b out l₂ hl₂ => by
          rw [ends_bind]
          refine (keeps_assignFrom_of hb k child r b l₂ hl₂).mono
            (fun _ _ h => ⟨_, rfl, h, fun hm => ?_⟩) fun _ _ _ => trivial
          rw [List.map_append]
          exact List.mem_append_left _ hm
      -- the child on the path lists the pane
      have hpath : ∀ (r : Rect) (out : List (PartId × Rect)) l₂, l₂.store.kindOf = s.kindOf →
          Ends (do
              let lifted ← assignFrom k c r true
              pure (ForInStep.yield (out ++ lifted))) l₂
            (fun r l' => ∃ out', r = .yield out' ∧ l'.store.kindOf = s.kindOf ∧
              pn.part ∈ out'.map (·.1)) fun _ _ => True :=
        fun r out l₂ hl₂ => by
          rw [ends_bind]
          refine (ih c r hl₂ hnc (hr.below hcx)).mono
            (fun _ _ h => ⟨_, rfl, h.1, ?_⟩) fun _ _ _ => trivial
          rw [List.map_append]
          exact List.mem_append_right _ h.2
      cases kind with
      | pane p => cases hc
      | placeholder q => cases hc
      | collapsed inner => cases hc
      | folder cs sel =>
        have hsel := hr x c (.refl _) hcx hcn (by rw [form?_eq_map_kindOf, hkind]; rfl)
        rw [selectedTab, hkind] at hsel
        obtain ⟨i, rfl⟩ : ∃ i, sel = some i := by
          cases sel with
          | none => cases hsel
          | some i => exact ⟨i, rfl⟩
        rw [if_neg (by simp [NodeKind.isPlaceholder]), ends_bind, ends_onStore]
        dsimp only
        rw [ends_bind]
        refine (ends_forIn_lists (fun y out l₂ hl₂ => hkeep _ _ _ out l₂ hl₂)
          ⟨(c, i), List.mem_zipIdx_iff_getElem?.mpr hsel, fun out l₂ hl₂ => ?_⟩ [] hk₁).mono
          (fun _ _ h => h) fun _ _ h => h
        dsimp only
        rw [show (true && some i == some i) = true by simp]
        exact hpath area out l₂ hl₂
      | split o cs ws =>
        have hws : ws.length = cs.length := beq_iff_eq.mp (ha x _ hkind)
        -- the child on the path takes space: it is no placeholder
        obtain ⟨kc, hkc⟩ := Option.isSome_iff_exists.mp
          ((contains_iff_kindOf s c).mp (contains_of_parent? hcx))
        have hkc₂ : l.store.kindOf c = some kc := (congrFun hk c).trans hkc
        obtain ⟨cn, hcn, hcnk⟩ := Option.map_eq_some_iff.mp hkc₂
        rw [if_neg (by simp [NodeKind.isPlaceholder]), ends_bind, ends_onStore]
        dsimp only
        rw [ends_bind]
        refine (ends_forIn_lists (fun y out l₂ hl₂ => hkeep _ _ _ out l₂ hl₂)
          ?_ [] hk₁).mono (fun _ _ h => h) fun _ _ h => h
        obtain ⟨⟨c', w⟩, hcw, rfl⟩ := exists_mem_zip (M := ws) (Q := fun t => t.1 = c)
          (show c ∈ cs from hc) (by omega) fun _ => rfl
        -- the child on the path is kept by the filter on visible children
        exact exists_mem_zip (a := (c', w)) (List.mem_filter.mpr ⟨hcw, by
            simp only [hcn, hcnk, not_isPlaceholder_of_walk hn hnc hkc, Bool.not_false]⟩)
          (by rw [length_divide, List.length_map]) fun r out l₂ hl₂ => hpath r out l₂ hl₂

/-- A pass over a window lists the pane `n` shown from the window's root when every folder on
the way selects the tab toward it and the window's zoomed unit, if any, lies above it. -/
theorem ends_regions_lists (hs : l.Sound E) {w : WindowRef} {r n : NodeId} {pn : Pane}
    (hw : l.windowRoot? w = some r) (hn : n ∈ l.store.walk r false)
    (hform : l.store.form? n = some (.pane pn)) (hraise : ∀ x, l.store.Raised x n)
    (hzoom : ∀ unit, l.zoomed = some unit → l.windowOf unit = some w →
      Under l.store.parent? unit n)
    (A : Option Rect) :
    Ends (regions w A) l (fun out _ => pn.part ∈ out.map (·.1)) fun _ _ => False := by
  have hf := hs.forest
  have htop : l.store.parent? r = none :=
    (hs.top_of_mem (List.mem_append_left _
      (Layout.mem_tops_of_windowRoots (Layout.mem_windowRoots_of_windowRoot? hw)))).2
  have hlists : Ends (regions w A) l (fun out _ => pn.part ∈ out.map (·.1)) fun _ _ => True := by
    rw [regions, ends_bind, ends_get, hw]
    dsimp only
    rw [ends_bind]
    -- clearing the window's bounds keeps the links and the kinds
    refine (ends_forIn _ _ _ (fun _ _ l' => ∃ s₂, l' = { l with store := s₂ } ∧
        SameShape l.store s₂ ∧ ∀ y, s₂.kindOf y = l.store.kindOf y)
      (fun id _ _ l₁ h₁ => ?_) ⟨_, rfl, SameShape.refl _, fun _ => rfl⟩).mono
      (fun _ l₂ h₂ => ?_) fun _ _ h => h
    · obtain ⟨s₁, hl₁, hsame, hk⟩ := h₁
      subst hl₁
      rw [ends_bind, ends_onStore, ends_pure]
      exact ⟨_, rfl, _, rfl, hsame.trans (sameShape_setBounds _ _ _),
        fun y => (kindOf_setBounds _ _ _ _).trans (hk y)⟩
    obtain ⟨s₂, hl₂, hsame, hk⟩ := h₂
    subst hl₂
    rw [ends_bind, ends_get, ends_bind, ends_store]
    have hpass : ∀ t area, n ∈ l.store.walk t false →
        Ends (assignFrom s₂.depthBound t area true) { l with store := s₂ }
          (fun out _ => pn.part ∈ out.map (·.1)) fun _ _ => True := fun t area ht =>
      (ends_assignFrom_lists (hf.of_sameShape hsame)
        (hs.aligned.of_kinds fun x k hx => .inr ((hk x).symm.trans hx))
        ((hsame n).2.2.trans hform) s₂.depthBound t area rfl
        (by rw [← (hf.of_sameShape hsame).walk_eq_walkFrom, hf.walk_false_sameShape hsame]
            exact ht)
        ((hraise t).of_kindOf (funext fun y => (hsame y).1) hk)).mono
        (fun _ _ h => h.2) fun _ _ _ => trivial
    -- the pass starts from the zoomed unit when it is in this window
    split
    · split
      · next unit hz hwu =>
        rw [Layout.windowOf_sameShape hf hsame, beq_iff_eq] at hwu
        exact hpass unit _ (hf.mem_walk_of_under hn htop (hzoom unit hz hwu))
      · exact hpass r _ hn
    · exact hpass r _ hn
  exact ((ends_regions hs w A).and hlists).mono (fun _ _ h => h.2) fun _ _ h => h.1

theorem Ends.leaves {α : Type} {x : LayoutM α} {P : Layout → Prop}
    (h : Ends x l (fun _ l' => P l') fun _ l' => P l') : P (x.leaves l) := by
  unfold Ends at h
  unfold LayoutM.leaves
  exact match hr : x.run l, h with
    | .ok _ _, h => by rw [show x l = _ from hr] at h; exact h
    | .error _ _, h => by rw [show x l = _ from hr] at h; exact h

/-- Bringing a part's pane to the top selects it in its folder and keeps the layout sound, the
pane found and the zoom as they were. -/
theorem ends_bringToTop_front (hs : l.Sound E) {part : PartId} {n : NodeId}
    (hfind : l.findPane part = some n) (hzoom : l.isWithinZoom n = true) :
    Ends (bringToTop part) l (fun _ l' => l'.Sound E ∧ l'.InFront part n) fun _ _ => False := by
  have hf := hs.forest
  have hsame := sameShape_select l.store n
  rw [bringToTop, ends_bind, ends_get, hfind]
  dsimp only
  rw [ends_select]
  refine ⟨hs.sameShape hsame (hs.aligned.select _), ?_, fun f hfo => ?_, ?_⟩
  · exact (Layout.findPane_sameShape hf hsame part).trans hfind
  · -- the folder holding the pane now selects it
    obtain ⟨hpar, hisf⟩ := Option.filter_eq_some_iff.mp hfo
    rw [(hsame n).1] at hpar
    have hff : l.store.form? f = some .folder := by
      rw [← (hsame f).2.2]
      exact form?_of_isFolder hisf
    obtain ⟨cs, sel, hk, hheld⟩ := exists_kindOf_folder hff
    exact selectedTab_select hpar hk (hheld ▸ hf.mem_held_iff.mpr hpar)
  · rw [Layout.isWithinZoom_sameShape hf hsame]
    exact hzoom

end LayoutM

namespace Layout

variable {l : Layout} {E : List NodeId} {part : PartId} {n : NodeId}

theorem exists_root_of_findPane (h : l.findPane part = some n) :
    ∃ r ∈ l.windowRoots, n ∈ l.store.walk r false := by
  rw [findPane_eq_shown] at h
  exact List.mem_flatMap.mp (List.mem_of_find?_eq_some h)

/-- Every pass over the window of a part in front lists the part. -/
theorem InFront.regions_lists (hs : l.Sound E) (h : l.InFront part n) :
    ∃ w, l.windowOfPart part = some w ∧ ∀ A, LayoutM.Ends (LayoutM.regions w A) l
      (fun out _ => part ∈ out.map (·.1)) fun _ _ => False := by
  have hf := hs.forest
  obtain ⟨r, hr, hnr⟩ := exists_root_of_findPane h.found
  obtain ⟨hc, hu, -⟩ := hf.mem_walk_false_iff.mp hnr
  obtain ⟨w, hwn, hwr⟩ := hs.windowOf_of_under hr hu hc
  obtain ⟨pn, rfl, hform⟩ := findPane_form h.found
  refine ⟨w, by rw [windowOfPart, h.found]; exact hwn, fun A => ?_⟩
  refine LayoutM.ends_regions_lists hs hwr hnr hform (hs.raised h.selected)
    (fun unit hz hwu => ?_) A
  -- within the zoom and in the zoomed unit's window is below the unit
  have hin := h.within
  simp only [isWithinZoom, hz, hwu, hwn, bne_self_eq_false, Bool.false_eq_true, if_false,
    Bool.or_eq_true, beq_iff_eq] at hin
  rcases hin with rfl | hanc
  · exact .refl _
  · exact .inr (hf.isAncestor_iff.mp hanc)

end Layout

namespace PageM

/-! ### Activation -/

theorem Ends.and {α : Type} {x : PageM α} {p : Page} {Q₁ Q₂ : α → Page → Prop}
    (h₁ : Ends x p Q₁) (h₂ : Ends x p Q₂) : Ends x p fun a q => Q₁ a q ∧ Q₂ a q := by
  unfold Ends at *
  exact ⟨h₁, h₂⟩

theorem ends_switch_active {p : Page} (previous : Option (PartId × PartKind)) (id : PartId)
    (kind : PartKind) :
    Ends (switch previous (some (id, kind))) p fun _ q => q.active = some id := by
  rw [switch, ends_bind, ends_get]
  dsimp only
  rcases previous with _ | ⟨a, ka⟩
  · rfl
  · rw [ends_bind, ends_emit]
    rfl

/-- Granting activation to an owned part makes it the active part. -/
theorem ends_grant_active {p : Page} {id : PartId} (hown : p.controller.isOwned id = true) :
    Ends (grant id) p fun _ q => q.active = some id := by
  obtain ⟨kind, hk⟩ := Option.isSome_iff_exists.mp
    ((p.controller.isSome_kindOf?_iff id).mpr ((p.controller.mem_ownedIds_iff id).mpr hown))
  rw [grant, ends_bind, ends_get]
  dsimp only
  rw [hk]
  dsimp only
  split
  · next hact =>
    rw [ends_bind, ends_onHistory]
    exact beq_iff_eq.mp hact
  · rw [ends_bind]
    exact ends_switch_active _ id kind

/-- A page about to raise `id`: its layout is sound, it owns `id`, and `id`'s pane is found
within the zoom. -/
structure ReadyToRaise (id : PartId) (q : Page) : Prop where
  sound : q.layout.Sound []
  owned : q.controller.isOwned id = true
  within : ∃ n, q.layout.findPane id = some n ∧ q.layout.isWithinZoom n = true

theorem ignoresActivation_readyToRaise (id : PartId) : IgnoresActivation (ReadyToRaise id) :=
  fun _ _ hl hparts _ h => by
    refine ⟨hl ▸ h.sound, ?_, hl ▸ h.within⟩
    rw [Controller.isOwned, hparts]
    exact h.owned

/-- Activating an owned part that is shown or kept as a fast view, in a page whose layout is
sound, makes it the active part and brings it to the front: its pane is the selected tab of
the folder holding it and lies within the zoom, so every layout pass over its window lists
the part. -/
theorem activate_brings_to_front {p : Page} {id : PartId} (hs : p.layout.Sound [])
    (hown : p.controller.isOwned id = true)
    (hshown : id ∈ p.layout.panes ∨ p.layout.isFast id = true) :
    Ends (activate id) p fun _ q => q.active = some id ∧ ∃ n w, q.layout.InFront id n ∧
      q.layout.windowOfPart id = some w ∧ ∀ A, LayoutM.Ends (LayoutM.regions w A) q.layout
        (fun out _ => id ∈ out.map (·.1)) fun _ _ => False := by
  -- a pane in front of a sound layout is listed by every pass over its window, so the
  -- continuations below need only bring the pane to the front
  refine Ends.mono (Q := fun _ q => q.active = some id ∧ ∃ n, q.layout.Sound [] ∧
    q.layout.InFront id n) ?_ fun _ q h => ?_
  swap
  · obtain ⟨hact, n, hs', hfront⟩ := h
    obtain ⟨w, hw, hlists⟩ := hfront.regions_lists hs'
    exact ⟨hact, n, w, hfront, hw, hlists⟩
  rw [activate, ends_bind, ends_owns]
  split
  · next hno =>
    rw [hown] at hno
    cases hno
  rw [ends_bind, ends_zoomed, ends_bind, ends_get]
  -- the continuations of the `do` block, from the last one back
  extract_lets finish afterRestore
  have hfinish : ∀ u q, ReadyToRaise id q → Ends (finish u) q fun _ q' =>
      q'.active = some id ∧ ∃ n, q'.layout.Sound [] ∧ q'.layout.InFront id n := by
    intro _ q hq
    obtain ⟨n, hfind, hin⟩ := hq.within
    rw [ends_bind]
    refine ends_onLayout _ fun _ => ?_
    have hl := LayoutM.Ends.leaves
      ((LayoutM.ends_bringToTop_front hq.sound hfind hin).mono (fun _ _ h => h) fun _ _ h => h.elim)
    refine ((ends_grant_active
      (p := { q with layout := (LayoutM.bringToTop id).leaves q.layout }) hq.owned).and
      ((ignoresActivation_layout fun l => l.Sound [] ∧ l.InFront id n).keeps_grant id _ hl)).mono
      fun _ q' h => ⟨h.1, n, h.2⟩
  have hafter : ∀ restored q, q.layout.Sound [] → q.controller.isOwned id = true →
      id ∈ q.layout.panes → Ends (afterRestore restored) q fun _ q' =>
        q'.active = some id ∧ ∃ n, q'.layout.Sound [] ∧ q'.layout.InFront id n := by
    intro restored q hs hown hpanes
    rw [ends_bind, ends_get]
    extract_lets l afterZoom
    have hz : ∀ unzoomed q', ReadyToRaise id q' → Ends (afterZoom unzoomed) q' fun _ q'' =>
        q''.active = some id ∧ ∃ n, q''.layout.Sound [] ∧ q''.layout.InFront id n := by
      intro unzoomed q' hq'
      simp only [afterZoom]
      split
      · rw [ends_bind]
        exact ((ignoresActivation_readyToRaise id).keeps_changed _ q' hq').mono
          fun _ q'' h => hfinish () q'' h
      · exact hfinish () q' hq'
    split
    · next n hfind =>
      split
      · next hin => exact hz _ q ⟨hs, hown, n, hfind, hin⟩
      · -- the pane lies outside the zoom, which ends
        rw [ends_bind]
        refine ends_onLayout _ fun _ => ?_
        have hl : LayoutM.zoomOut.leaves q.layout = { q.layout with zoomed := none } :=
          LayoutM.Ends.leaves (P := fun l' => l' = { q.layout with zoomed := none })
            (LayoutM.ends_zoomOut.mpr rfl)
        refine hz _ _ ⟨?_, hown, n, ?_, ?_⟩
        · rw [hl]
          exact hs.of_frames rfl rfl rfl rfl rfl rfl
        · rw [hl]
          exact hfind
        · rw [hl]
          rfl
    · next hnone =>
      obtain ⟨n, hfind⟩ := Layout.exists_findPane hpanes
      rw [hfind] at hnone
      cases hnone
  split
  · next hfast =>
    rw [ends_bind]
    refine ends_onLayout _ fun _ => ?_
    have hl := LayoutM.Ends.leaves ((LayoutM.ends_restoreFast_shows hs hfast).mono
      (fun _ _ h => h) fun _ _ h => h.elim)
    exact hafter _ _ hl.1 hown hl.2
  · next hfast => exact hafter _ p hs hown (hshown.resolve_right hfast)

/-- Activating the one view of a page that shows it. -/
theorem activate_brings_to_front_view :
    let l := (Script.layoutStep ⟨Layout.empty (Host.fresh true), []⟩
      (.addPane ⟨"A", .view⟩)).2.layout
    let c : Controller := { policy := .never, parts := [("A", ⟨.view, 1⟩)], lastStamp := 1 }
    let p : Page := { layout := l, controller := c, factory := default, editorArea := false }
    p.layout.Sound [] ∧ p.controller.isOwned "A" = true ∧
      ("A" ∈ p.layout.panes ∨ p.layout.isFast "A" = true) ∧
      Ends (activate "A") p fun _ q => q.active = some "A" ∧ ∃ n w, q.layout.InFront "A" n ∧
        q.layout.windowOfPart "A" = some w ∧ ∀ A, LayoutM.Ends (LayoutM.regions w A) q.layout
          (fun out _ => "A" ∈ out.map (·.1)) fun _ _ => False := by
  intro l c p
  have hs : l.Sound [] :=
    (Layout.Reachable.step [] (.addPane ⟨"A", .view⟩) (.empty _) fun _ => nofun).sound
  have hown : c.isOwned "A" = true := by decide
  have hp : "A" ∈ l.panes := by decide
  exact ⟨hs, hown, .inl hp, activate_brings_to_front (p := p) hs hown (.inl hp)⟩

end PageM

end Docking
