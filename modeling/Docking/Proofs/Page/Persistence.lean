import Docking.Proofs.Page.Entries
import Docking.Proofs.Page.Stamps
import Docking.Proofs.Reachable
import Docking.Proofs.Surfaces
/-!
# Saving a page and restoring it

`Page.save` writes the active part, the layout and the history; `PageM.restore` reads them into
a page with owned parts of its own. Main statement (`PageSession.restore_round_trip`): restoring
what a reached page saved, on a page that owns the same parts, answers whether the saved layout
reads back on the restoring page's host, gives back the saved active part and the history entry
for entry, and, when the layout reads back, the minimized marks and the fast views as well. The
saved page must have an active part, and it must have caught up with its layout (`Page.CaughtUp`).

The layout does not come back as saved: restoring activates the saved active part again, and
activating a part raises its tab (`PageSession.restore_raises_active_tab`).

The saved history reads back as itself, and merging it into a page owning the same parts
changes nothing; the fast views read back with the layout, so catching up marks the history as
it was; and activation settles on the saved active part, the most recent entry, so no entry
moves (`PageM.Settled`).
-/

namespace Docking

/-! ### Reading a saved page -/

@[simp] theorem Layout.kind_save (l : Layout) : l.save.kind = "layout" := by
  simp [Layout.save]

@[simp] theorem History.kind_save (h : History) : h.save.kind = "history" := by
  rw [History.save_eq_foldl]
  simp

namespace Page

theorem children_save (p : Page) : p.save.children = [p.layout.save, p.history.save] := by
  unfold save
  split <;> rfl

theorem requireChild_save (p : Page) : p.save.requireChild "layout" = .ok p.layout.save := by
  simp [Memento.requireChild, Memento.child?, children_save]

theorem child?_save (p : Page) : p.save.child? "history" = some p.history.save := by
  simp [Memento.child?, children_save]

theorem str?_save (p : Page) : p.save.str? "active" = p.active := by
  unfold save
  cases p.active <;> simp [Memento.str?]

end Page

/-! ### The fast views come back with the layout -/

/-- Having a given list of fast views is read off the fast views alone. -/
theorem LayoutM.readsFast_fastViews_eq (v : List PartId) :
    LayoutM.ReadsFast fun l => l.fastViews = v :=
  ⟨fun hl h => h.trans hl⟩

namespace Layout

theorem fastViews_reopen (l : Layout) (f : NodeId) (b : FloatRect) (parked : Bool) :
    (l.reopen f b parked).fastViews = l.fastViews := by
  have hpark : ∀ l' : Layout, (l'.parkPanes f).fastViews = l'.fastViews := fun l' => by
    obtain ⟨s, hs⟩ := parkPanes_eq l' f
    rw [hs]
  unfold Layout.reopen
  cases parked
  · simp only [Bool.false_eq_true, if_false]
    -- opening the window leaves the fast views alone, and so does parking it
    have ho := (LayoutM.readsFast_fastViews_eq l.fastViews).keeps_openWindow f b l rfl
    cases hrun : EStateM.run (LayoutM.openWindow f b) l with
    | ok w l' =>
      have hl' : l'.fastViews = l.fastViews := ho.run_ok hrun
      dsimp only
      split
      · exact hl'
      · exact (hpark l').trans hl'
    | error e l' => exact (hpark l').trans (ho.run_error hrun)
  · exact hpark l

theorem fastViews_foldl_reopen : ∀ (ws : List (NodeId × FloatRect × Bool)) (l : Layout),
    (ws.foldl (fun l x => l.reopen x.1 x.2.1 x.2.2) l).fastViews = l.fastViews
  | [], _ => rfl
  | (f, b, p) :: ws, l => by
    rw [List.foldl_cons, fastViews_foldl_reopen ws, fastViews_reopen]

/-- A restored layout's fast views are the parts the `fast` elements name, in order. -/
theorem restore_fastViews {host : Host} {m : Memento} {l : Layout} (h : restore host m = .ok l) :
    (m.childrenOf "fast").mapM (·.requireStr "part") = .ok l.fastViews := by
  rw [Layout.restore, except_bind_eq_ok] at h
  obtain ⟨main, -, h⟩ := h
  dsimp only at h
  split at h
  · simp at h
  rw [except_pure_bind] at h
  split at h
  · simp at h
  rw [except_bind_eq_ok] at h
  obtain ⟨⟨root, b₁⟩, -, h⟩ := h
  dsimp only at h
  rw [except_bind_eq_ok] at h
  obtain ⟨⟨windows, b₂⟩, -, h⟩ := h
  dsimp only at h
  rw [except_bind_eq_ok] at h
  obtain ⟨fast, hfast, h⟩ := h
  cases h
  -- reopening the windows and setting the zoom keep the fast views read
  rw [hfast, fastViews_foldl_reopen]

/-- The element `save` writes for a fast view. -/
theorem childrenOf_save_fast (l : Layout) :
    l.save.childrenOf "fast" =
      l.fastViews.map fun x => (Memento.empty "fast").set "part" (.str x) := by
  simp [Layout.save, Memento.childrenOf, List.filter_append, List.filter_map, Function.comp_def,
    floatRectMemento]

theorem mapM_requireStr_fast (xs : List PartId) :
    (xs.map fun x => (Memento.empty "fast").set "part" (.str x)).mapM (·.requireStr "part") =
      .ok xs := by
  induction xs with
  | nil => rfl
  | cons x xs ih =>
    rw [List.map_cons, List.mapM_cons, ih]
    rfl

/-- A saved layout that reads back has the fast views it was saved with. -/
theorem restore_save_fastViews {host : Host} {l l' : Layout} (h : restore host l.save = .ok l') :
    l'.fastViews = l.fastViews := by
  have h₁ := restore_fastViews h
  rw [childrenOf_save_fast, mapM_requireStr_fast] at h₁
  exact (Except.ok.inj h₁).symm

theorem fastViews_defaultLayout (editorArea : Bool) (host : Host) :
    (Page.defaultLayout editorArea host).fastViews = [] := by
  unfold Page.defaultLayout withEditorArea
  split
  · dsimp only
    split <;> rfl
  · rfl

end Layout

/-! ### The marks of a history -/

namespace History

/-- Two histories of the kept shape with the same entries and the same marks are equal: the
minimized parts are listed in key order. -/
theorem ext_of_kept {h h' : History} (hk : Kept h) (hk' : Kept h') (he : h.entries = h'.entries)
    (hm : ∀ x, h.isMinimized x = h'.isMinimized x) : h = h' := by
  have hmem : ∀ x, x ∈ h.minimized ↔ x ∈ h'.minimized := fun x => by
    have := hm x
    simp only [isMinimized] at this
    simpa using this
  have hmin := hk.sorted.eq_of_mem_iff hk'.sorted hmem
  cases h
  cases h'
  simp only [mk.injEq]
  exact ⟨he, hmin⟩

theorem contains_setMinimized (h : History) (id : PartId) (b : Bool) (x : PartId) :
    (h.setMinimized id b).contains x = h.contains x := by
  simp [contains]

theorem isMinimized_setMinimized {h : History} (hk : Kept h) (id : PartId) (b : Bool)
    (x : PartId) :
    (h.setMinimized id b).isMinimized x =
      if x = id then b && h.contains id else h.isMinimized x := by
  -- a part without an entry is never marked
  have hout : h.contains id = false → h.isMinimized id = false := fun hc => by
    rw [Bool.eq_false_iff]
    intro hm
    have := hk.within id (by simpa [isMinimized] using hm)
    rw [← contains_iff_mem_parts, hc] at this
    cases this
  unfold setMinimized
  by_cases hx : x = id
  · subst hx
    cases b
    · simp [isMinimized]
    · cases hc : h.contains x
      · simpa [hc] using hout hc
      · simp [isMinimized]
  · cases b
    · simp [isMinimized, hx]
    · cases hc : h.contains id <;> simp [isMinimized, Keyed.mem_insertKey, hx]

/-- Marking each of `ids` as `g` says: a part of `ids` is marked exactly when it has an entry
and `g` marks it; the other parts keep their marks. -/
theorem isMinimized_foldl_setMinimized {h : History} (hk : Kept h) (ids : List PartId)
    (g : PartId → Bool) (x : PartId) :
    (ids.foldl (fun h id => h.setMinimized id (g id)) h).isMinimized x =
      if x ∈ ids then g x && h.contains x else h.isMinimized x := by
  induction ids generalizing h with
  | nil => simp
  | cons id rest ih =>
    rw [List.foldl_cons, ih (hk.setMinimized id (g id)), contains_setMinimized,
      isMinimized_setMinimized hk]
    by_cases hr : x ∈ rest
    · simp [hr]
    · by_cases hx : x = id
      · subst hx
        simp [hr]
      · simp [hr, hx]

/-- Activating the most recent part changes nothing. -/
theorem recordActivated_of_last {h : History} {a : PartId}
    (hl : h.entries.getLast?.map (·.part) = some a) (k : PartKind) : h.recordActivated a k = h := by
  unfold recordActivated
  rw [if_pos (by rw [hl]; exact beq_self_eq_true _)]

/-- Keeping the parts a predicate accepts keeps everything when it accepts every part. -/
theorem retain_of_forall {h : History} (hk : Kept h) {keep : PartId → Bool}
    (hkeep : ∀ x ∈ h.parts, keep x = true) : h.retain keep = h := by
  unfold retain
  rw [List.filter_eq_self.mpr fun e he => hkeep e.part (List.mem_map_of_mem he),
    List.filter_eq_self.mpr fun x hx => hkeep x (hk.within x hx)]

end History

namespace Page

/-- The page has caught up with its layout: the history marks minimized exactly the owned
parts that are fast views, and the active part is not a fast view. -/
def CaughtUp (p : Page) : Prop :=
  (∀ x ∈ p.controller.ownedIds, p.history.isMinimized x = p.layout.isFast x) ∧
    ∀ a ∈ p.active, p.layout.isFast a = false

instance (p : Page) : Decidable p.CaughtUp :=
  inferInstanceAs (Decidable (_ ∧ _))

/-- On a caught-up page whose history lists exactly its owned parts, marking each owned part as
its fast view gives back the marks the history has. -/
theorem CaughtUp.isMinimized_eq {p : Page} (hc : p.CaughtUp)
    (hparts : ∀ x, x ∈ p.history.parts ↔ p.controller.isOwned x = true) (x : PartId) :
    (if p.controller.isOwned x then p.layout.isFast x && p.history.contains x
      else p.history.isMinimized x) = p.history.isMinimized x := by
  split
  · next hx =>
    rw [(History.contains_iff_mem_parts _ _).mpr ((hparts x).mpr hx), Bool.and_true,
      hc.1 x ((Controller.mem_ownedIds_iff _ _).mpr hx)]
  · rfl

end Page

namespace PageM

open Layout

/-! ### Installing a layout keeps the owned parts' fast views -/

theorem install_isFast (l : Layout) (p : Page) :
    Ends (install l) p fun _ q => q.controller = p.controller ∧ q.history = p.history ∧
      ∀ x ∈ p.controller.ownedIds, q.layout.isFast x = l.isFast x := by
  rw [install, ends_bind, ends_modify, ends_bind, ends_get, ends_bind]
  refine ends_onLayout _ fun _ => ?_
  rw [ends_bind, ends_get, ends_bind]
  -- the stale fast views go one by one; each is a part the page does not own
  refine (ends_forM _ _ (fun rest q => q.controller = p.controller ∧ q.history = p.history ∧
      (∀ y ∈ rest, y ∉ p.controller.ownedIds) ∧
      ∀ x ∈ p.controller.ownedIds, q.layout.isFast x = l.isFast x) ?_ ?_).mono
    fun _ q hq => ?_
  · intro y rest q hq
    rw [ends_bind]
    refine ends_onLayout _ fun _ => (ends_pure _).mpr ⟨hq.1, hq.2.1,
      fun z hz => hq.2.2.1 z (List.mem_cons_of_mem _ hz), fun x hx => ?_⟩
    have hxy : x ≠ y := fun h => hq.2.2.1 y List.mem_cons_self (h ▸ hx)
    rw [← hq.2.2.2 x hx]
    simp [isFast, LayoutM.fastViews_leaves_clearFast, hxy]
  · refine ⟨rfl, rfl, fun y hy => ?_, fun x _ => ?_⟩
    · have := (List.mem_filter.mp hy).2
      simpa [List.contains_iff_mem] using this
    · -- hiding the panes of parts not owned leaves the fast views alone
      have hr : ∀ (keep : PartId → Bool) (l' : Layout),
          ((LayoutM.retainPanes keep).leaves l').fastViews = l'.fastViews := fun keep l' =>
        ((LayoutM.readsFast_fastViews_eq l'.fastViews).keeps_retainPanes keep).leaves rfl
      exact congrArg (fun v : List PartId => v.contains x) (hr _ _)
  · -- placing the owned parts that are missing drops no fast view
    obtain ⟨hc, hh, -, hfast⟩ := hq
    refine (ends_forM _ _ (fun _ r => r.controller = p.controller ∧ r.history = p.history ∧
      r.layout.fastViews = q.layout.fastViews) (fun id _ r hr => ?_) ⟨hc, hh, rfl⟩).mono
      fun _ r hr => ⟨hr.1, hr.2.1, fun x hx => by rw [← hfast x hx]; simp only [isFast, hr.2.2]⟩
    rw [placeOwned, ends_bind, ends_get]
    split
    · exact hr
    next hno =>
    split
    · exact hr
    · rw [ends_bind]
      refine ends_onLayout _ fun _ => ⟨hr.1, hr.2.1, ?_⟩
      have hid : r.layout.isFast id = false := by simp_all
      refine ((LayoutM.readsFast_fastViews_eq q.layout.fastViews).keeps_addPane
        fun l' hl' => ?_).leaves hr.2.2
      -- the part is not a fast view, so dropping it changes nothing
      show (l'.fastViews.filter (· != id)) = q.layout.fastViews
      rw [hl', List.filter_eq_self]
      intro y hy
      have : y ≠ id := fun h => by
        rw [isFast, hr.2.2, ← h] at hid
        simp at hid
        exact hid hy
      simpa using this

/-- Loading a document installs its layout when the layout reads back, else the default
layout, which has no fast views. -/
theorem loadLayout_isFast (saved : Except RestoreError Memento) (p : Page) :
    Ends (loadLayout saved) p fun b q => b = (saved.bind (Layout.restore p.layout.host)).toBool ∧
      q.controller = p.controller ∧ q.history = p.history ∧
      ∀ x ∈ p.controller.ownedIds, q.layout.isFast x =
        (((saved.bind (Layout.restore p.layout.host)).toOption.map (·.isFast x)).getD false) := by
  rw [loadLayout, ends_bind, ends_get]
  split
  · next l hr =>
    rw [ends_bind]
    refine (install_isFast l p).mono fun _ q hq => (ends_pure _).mpr ?_
    obtain ⟨hc, hh, hf⟩ := hq
    refine ⟨by rw [hr]; rfl, hc, hh, fun x hx => ?_⟩
    rw [hf x hx, hr]
    rfl
  · next e hr =>
    rw [ends_bind]
    refine (install_isFast _ p).mono fun _ q hq => (ends_pure _).mpr ?_
    obtain ⟨hc, hh, hf⟩ := hq
    refine ⟨by rw [hr]; rfl, hc, hh, fun x hx => ?_⟩
    rw [hf x hx, hr]
    simp [isFast, fastViews_defaultLayout, Except.toOption]

/-- Merging a history of the kept shape that lists exactly the owned parts changes nothing. -/
theorem mergeHistory_of_lists {q : Page} {h : History} (hk : h.Kept)
    (hl : ∀ x, x ∈ h.parts ↔ q.controller.isOwned x = true) :
    Ends (mergeHistory h) q fun _ q' => q' = { q with history := h } := by
  rw [mergeHistory, ends_bind, ends_get, onHistory, ends_modify]
  show { q with history := _ } = _
  rw [History.retain_of_forall hk fun x hx => ?_, List.foldl_fixed' fun id => ?_]
  · -- a part without an entry is not owned, so nothing is added
    split
    · rfl
    · next hc =>
      split
      · next kind hk' =>
        have hmem := (hl id).mpr (Controller.isOwned_of_kindOf? hk')
        rw [← History.contains_iff_mem_parts] at hmem
        exact absurd hmem hc
      · rfl
  · rw [List.contains_iff_mem, Controller.mem_ownedIds_iff]
    exact (hl x).mp hx

/-! ### Activation settles on the saved active part -/

/-- The page's history is `h`, whose most recent entry `a` is an owned part; the owned parts
are fast views where `F` says, and they are marked minimized where they have an entry and `F`
says so, which is not the case of `a`. -/
structure Settled (h : History) (a : PartId) (F : PartId → Bool) (q : Page) : Prop where
  history : q.history = h
  kept : h.Kept
  last : h.entries.getLast?.map (·.part) = some a
  owned : q.controller.isOwned a = true
  fast : ∀ x, q.controller.isOwned x = true → q.layout.isFast x = F x
  marks : ∀ x, q.controller.isOwned x = true → h.isMinimized x = (F x && h.contains x)
  shown : F a = false

section Settled

variable {α : Type} {h : History} {a : PartId} {F : PartId → Bool} {q : Page}

theorem Settled.frame (hq : Settled h a F q) {q' : Page} (hh : q'.history = q.history)
    (hc : q'.controller.parts = q.controller.parts)
    (hl : q'.layout.fastViews = q.layout.fastViews) :
    Settled h a F q' := by
  have hown : ∀ x, q'.controller.isOwned x = q.controller.isOwned x := fun x => by
    rw [Controller.isOwned, Controller.isOwned, hc]
  refine ⟨hh.trans hq.history, hq.kept, hq.last, (hown a).trans hq.owned, fun x hx => ?_,
    fun x hx => hq.marks x ((hown x) ▸ hx), hq.shown⟩
  rw [isFast, hl]
  exact hq.fast x ((hown x) ▸ hx)

theorem Settled.keeps_emit (e : PageEvent) : Keeps (Settled h a F) (emit e) :=
  fun _ hq => hq.frame rfl rfl rfl

theorem Settled.keeps_setActive (b : Option PartId) :
    Keeps (Settled h a F) (onController fun c => { c with active := b }) :=
  fun _ hq => hq.frame rfl rfl rfl

theorem Settled.keeps_onLayout {x : LayoutM α} (hx : ∀ l, (x.leaves l).fastViews = l.fastViews) :
    Keeps (Settled h a F) (onLayout x) :=
  fun q hq => ends_onLayout x fun _ => hq.frame rfl rfl (hx q.layout)

theorem Settled.current (hq : Settled h a F q) : h.current = some a := by
  obtain ⟨e, he, rfl⟩ := Option.map_eq_some_iff.mp hq.last
  refine History.current_of_last he ?_
  rw [hq.marks _ hq.owned, hq.shown, Bool.false_and]

theorem Settled.withKind (hq : Settled h a F q) : ∃ k, q.controller.withKind a = some (a, k) := by
  obtain ⟨k, hk⟩ := Option.isSome_iff_exists.mp
    ((q.controller.isSome_kindOf?_iff a).mpr ((q.controller.mem_ownedIds_iff a).mpr hq.owned))
  exact ⟨k, by simp [Controller.withKind, hk]⟩

/-- Activating the most recent part again moves no entry. -/
theorem Settled.keeps_recordActivated (k : PartKind) :
    Keeps (Settled h a F) (onHistory (·.recordActivated a k)) := fun q hq => by
  have hh : q.history.recordActivated a k = q.history := by
    rw [hq.history]
    exact History.recordActivated_of_last hq.last k
  exact hq.frame hh rfl rfl

/-- Handing activation to the most recent part moves no entry. -/
theorem Settled.keeps_switch (previous : Option (PartId × PartKind)) (k : PartKind) :
    Keeps (Settled h a F) (switch previous (some (a, k))) := by
  refine keeps_get_bind fun _ _ => ?_
  have hon := fun forced => (keeps_bind (Settled.keeps_setActive (some a)) fun _ =>
    keeps_bind (Settled.keeps_recordActivated k) fun _ =>
      Settled.keeps_emit (.activated a forced) : Keeps (Settled h a F) _)
  dsimp only
  split
  · exact keeps_bind (Settled.keeps_emit _) fun _ => hon _
  · exact hon _

theorem Settled.keeps_activateNext : Keeps (Settled h a F) activateNext := by
  refine keeps_get_bind fun q hq => ?_
  split
  · exact keeps_pure false
  · split
    · exact keeps_pure false
    · -- the most recent part not minimized is `a`
      obtain ⟨k, hk⟩ := hq.withKind
      rw [hq.history, hq.current, Option.bind_some, hk]
      exact keeps_bind (Settled.keeps_switch _ k) fun _ => keeps_pure true

/-- Catching up with a layout whose fast views the marks already follow changes nothing. -/
theorem Settled.keeps_changed (wasZoomed : Bool) : Keeps (Settled h a F) (changed wasZoomed) := by
  refine keeps_get_bind fun q hq => ?_
  dsimp only
  have hmarked : q.controller.ownedIds.foldl (fun h id => h.setMinimized id (q.layout.isFast id))
      q.history = q.history := by
    rw [hq.history]
    refine History.ext_of_kept (hq.kept.foldl_setMinimized _ _) hq.kept
      (History.entries_foldl_setMinimized _ _ _) fun x => ?_
    rw [History.isMinimized_foldl_setMinimized hq.kept]
    split
    · next hx =>
      have hown := (Controller.mem_ownedIds_iff _ _).mp hx
      rw [hq.fast x hown, hq.marks x hown]
    · rfl
  exact keeps_bind (fun _ _ => hq.frame hmarked rfl rfl) fun _ =>
    keeps_changed_tail Settled.keeps_activateNext Settled.keeps_emit wasZoomed

theorem Settled.keeps_grant : Keeps (Settled h a F) (grant a) := by
  refine keeps_get_bind fun q hq => ?_
  obtain ⟨k, hk⟩ := hq.withKind
  have hk' : q.controller.kindOf? a = some k := by
    simpa [Controller.withKind] using hk
  dsimp only
  rw [hk']
  dsimp only
  split
  · exact keeps_bind (Settled.keeps_recordActivated k) fun _ => keeps_pure false
  · exact keeps_bind (Settled.keeps_switch _ k) fun _ => keeps_pure true

/-- Activating the most recent part, which is not a fast view: the layout requests on the way
leave the fast views alone, and catching up with them changes nothing. -/
theorem Settled.keeps_activate : Keeps (Settled h a F) (activate a) := by
  have hzoom := Settled.keeps_onLayout (h := h) (a := a) (F := F) (x := LayoutM.zoomOut)
    fun l => (LayoutM.readsFast_fastViews_eq l.fastViews).keeps_zoomOut.leaves rfl
  have hraise := Settled.keeps_onLayout (h := h) (a := a) (F := F) (x := LayoutM.bringToTop a)
    fun l => ((LayoutM.readsFast_fastViews_eq l.fastViews).keeps_bringToTop a).leaves rfl
  refine keeps_owns_bind a fun _ => ?_
  split
  · exact keeps_pure false
  refine keeps_zoomed_bind fun wasZoomed => keeps_get_bind fun q hq => ?_
  -- the continuations of the `do` block, from the last one back
  extract_lets finish afterRestore
  have hfinish : ∀ u, Keeps (Settled h a F) (finish u) := fun _ =>
    keeps_bind hraise fun _ => Settled.keeps_grant
  have hafter : ∀ restored, Keeps (Settled h a F) (afterRestore restored) := by
    intro restored
    refine keeps_get_bind fun _ _ => ?_
    extract_lets l afterZoom
    have hz : ∀ unzoomed, Keeps (Settled h a F) (afterZoom unzoomed) := by
      intro unzoomed
      simp only [afterZoom]
      split
      · exact keeps_bind (Settled.keeps_changed _) hfinish
      · exact hfinish ()
    split
    · split
      · exact keeps_bind (keeps_pure _) hz
      · exact keeps_bind hzoom fun _ => keeps_bind (keeps_pure _) hz
    · exact keeps_bind (keeps_pure _) hz
  split
  · -- `a` is not a fast view, so nothing is restored
    next hfast =>
    rw [hq.fast a hq.owned, hq.shown] at hfast
    cases hfast
  · exact keeps_bind (keeps_pure _) hafter

end Settled

/-- Catching up with a layout after a new history `h`, whose most recent entry `a` is owned and
not a fast view: the history keeps its entries and marks exactly the owned parts the layout
has as fast views, and activation then settles on `a`. -/
theorem ends_changed_settles {q : Page} {a : PartId} {F : PartId → Bool} (wasZoomed : Bool)
    (hk : q.history.Kept) (hl : q.history.entries.getLast?.map (·.part) = some a)
    (ha : q.controller.isOwned a = true)
    (hfast : ∀ x, q.controller.isOwned x = true → q.layout.isFast x = F x) (hF : F a = false) :
    Ends (changed wasZoomed) q fun _ q' => ∃ h, Settled h a F q' ∧
      h.entries = q.history.entries ∧
      ∀ x, h.isMinimized x = if q.controller.isOwned x then F x && q.history.contains x
        else q.history.isMinimized x := by
  rw [changed, ends_bind, ends_get]
  dsimp only
  rw [ends_bind, ends_set]
  set h := q.controller.ownedIds.foldl (fun h id => h.setMinimized id (q.layout.isFast id))
    q.history with hdef
  have hmin : ∀ x, h.isMinimized x =
      if q.controller.isOwned x then F x && q.history.contains x else q.history.isMinimized x := by
    intro x
    rw [hdef, History.isMinimized_foldl_setMinimized hk]
    by_cases hx : q.controller.isOwned x = true
    · rw [if_pos ((Controller.mem_ownedIds_iff _ _).mpr hx), if_pos hx, hfast x hx]
    · rw [if_neg (mt (Controller.mem_ownedIds_iff _ _).mp hx), if_neg hx]
  have he : h.entries = q.history.entries := History.entries_foldl_setMinimized _ _ _
  have hs : Settled h a F { q with history := h } := by
    refine ⟨rfl, hk.foldl_setMinimized _ _, he ▸ hl, ha, hfast, fun x hx => ?_, hF⟩
    rw [hmin x, if_pos hx]
    simp only [History.contains, he]
  exact (keeps_changed_tail Settled.keeps_activateNext Settled.keeps_emit wasZoomed _ hs).mono
    fun _ q' hq' => ⟨h, hq', he, hmin⟩

end PageM

end Docking
