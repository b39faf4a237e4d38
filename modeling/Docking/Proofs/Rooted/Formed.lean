import Docking.Proofs.Rooted.Basic
import Docking.Proofs.Selection
import Docking.Proofs.Sound.Document
/-!
# Layouts formed from any document

A layout read back from a document the page did not write need not be sound (`Layout.Rooted`
says how), but reading keeps what every layout needs to be drawn and saved: the node table is
a forest whose nodes without a container are exactly the main root and the windows' folders,
every split has a weight per child, and every folder's selection rests on a pane, none exactly
when no tab is a pane (`Store.Selected`). `Layout.Formed l E` says so, with `E` listing the
nodes read and not yet placed.

Each edit that reading a document and reopening its windows make has its lemma here, in the
form `Layout.Rooted`'s lemmas have: a new node joins the held-out nodes, a node put into a
container leaves them.
-/

namespace Docking

namespace Layout

/-- The shape a layout read from any document has: rooted at its windows with the nodes
`extra` held out, no other node without a container, a weight for every child of a split, and
every folder's selection on a pane. -/
structure Formed (l : Layout) (extra : List NodeId) : Prop where
  rooted : l.Rooted extra
  top_of_unlinked : ∀ n, l.store.contains n = true → l.store.parent? n = none →
    n ∈ l.tops ++ extra
  aligned : l.store.Aligned
  selected : l.store.Selected

variable {l : Layout} {E : List NodeId} {s' : Store}

theorem Formed.tops_iff (hF : l.Formed E) (n : NodeId) :
    n ∈ l.tops ++ E ↔ l.store.contains n = true ∧ l.store.parent? n = none :=
  ⟨hF.rooted.tops_top n, fun h => hF.top_of_unlinked n h.1 h.2⟩

theorem Sound.formed (hs : l.Sound E) (hsel : l.store.Selected) : l.Formed E :=
  ⟨hs.rooted, fun n hn htop => (hs.tops_iff n).mpr ⟨hn, htop⟩, hs.aligned, hsel⟩

theorem mem_tops_cons {n x : NodeId} (h : n ∈ l.tops ++ E) : n ∈ l.tops ++ x :: E :=
  List.mem_append.mpr ((List.mem_append.mp h).imp id (List.mem_cons_of_mem _))

/-! ### Edits of the table -/

theorem Formed.sameShape (hF : l.Formed E) (h : Store.SameShape l.store s') (hal : s'.Aligned)
    (hsel : s'.Selected) : ({ l with store := s' } : Layout).Formed E :=
  ⟨hF.rooted.sameShape h, fun n hn htop =>
    hF.top_of_unlinked n ((h.contains_eq n).symm.trans hn) ((h n).1.symm.trans htop), hal, hsel⟩

/-- Fixing a folder's selection keeps a layout formed. -/
theorem Formed.fixSelection (hF : l.Formed E) (f : NodeId) :
    ({ l with store := l.store.fixSelection f } : Layout).Formed E :=
  hF.sameShape (Store.sameShape_fixSelection _ _) (hF.aligned.fixSelection f)
    (hF.selected.of_refolds (Store.refolds_fixSelection _ f))

theorem Formed.select_fixSelection (hF : l.Formed E) {child f : NodeId}
    (hp : l.store.parent? child = some f) :
    ({ l with store := (l.store.select child).2.fixSelection f } : Layout).Formed E :=
  hF.sameShape ((Store.sameShape_select _ _).trans (Store.sameShape_fixSelection _ _))
    ((hF.aligned.select _).fixSelection f)
    (hF.selected.of_refolds (Store.refolds_select_fixSelection hp))

/-- A new node that holds nothing, and as a folder has no tab, joins the held-out nodes. -/
theorem Formed.alloc (hF : l.Formed E) (ident : String) (kind : NodeKind)
    (hk : Store.walkChildren true kind = []) (hka : kind.aligned = true)
    (hsel : ∀ cs sel, kind = .folder cs sel → cs = [] ∧ sel = none) :
    ({ l with store := (l.store.alloc ident kind).2 } : Layout).Formed (l.store.nextId :: E) := by
  refine ⟨hF.rooted.alloc ident kind hk, fun n hn htop => ?_, hF.aligned.alloc ident hka,
    hF.selected.of_refolds (Store.refolds_alloc hF.rooted.forest ident hsel)⟩
  rw [Store.parent?_alloc] at htop
  by_cases hnn : n = l.store.nextId
  · subst hnn
    exact List.mem_append_right _ List.mem_cons_self
  · rw [if_neg hnn] at htop
    exact mem_tops_cons (hF.top_of_unlinked n
      (((Store.contains_alloc _ _ _ n).mp hn).resolve_left hnn) htop)

/-- Putting a held-out node into a container that does not lie below it: it leaves the
held-out nodes. -/
theorem Formed.insertChild (hF : l.Formed E) {p c : NodeId} {i : Nat} {w : Float32}
    (h : l.store.insertChild p i c w = .ok s') (hc : c ∈ E) (hcp : ¬ Under l.store.parent? c p) :
    ({ l with store := s' } : Layout).Formed (E.erase c) := by
  refine ⟨hF.rooted.insertChild h hc hcp, fun n hn htop => ?_, hF.aligned.insertChild h,
    hF.selected.of_refolds (Store.refolds_insertChild h)⟩
  rw [Store.parent?_insertChild h] at htop
  have hnc : n ≠ c := by
    rintro rfl
    rw [if_pos rfl] at htop
    cases htop
  rw [if_neg hnc] at htop
  rw [Store.contains_insertChild h] at hn
  exact (mem_tops_erase_iff hnc).mpr (hF.top_of_unlinked n hn htop)

theorem Formed.pushChild (hF : l.Formed E) {p c : NodeId} (h : l.store.pushChild p c = .ok s')
    (hc : c ∈ E) (hcp : ¬ Under l.store.parent? c p) :
    ({ l with store := s' } : Layout).Formed (E.erase c) := by
  obtain ⟨pn, -, hi⟩ := Store.pushChild_eq_ok h
  exact hF.insertChild hi hc hcp

/-- A new collapsed node folding a held-out node takes its place among the held-out nodes. -/
theorem Formed.adopt (hF : l.Formed E) {ident : String} {inner : NodeId} (hi : inner ∈ E)
    (h : (l.store.alloc ident (.collapsed inner)).2.setParent inner (some l.store.nextId) =
      .ok s') :
    ({ l with store := s' } : Layout).Formed (l.store.nextId :: E.erase inner) := by
  have hf := hF.rooted.forest
  obtain ⟨hinc, htop⟩ := hF.rooted.extra_top hi
  have hpar := Store.parent?_adopt hinc h
  have hfresh : l.store.nextId ∉ l.tops ++ E := fun hm =>
    Store.ne_nextId_of_contains (hF.rooted.tops_top _ hm).1 rfl
  have hinner : inner ≠ l.store.nextId := Store.ne_nextId_of_contains hinc
  -- a node without a container other than `inner` stays one, among the same nodes
  have hmem : ∀ n, n ≠ l.store.nextId → n ≠ inner →
      (n ∈ l.tops ++ l.store.nextId :: E.erase inner ↔ n ∈ l.tops ++ E) := fun n hnn hni => by
    simp only [List.mem_append, List.mem_cons, hnn, false_or, List.mem_erase_of_ne hni]
  have hrooted : ({ l with store := s' } : Layout).Rooted (l.store.nextId :: E.erase inner) := by
    refine hF.rooted.withStore (hf.adopt hinc htop h) (fun t ht => ?_) (fun n hn => ?_)
      (List.nodup_middle.mpr (List.nodup_cons.mpr ⟨fun hm =>
        hfresh ((List.Sublist.append_left List.erase_sublist _).subset hm),
        hF.rooted.nodup_erase inner⟩))
    · rw [Store.form?_adopt h, if_neg (Store.ne_nextId_of_contains
        (hF.rooted.tops_top t (List.mem_append_left _ ht)).1)]
    · rw [Store.contains_adopt h, hpar]
      by_cases hnn : n = l.store.nextId
      · subst hnn
        rw [if_neg (Ne.symm hinner)]
        exact ⟨.inl rfl, Store.parent?_nextId _⟩
      have hni : n ≠ inner := by
        rintro rfl
        exact hF.rooted.not_mem_erase hi (by simpa [hnn] using hn)
      rw [if_neg hni]
      exact ⟨.inr (hF.rooted.tops_top n ((hmem n hnn hni).mp hn)).1,
        (hF.rooted.tops_top n ((hmem n hnn hni).mp hn)).2⟩
  refine ⟨hrooted, fun n hn hnp => ?_, (hF.aligned.alloc ident rfl).setParent h,
    hF.selected.of_refolds
      ((Store.refolds_alloc hf ident fun _ _ h => by cases h).trans (Store.refolds_setParent h))⟩
  rw [hpar] at hnp
  have hni : n ≠ inner := by
    rintro rfl
    rw [if_pos rfl] at hnp
    cases hnp
  rw [if_neg hni] at hnp
  by_cases hnn : n = l.store.nextId
  · subst hnn
    exact List.mem_append_right _ List.mem_cons_self
  · exact (hmem n hnn hni).mpr (hF.top_of_unlinked n
      (((Store.contains_adopt h n).mp hn).resolve_left hnn) hnp)

/-- Putting a held-out node into the slot of a child: the child it replaces joins the held-out
nodes. -/
theorem Formed.replaceChild (hF : l.Formed E) {p old new : NodeId}
    (h : l.store.replaceChild p old new = .ok s') (hn : new ∈ E)
    (hnp : ¬ Under l.store.parent? new p) :
    ({ l with store := s' } : Layout).Formed (old :: E.erase new) := by
  refine ⟨hF.rooted.replaceChild h hn hnp, fun n hc htop => ?_, hF.aligned.replaceChild h,
    hF.selected.of_refolds (Store.refolds_replaceChild h)⟩
  rw [Store.parent?_replaceChild h] at htop
  rw [Store.contains_replaceChild h] at hc
  have hnn : n ≠ new := by
    rintro rfl
    rw [if_pos rfl] at htop
    cases htop
  rw [if_neg hnn] at htop
  by_cases hno : n = old
  · subst hno
    exact List.mem_append_right _ List.mem_cons_self
  · rw [if_neg hno] at htop
    exact mem_tops_cons ((mem_tops_erase_iff hnn).mpr (hF.top_of_unlinked n hc htop))

/-- Freeing the subtree of a held-out node. -/
theorem Formed.free (hF : l.Formed E) {t : NodeId} (ht : t ∈ E) :
    ({ l with store := l.store.free t } : Layout).Formed (E.erase t) := by
  have hf := hF.rooted.forest
  refine ⟨hF.rooted.free ht, fun n hc hn => ?_, hF.aligned.free hf t,
    hF.selected.of_refolds (Store.refolds_free hf (hF.rooted.extra_top ht).2)⟩
  rw [hf.contains_free] at hc
  have hc' : ¬ Under l.store.parent? t n ∧ l.store.contains n = true := by simpa using hc
  rw [hf.parent?_free, if_neg hc'.1] at hn
  have hnt : n ≠ t := fun he => hc'.1 (he ▸ Under.refl _)
  exact (mem_tops_erase_iff hnt).mpr (hF.top_of_unlinked n hc'.2 hn)

/-- Dropping a held-out node that holds nothing. -/
theorem Formed.discard (hF : l.Formed E) {x : NodeId} (hx : x ∈ E) (hheld : l.store.held x = []) :
    ({ l with store := l.store.discard x } : Layout).Formed (E.erase x) := by
  refine ⟨hF.rooted.discard hx hheld, fun n hc hn => ?_, hF.aligned.discard x,
    hF.selected.of_refolds (Store.refolds_discard_top hF.rooted.forest (hF.rooted.extra_top hx).2)⟩
  have hxn : x ≠ n := by
    rintro rfl
    rw [Store.contains_discard_self] at hc
    cases hc
  rw [Store.parent?_discard, if_neg hxn] at hn
  rw [Store.contains_iff_form?, Store.form?_discard, if_neg hxn, ← Store.contains_iff_form?] at hc
  exact (mem_tops_erase_iff (Ne.symm hxn)).mpr (hF.top_of_unlinked n hc hn)

/-! ### Windows -/

/-- A layout with the table and root of a formed layout is formed when its window folders and
held-out nodes are the old ones up to order, its window folders are folders and its window
numbers are different and below the next number. -/
theorem Formed.of_frames_perm {l' : Layout} {E' : List NodeId} (hF : l.Formed E)
    (hstore : l'.store = l.store) (hroot : l'.root = l.root)
    (hperm : (l'.frames ++ E').Perm (l.frames ++ E))
    (hframes : ∀ f ∈ l'.frames, l.store.form? f = some .folder)
    (hids : (l'.windows.map (·.id)).Nodup) (hlt : ∀ w ∈ l'.windows, w.id.val < l'.nextWindow) :
    l'.Formed E' := by
  have htops : (l'.tops ++ E').Perm (l.tops ++ E) := by
    rw [tops_eq, tops_eq, hroot]
    exact hperm.cons _
  refine ⟨⟨by rw [hstore]; exact hF.rooted.forest, fun n hn => ?_,
    htops.nodup_iff.mpr hF.rooted.tops_nodup, hids, hlt,
    by rw [hstore, hroot]; exact hF.rooted.root_split, by rw [hstore]; exact hframes⟩,
    fun n hn htop => ?_, by rw [hstore]; exact hF.aligned, by rw [hstore]; exact hF.selected⟩
  · rw [hstore]
    exact hF.rooted.tops_top n (htops.mem_iff.mp hn)
  · rw [hstore] at hn htop
    exact htops.mem_iff.mpr (hF.top_of_unlinked n hn htop)

/-- Changing a layout besides its table, its root and its windows keeps it formed: the
editor area, the zoom and the fast views are no part of its shape. -/
theorem Formed.of_frames {l' : Layout} (hF : l.Formed E) (hstore : l'.store = l.store)
    (hroot : l'.root = l.root) (hwin : l'.windows = l.windows) (hparked : l'.parked = l.parked)
    (hnext : l'.nextWindow = l.nextWindow) : l'.Formed E := by
  have hframes : l'.frames = l.frames := by rw [frames, frames, hwin, hparked]
  refine hF.of_frames_perm hstore hroot (by rw [hframes]) (fun f hf => ?_) ?_ fun w hw => ?_
  · rw [hframes] at hf
    exact hF.rooted.frames_folders f hf
  · rw [hwin]
    exact hF.rooted.ids_nodup
  · rw [hnext]
    exact hF.rooted.ids_lt w (hwin ▸ hw)

theorem Formed.perm (hF : l.Formed E) {E' : List NodeId} (h : E.Perm E') : l.Formed E' :=
  hF.of_frames_perm rfl rfl (h.append_left l.frames).symm hF.rooted.frames_folders
    hF.rooted.ids_nodup hF.rooted.ids_lt

/-- Opening a window on a held-out folder never fails and keeps the table; the folder leaves
the held-out nodes when the host gives a surface, and stays held out when it refuses one. -/
theorem Formed.openWindow (hF : l.Formed E) {f : NodeId} (hf : f ∈ E)
    (hfold : l.store.form? f = some .folder) (b : FloatRect) :
    LayoutM.Ends (LayoutM.openWindow f b) l (fun r l' => l'.store = l.store ∧
      l'.Formed (if r.isSome then E.erase f else E)) fun _ _ => False := by
  rw [LayoutM.openWindow, LayoutM.ends_bind, LayoutM.ends_get]
  dsimp only
  split
  · rw [LayoutM.ends_bind, LayoutM.ends_set, LayoutM.ends_pure]
    exact ⟨rfl, hF.of_frames rfl rfl rfl rfl rfl⟩
  · next surface host _ =>
    rw [LayoutM.ends_bind, LayoutM.ends_set, LayoutM.ends_pure]
    obtain ⟨hids, hlt⟩ := ids_open hF.rooted.ids_nodup hF.rooted.ids_lt
      ⟨⟨l.nextWindow⟩, b.withMinSize, f, some surface⟩ rfl
    refine ⟨rfl, hF.of_frames_perm rfl rfl (frames_open_perm E hf _ _ _) (fun g hg => ?_) hids hlt⟩
    rcases mem_frames_open hg with hg | rfl
    · exact hF.rooted.frames_folders g hg
    · exact hfold

theorem Formed.parkFolder (hF : l.Formed E) {f : NodeId} (hf : f ∈ E)
    (hfold : l.store.form? f = some .folder) (bounds : FloatRect) :
    ({ l with parked := l.parked ++ [⟨bounds, f⟩] } : Layout).Formed (E.erase f) := by
  refine hF.of_frames_perm rfl rfl (frames_parkFolder_perm E hf bounds) (fun g hg => ?_)
    hF.rooted.ids_nodup hF.rooted.ids_lt
  rcases mem_frames_parkFolder hg with hg | rfl
  · exact hF.rooted.frames_folders g hg
  · exact hfold

/-- A new placeholder takes a pane's slot and the pane is freed: the layout stays formed, and
every other node keeps its form. -/
theorem Formed.parkPane (hF : l.Formed E) {n p : NodeId} {pp : Pane}
    (hpar : l.store.parent? n = some p) (hn : l.store.form? n = some (.pane pp)) {part : PartId}
    {s₂ : Store}
    (h₂ : (l.store.alloc part (.placeholder part)).2.replaceChild p n l.store.nextId = .ok s₂) :
    ({ l with store := s₂.free n } : Layout).Formed E ∧
      ∀ x, l.store.contains x = true → x ≠ n → (s₂.free n).form? x = l.store.form? x := by
  have hf := hF.rooted.forest
  have hpc : l.store.contains p = true := hf.contains_of_parent hpar
  -- the placeholder is a new leaf: it takes the slot without making a cycle
  have hF₂ := (hF.alloc part (.placeholder part) rfl rfl fun _ _ h => by cases h).replaceChild h₂
    List.mem_cons_self (hf.not_under_alloc hpc)
  rw [List.erase_cons_head] at hF₂
  have hnform₂ : s₂.form? n = some (.pane pp) := by
    rw [Store.form?_replaceChild h₂, Store.form?_alloc_of_contains (Store.contains_of_parent? hpar),
      hn]
  have hF₃ := hF₂.free List.mem_cons_self
  rw [List.erase_cons_head] at hF₃
  refine ⟨hF₃, fun x hx hxn => ?_⟩
  have hleaf₂ : s₂.IsLeaf n := ⟨_, hnform₂, rfl⟩
  rw [hF₂.rooted.forest.form?_free, if_neg (by
      rw [hF₂.rooted.forest.under_leaf_iff hleaf₂]
      exact Ne.symm hxn),
    Store.form?_replaceChild h₂, Store.form?_alloc_of_contains hx]

/-- Turning the panes of a held-out folder into placeholders keeps a layout formed and the forms
of the nodes without a container. -/
theorem Formed.parkPanes (hF : l.Formed E) (f : NodeId) :
    ∃ s', l.parkPanes f = { l with store := s' } ∧ ({ l with store := s' } : Layout).Formed E ∧
      ∀ x ∈ l.tops ++ E, s'.form? x = l.store.form? x :=
  parkPanes_of_steps (fun l' => ({ l with store := l'.store } : Layout).Formed E) (l.tops ++ E)
    (fun h => h.rooted.forest) (fun h x hx => h.rooted.tops_top x hx)
    (fun h hpar hn h₂ => h.parkPane hpar hn h₂)
    (fun part h => by
      have h₂ := (h.alloc part (.placeholder part) rfl rfl fun _ _ h => by cases h).discard
        List.mem_cons_self (by rw [Store.held_alloc, if_pos rfl]; rfl)
      rwa [List.erase_cons_head] at h₂)
    hF f

/-- Reopening a restored window: the host opens it, or it is parked with its panes turned
into placeholders; either way its folder leaves the held-out nodes, and the forms of the
held-out nodes stay. -/
theorem Formed.reopen (hF : l.Formed E) {f : NodeId} (hf : f ∈ E)
    (hfold : l.store.form? f = some .folder) (bounds : FloatRect) (parked : Bool) :
    (l.reopen f bounds parked).Formed (E.erase f) ∧
      ∀ x ∈ E, (l.reopen f bounds parked).store.form? x = l.store.form? x :=
  reopen_of_steps (fun l' E' => l'.Formed E') (fun b => hF.openWindow hf hfold b)
    (fun b hstore hl' => by
      obtain ⟨s', h', hF', hform'⟩ := hl'.parkPanes f
      have hfold' : s'.form? f = some .folder :=
        (hform' f (List.mem_append_right _ hf)).trans (hstore ▸ hfold)
      rw [h']
      exact ⟨hF'.parkFolder hf hfold' b, fun x hx => hform' x (List.mem_append_right _ hx)⟩)
    bounds parked hF

end Layout

end Docking
