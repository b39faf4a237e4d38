import Docking.Proofs.Weights
import Docking.Proofs.Outcome
/-!
# Sound layouts

`Layout.Sound l extra` is the invariant every request keeps: the node table is a forest
whose nodes without a container are exactly the main root, the folders of the detached and
of the parked windows, and the nodes of `extra`, all different. `extra` lists the nodes a
request has taken out and not yet put back or dropped; between requests it is empty.

Besides the forest, `Sound` keeps what the requests rely on to never be refused halfway:
the root is a split, every window shows a folder, a folder holds only panes and
placeholders, a collapsed node folds a folder or a split, window numbers are different and
below the next number, and the editor area is a split whose containers are splits.

The lemmas here say which edits of the node table keep a layout sound, and with which
`extra` afterwards.
-/

namespace Docking

/-- A pane or a placeholder: what a folder's tabs are. -/
def Form.isLeaf : Form → Bool
  | .pane _ => true
  | .placeholder _ => true
  | _ => false

namespace Store

/-- The node is a pane or a placeholder. -/
def IsLeaf (s : Store) (x : NodeId) : Prop := ∃ f, s.form? x = some f ∧ f.isLeaf = true

variable {s : Store}

theorem held_eq_nil_of_isLeaf {x : NodeId} (h : s.IsLeaf x) : s.held x = [] := by
  obtain ⟨f, hf, hl⟩ := h
  obtain ⟨xn, hxn, rfl⟩ := Option.map_eq_some_iff.mp hf
  rw [held_of_get? hxn]
  cases hkx : xn.kind <;> simp_all [NodeKind.form, Form.isLeaf, walkChildren]

theorem Forest.not_above_of_isLeaf (hf : s.Forest) {x y : NodeId} (hx : s.IsLeaf x) :
    ¬ Above s.parent? x y := by
  intro h
  obtain ⟨c, hc⟩ := h.exists_child
  have := hf.mem_held_iff.mpr hc
  rw [held_eq_nil_of_isLeaf hx] at this
  cases this

theorem Forest.under_leaf_iff (hf : s.Forest) {x y : NodeId} (hx : s.IsLeaf x) :
    Under s.parent? x y ↔ x = y :=
  ⟨fun h => h.resolve_right (hf.not_above_of_isLeaf hx), fun h => .inl h⟩

theorem IsLeaf.congr {s' : Store} {x : NodeId} (h : s'.form? x = s.form? x) :
    s'.IsLeaf x ↔ s.IsLeaf x := by
  simp only [IsLeaf, h]

theorem IsContainer.congr {s' : Store} {x : NodeId} (h : s'.form? x = s.form? x) :
    s'.IsContainer x ↔ s.IsContainer x := by
  simp only [IsContainer, h]

theorem IsLeaf.contains {x : NodeId} (h : s.IsLeaf x) : s.contains x = true := by
  obtain ⟨f, hf, -⟩ := h
  exact (contains_iff_form? s x).mpr (by simp [hf])

theorem IsContainer.contains {x : NodeId} (h : s.IsContainer x) : s.contains x = true := by
  rcases h with h | h <;> exact (contains_iff_form? s x).mpr (by simp [h])

theorem IsLeaf.not_isContainer {x : NodeId} (h : s.IsLeaf x) : ¬ s.IsContainer x := by
  obtain ⟨f, hf, hl⟩ := h
  rintro (h' | h') <;> rw [h'] at hf <;> cases hf <;> cases hl

theorem IsContainer.alloc {x : NodeId} (h : s.IsContainer x) (ident : String) (kind : NodeKind) :
    (s.alloc ident kind).2.IsContainer x := by
  rw [IsContainer, form?_alloc, if_neg (ne_nextId_of_contains h.contains)]
  exact h

theorem held_alloc_of_contains {x : NodeId} (h : s.contains x = true) (ident : String)
    (kind : NodeKind) : (s.alloc ident kind).2.held x = s.held x := by
  rw [held_alloc, if_neg (ne_nextId_of_contains h)]

theorem form?_alloc_of_contains {x : NodeId} (h : s.contains x = true) (ident : String)
    (kind : NodeKind) : (s.alloc ident kind).2.form? x = s.form? x := by
  rw [form?_alloc, if_neg (ne_nextId_of_contains h)]

theorem form?_of_get? {x : NodeId} {n : Node} (h : s.get? x = some n) :
    s.form? x = some n.kind.form := by
  simp [form?, h]

theorem isContainer_of_get? {x : NodeId} {n : Node} (h : s.get? x = some n)
    (hk : n.kind.isContainer = true) : s.IsContainer x := by
  rw [IsContainer, form?_of_get? h]
  cases hkn : n.kind <;>
    simp_all [NodeKind.isContainer, NodeKind.isFolder, NodeKind.isSplit, NodeKind.form]

theorem form?_ne_collapsed {x : NodeId} {n : Node} (h : s.get? x = some n)
    (hk : n.kind.isCollapsed = false) : s.form? x ≠ some .collapsed := by
  rw [form?_of_get? h]
  cases hkn : n.kind <;> simp_all [NodeKind.isCollapsed, NodeKind.form]

theorem form?_of_isCollapsed {x : NodeId} {n : Node} (h : s.get? x = some n)
    (hk : n.kind.isCollapsed = true) : s.form? x = some .collapsed := by
  rw [form?_of_get? h]
  cases hkn : n.kind <;> simp_all [NodeKind.isCollapsed, NodeKind.form]

theorem held_eq_children {x : NodeId} (h : s.IsContainer x) : s.held x = s.children x := by
  obtain ⟨n, hn, hf⟩ := isContainer_iff.mp h
  rw [held_of_get? hn, walkChildren_of_form hf, children, hn]

theorem form?_of_isFolder {x : NodeId} (h : s.isFolder x = true) : s.form? x = some .folder := by
  unfold isFolder at h
  cases hx : s.get? x with
  | none => simp [hx] at h
  | some n =>
    rw [hx] at h
    rw [form?_of_get? hx]
    cases hk : n.kind <;> simp_all [NodeKind.isFolder, NodeKind.form]

theorem findPane_form {r n : NodeId} {part : PartId} (h : s.findPane r part = some n) :
    ∃ p : Pane, p.part = part ∧ s.form? n = some (.pane p) := by
  have hp := List.find?_some h
  cases hn : s.get? n with
  | none => simp [hn] at hp
  | some nd =>
    obtain ⟨ident, parent, bounds, kind⟩ := nd
    cases kind <;> simp [hn] at hp
    exact ⟨_, hp, by simp [form?, hn, NodeKind.form]⟩

theorem findPlaceholder_form {r n : NodeId} {part : PartId}
    (h : s.findPlaceholder r part = some n) : s.form? n = some (.placeholder part) := by
  have hp := List.find?_some h
  cases hn : s.get? n with
  | none => simp [hn] at hp
  | some nd =>
    obtain ⟨ident, parent, bounds, kind⟩ := nd
    cases kind <;> simp [hn] at hp
    simp [form?, hn, NodeKind.form, hp]

theorem Forest.holder_isContainer (hf : s.Forest) {c p : NodeId} (hc : s.parent? c = some p)
    (hp : s.form? p ≠ some .collapsed) : s.IsContainer p := by
  have hmem : c ∈ s.held p := hf.mem_held_iff.mpr hc
  obtain ⟨pn, hpn⟩ := (contains_iff _ p).mp (contains_of_mem_held hmem)
  rw [held_of_get? hpn] at hmem
  rw [form?_of_get? hpn] at hp
  rw [IsContainer, form?_of_get? hpn]
  cases hk : pn.kind <;> simp_all [NodeKind.form, walkChildren]

end Store

namespace Layout

/-- The nodes without a container a layout keeps: the main root, the folders of the
detached windows, then those of the parked windows. -/
def tops (l : Layout) : List NodeId := l.root :: (l.windows.map (·.folder) ++ l.parked.map (·.folder))

/-- The folders the detached and the parked windows show. -/
def frames (l : Layout) : List NodeId := l.windows.map (·.folder) ++ l.parked.map (·.folder)

theorem tops_eq (l : Layout) : l.tops = l.root :: l.frames := rfl

@[simp] theorem tops_withStore (l : Layout) (s : Store) : ({ l with store := s } : Layout).tops = l.tops :=
  rfl

@[simp] theorem frames_withStore (l : Layout) (s : Store) :
    ({ l with store := s } : Layout).frames = l.frames :=
  rfl

/-- The editor area is a split, and every container above it is a split: no fold, tab or
window other than the main one reaches it. -/
def AreaPlaced (l : Layout) : Prop :=
  ∀ a, l.editorArea = some a → l.store.form? a = some .split ∧
    ∀ x, Above l.store.parent? x a → l.store.form? x = some .split

/-- The invariant of layouts; `extra` lists the nodes a request holds out of the tree. -/
structure Sound (l : Layout) (extra : List NodeId) : Prop where
  forest : l.store.Forest
  tops_iff : ∀ n, n ∈ l.tops ++ extra ↔ l.store.contains n = true ∧ l.store.parent? n = none
  tops_nodup : (l.tops ++ extra).Nodup
  ids_nodup : (l.windows.map (·.id)).Nodup
  ids_lt : ∀ w ∈ l.windows, w.id.val < l.nextWindow
  root_split : l.store.form? l.root = some .split
  frames_folders : ∀ f ∈ l.frames, l.store.form? f = some .folder
  fold_held : ∀ x y, l.store.form? x = some .collapsed → y ∈ l.store.held x →
    l.store.IsContainer y
  tabs_leaves : ∀ x y, l.store.form? x = some .folder → y ∈ l.store.held x → l.store.IsLeaf y
  area : l.AreaPlaced
  aligned : l.store.Aligned

variable {l : Layout} {E : List NodeId}

theorem Sound.top_of_mem (hs : l.Sound E) {n : NodeId} (h : n ∈ l.tops ++ E) :
    l.store.contains n = true ∧ l.store.parent? n = none :=
  (hs.tops_iff n).mp h

theorem Sound.not_mem_of_parent (hs : l.Sound E) {n p : NodeId} (h : l.store.parent? n = some p) :
    n ∉ l.tops ++ E := fun hm => by
  rw [(hs.top_of_mem hm).2] at h
  cases h

theorem Sound.root_mem (_hs : l.Sound E) : l.root ∈ l.tops ++ E := by simp [tops]

theorem Sound.extra_mem (_hs : l.Sound E) {n : NodeId} (h : n ∈ E) : n ∈ l.tops ++ E :=
  List.mem_append_right _ h

theorem Sound.holder_isContainer (hs : l.Sound E) {c p : NodeId}
    (hc : l.store.parent? c = some p) (hp : l.store.form? p ≠ some .collapsed) :
    l.store.IsContainer p :=
  hs.forest.holder_isContainer hc hp

theorem Sound.holder_of_collapsed (hs : l.Sound E) {x g : NodeId}
    (hx : l.store.form? x = some .collapsed) (hg : l.store.parent? x = some g) :
    l.store.IsContainer g :=
  hs.holder_isContainer hg fun hgc => by
    rcases hs.fold_held g x hgc (hs.forest.mem_held_iff.mpr hg) with h | h <;> rw [hx] at h <;>
      cases h

theorem Sound.not_under_area (hs : l.Sound E) {x : NodeId} (hx : l.store.form? x ≠ some .split) :
    ∀ a, l.editorArea = some a → ¬ Under l.store.parent? x a := by
  intro a ha hu
  obtain ⟨ha₁, ha₂⟩ := hs.area a ha
  rcases hu with rfl | hu
  · exact hx ha₁
  · exact hx (ha₂ x hu)

/-- A node that is neither fixed nor above the editor area does not hold it. -/
theorem not_under_area_of_loose (hf : l.store.Forest) {n : NodeId}
    (h : (l.isFixed n || l.holdsEditorArea n) = false) :
    ∀ a, l.editorArea = some a → ¬ Under l.store.parent? n a := by
  intro a ha hu
  rw [Bool.or_eq_false_iff] at h
  obtain ⟨hfix, hhold⟩ := h
  rcases hu with rfl | hu
  · simp [isFixed, ha] at hfix
  · rw [holdsEditorArea, ha] at hhold
    dsimp only at hhold
    rw [hf.isAncestor_iff.mpr hu] at hhold
    cases hhold

theorem findPane_form {part : PartId} {n : NodeId} (h : l.findPane part = some n) :
    ∃ p : Pane, p.part = part ∧ l.store.form? n = some (.pane p) := by
  obtain ⟨r, -, hr⟩ := List.exists_of_findSome?_eq_some h
  exact Store.findPane_form hr

theorem findPlaceholder_form {part : PartId} {n : NodeId} (h : l.findPlaceholder part = some n) :
    l.store.form? n = some (.placeholder part) := by
  obtain ⟨r, -, hr⟩ := List.exists_of_findSome?_eq_some h
  exact Store.findPlaceholder_form hr

theorem Sound.top_isContainer (hs : l.Sound E) {r : NodeId} (hr : r ∈ l.tops) :
    l.store.IsContainer r := by
  rcases List.mem_cons.mp hr with rfl | hr
  · exact .inr hs.root_split
  · exact .inl (hs.frames_folders r hr)

theorem mem_tops_of_windowRoots {r : NodeId} (hr : r ∈ l.windowRoots) : r ∈ l.tops := by
  rcases List.mem_cons.mp hr with rfl | hr
  · exact List.mem_cons_self
  · exact List.mem_cons_of_mem _ (List.mem_append_left _ hr)

theorem Sound.linked_of_walk (hs : l.Sound E) {r x : NodeId} {b : Bool}
    (hr : l.store.IsContainer r) (hx : x ∈ l.store.walk r b) (hleaf : l.store.IsLeaf x) :
    ∃ p, l.store.parent? x = some p :=
  hs.forest.exists_parent_of_walk hx fun he => hleaf.not_isContainer (he ▸ hr)

theorem Sound.linked_of_findPane (hs : l.Sound E) {part : PartId} {n : NodeId}
    (h : l.findPane part = some n) : ∃ p, l.store.parent? n = some p := by
  obtain ⟨r, hr, hrn⟩ := List.exists_of_findSome?_eq_some h
  obtain ⟨_, -, hform⟩ := Store.findPane_form hrn
  exact hs.linked_of_walk (hs.top_isContainer (mem_tops_of_windowRoots hr))
    (List.mem_of_find?_eq_some hrn) ⟨_, hform, rfl⟩

theorem Sound.linked_of_findPlaceholder (hs : l.Sound E) {part : PartId} {n : NodeId}
    (h : l.findPlaceholder part = some n) : ∃ p, l.store.parent? n = some p := by
  obtain ⟨r, hr, hrn⟩ := List.exists_of_findSome?_eq_some h
  exact hs.linked_of_walk (hs.top_isContainer hr) (List.mem_of_find?_eq_some hrn)
    ⟨_, Store.findPlaceholder_form hrn, rfl⟩

/-! ### Edits that keep a layout sound -/

section Edits

variable {s' : Store}

theorem forms_kept (hs : l.Sound E) (hform : ∀ x, s'.form? x = l.store.form? x) :
    s'.form? l.root = some .split ∧ (∀ f ∈ l.frames, s'.form? f = some .folder) := by
  rw [hform]
  exact ⟨hs.root_split, fun f hf => by rw [hform]; exact hs.frames_folders f hf⟩

/-- Taking a child out: the child joins the extra nodes. -/
theorem Sound.removeChild (hs : l.Sound E) {p c : NodeId} {w : Float32}
    (h : l.store.removeChild p c = .ok (w, s')) : ({ l with store := s' } : Layout).Sound (c :: E) := by
  have hcp : l.store.parent? c = some p := hs.forest.held_parent (Store.removeChild_mem h)
  have hform := Store.form?_removeChild h
  have hheld : ∀ x y, y ∈ s'.held x → y ∈ l.store.held x := by
    intro x y hy
    rw [Store.held_removeChild h] at hy
    split at hy
    · next hx => rw [hx]; exact List.mem_of_mem_erase hy
    · exact hy
  have hcut : ∀ x, s'.parent? x = l.store.parent? x ∨ s'.parent? x = none := by
    intro x
    rw [Store.parent?_removeChild h]
    split
    · exact .inr rfl
    · exact .inl rfl
  obtain ⟨hroot, hframes⟩ := forms_kept hs hform
  refine ⟨hs.forest.removeChild h, fun n => ?_, ?_, hs.ids_nodup, hs.ids_lt, hroot, hframes,
    fun x y hx hy => ?_, fun x y hx hy => ?_, fun a ha => ?_,
    hs.aligned.removeChild h⟩
  · rw [tops_withStore, Store.contains_removeChild h, Store.parent?_removeChild h]
    simp only [List.mem_append, List.mem_cons]
    by_cases hn : n = c
    · subst hn
      simp [Store.contains_of_parent? hcp]
    · simp only [hn, false_or, if_false]
      simpa using hs.tops_iff n
  · rw [tops_withStore]
    exact List.nodup_middle.mpr (List.nodup_cons.mpr ⟨hs.not_mem_of_parent hcp, hs.tops_nodup⟩)
  · rw [hform] at hx
    exact (Store.IsContainer.congr (hform y)).mpr (hs.fold_held x y hx (hheld x y hy))
  · rw [hform] at hx
    exact (Store.IsLeaf.congr (hform y)).mpr (hs.tabs_leaves x y hx (hheld x y hy))
  · obtain ⟨ha₁, ha₂⟩ := hs.area a ha
    exact ⟨(hform a).trans ha₁, fun x hx => (hform x).trans (ha₂ x (above_of_cut hcut hx))⟩

theorem Sound.extra_nodup (hs : l.Sound E) : E.Nodup := (List.nodup_append.mp hs.tops_nodup).2.1

theorem Sound.nodup_erase (hs : l.Sound E) (c : NodeId) : (l.tops ++ E.erase c).Nodup :=
  hs.tops_nodup.sublist (List.Sublist.append_left List.erase_sublist _)

theorem mem_tops_erase_iff {c n : NodeId} (hn : n ≠ c) :
    n ∈ l.tops ++ E.erase c ↔ n ∈ l.tops ++ E := by
  simp [List.mem_erase_of_ne hn]

theorem Sound.not_mem_erase (hs : l.Sound E) {c : NodeId} (hc : c ∈ E) : c ∉ l.tops ++ E.erase c := by
  intro hm
  rcases List.mem_append.mp hm with hm | hm
  · exact (List.nodup_append.mp hs.tops_nodup).2.2 c hm c hc rfl
  · exact (hs.extra_nodup.mem_erase_iff.mp hm).1 rfl

/-- Putting an extra node into a container: it leaves the extra nodes. The container must not
lie below it, a folder only takes panes and placeholders, and a container that takes the
editor area's branch must be a split under splits. -/
theorem Sound.insertChild (hs : l.Sound E) {p c : NodeId} {i : Nat} {w : Float32}
    (h : l.store.insertChild p i c w = .ok s') (hc : c ∈ E) (hcp : ¬ Under l.store.parent? c p)
    (hleaf : l.store.form? p = some .folder → l.store.IsLeaf c)
    (harea : ∀ a, l.editorArea = some a → Under l.store.parent? c a →
      l.store.form? p = some .split ∧ ∀ x, Above l.store.parent? x p → l.store.form? x = some .split) :
    ({ l with store := s' } : Layout).Sound (E.erase c) := by
  obtain ⟨-, htop⟩ := hs.top_of_mem (hs.extra_mem hc)
  have hform := Store.form?_insertChild h
  have hpc : l.store.IsContainer p := Store.insertChild_isContainer h
  have hheld : ∀ x y, y ∈ s'.held x → y ∈ l.store.held x ∨ (x = p ∧ y = c) := by
    intro x y hy
    rw [Store.held_insertChild h] at hy
    split at hy
    · next hx =>
      rw [List.mem_insertIdx (Nat.min_le_right _ _)] at hy
      rcases hy with rfl | hy
      · exact .inr ⟨hx, rfl⟩
      · exact .inl (hx ▸ hy)
    · exact .inl hy
  have hlink : ∀ x, x ≠ c → s'.parent? x = l.store.parent? x := fun x hx => by
    rw [Store.parent?_insertChild h, if_neg hx]
  have hcpar : s'.parent? c = some p := by rw [Store.parent?_insertChild h, if_pos rfl]
  obtain ⟨hroot, hframes⟩ := forms_kept hs hform
  refine ⟨hs.forest.insertChild h htop hcp, fun n => ?_, ?_, hs.ids_nodup, hs.ids_lt, hroot,
    hframes, fun x y hx hy => ?_, fun x y hx hy => ?_, fun a ha => ?_,
    hs.aligned.insertChild h⟩
  · rw [tops_withStore, Store.contains_insertChild h]
    by_cases hn : n = c
    · subst hn
      simp only [hcpar, reduceCtorEq, and_false, iff_false]
      exact hs.not_mem_erase hc
    · rw [mem_tops_erase_iff hn, hlink n hn]
      exact hs.tops_iff n
  · exact hs.nodup_erase c
  · rw [hform] at hx
    rcases hheld x y hy with hy | ⟨rfl, rfl⟩
    · exact (Store.IsContainer.congr (hform y)).mpr (hs.fold_held x y hx hy)
    · rcases hpc with h' | h' <;> rw [h'] at hx <;> cases hx
  · rw [hform] at hx
    rcases hheld x y hy with hy | ⟨rfl, rfl⟩
    · exact (Store.IsLeaf.congr (hform y)).mpr (hs.tabs_leaves x y hx hy)
    · exact (Store.IsLeaf.congr (hform y)).mpr (hleaf hx)
  · obtain ⟨ha₁, ha₂⟩ := hs.area a ha
    refine ⟨(hform a).trans ha₁, fun x hx => (hform x).trans ?_⟩
    rcases above_of_link hlink hcpar hx with hx | ⟨hca, hxp⟩
    · exact ha₂ x hx
    · obtain ⟨hp₁, hp₂⟩ := harea a ha hca
      rcases hxp with rfl | hxp
      · exact hp₁
      · exact hp₂ x hxp

theorem Sound.pushChild (hs : l.Sound E) {p c : NodeId} (h : l.store.pushChild p c = .ok s')
    (hc : c ∈ E) (hcp : ¬ Under l.store.parent? c p)
    (hleaf : l.store.form? p = some .folder → l.store.IsLeaf c)
    (harea : ∀ a, l.editorArea = some a → Under l.store.parent? c a →
      l.store.form? p = some .split ∧ ∀ x, Above l.store.parent? x p → l.store.form? x = some .split) :
    ({ l with store := s' } : Layout).Sound (E.erase c) := by
  obtain ⟨pn, -, hi⟩ := Store.pushChild_eq_ok h
  exact hs.insertChild hi hc hcp hleaf harea

/-- Putting an extra node into the slot of a child: the child it replaces joins the extra
nodes. -/
theorem Sound.replaceChild (hs : l.Sound E) {p old new : NodeId}
    (h : l.store.replaceChild p old new = .ok s') (hn : new ∈ E)
    (hnp : ¬ Under l.store.parent? new p)
    (hleaf : l.store.form? p = some .folder → l.store.IsLeaf new)
    (hfold : l.store.form? p = some .collapsed → l.store.IsContainer new)
    (harea : ∀ a, l.editorArea = some a → Under l.store.parent? new a →
      l.store.form? p = some .split ∧ ∀ x, Above l.store.parent? x p → l.store.form? x = some .split) :
    ({ l with store := s' } : Layout).Sound (old :: E.erase new) := by
  obtain ⟨-, htop⟩ := hs.top_of_mem (hs.extra_mem hn)
  have hop : l.store.parent? old = some p := hs.forest.held_parent (Store.replaceChild_mem h)
  have hne : new ≠ old := by
    rintro rfl
    rw [hop] at htop
    cases htop
  have hform := Store.form?_replaceChild h
  have hheld : ∀ x y, y ∈ s'.held x → y ∈ l.store.held x ∨ (x = p ∧ y = new) := by
    intro x y hy
    rw [Store.held_replaceChild h] at hy
    split at hy
    · next hx =>
      rcases List.mem_or_eq_of_mem_set hy with hy | rfl
      · exact .inl (hx ▸ hy)
      · exact .inr ⟨hx, rfl⟩
    · exact .inl hy
  let cut : NodeId → Option NodeId := fun x => if x = old then none else l.store.parent? x
  have hcut : ∀ x, cut x = l.store.parent? x ∨ cut x = none := fun x => by
    by_cases hx : x = old
    · exact .inr (if_pos hx)
    · exact .inl (if_neg hx)
  have hlink : ∀ x, x ≠ new → s'.parent? x = cut x := fun x hx => by
    rw [Store.parent?_replaceChild h, if_neg hx]
  have hnpar : s'.parent? new = some p := by rw [Store.parent?_replaceChild h, if_pos rfl]
  obtain ⟨hroot, hframes⟩ := forms_kept hs hform
  refine ⟨hs.forest.replaceChild h htop hnp, fun n => ?_, ?_, hs.ids_nodup, hs.ids_lt, hroot,
    hframes, fun x y hx hy => ?_, fun x y hx hy => ?_, fun a ha => ?_,
    hs.aligned.replaceChild h⟩
  · rw [tops_withStore, Store.contains_replaceChild h, Store.parent?_replaceChild h]
    simp only [List.mem_append, List.mem_cons]
    by_cases hnn : n = new
    · subst hnn
      simp only [if_true, reduceCtorEq, and_false, iff_false, hne, false_or]
      exact fun hm => hs.not_mem_erase hn (List.mem_append.mpr hm)
    · by_cases hno : n = old
      · subst hno
        simp [hnn, Store.contains_of_parent? hop]
      · simp only [hnn, hno, if_false, false_or]
        rw [← List.mem_append, mem_tops_erase_iff hnn]
        exact hs.tops_iff n
  · rw [tops_withStore]
    refine List.nodup_middle.mpr (List.nodup_cons.mpr ⟨fun hm => ?_, hs.nodup_erase new⟩)
    exact hs.not_mem_of_parent hop
      (List.Sublist.append_left List.erase_sublist _ |>.subset hm)
  · rw [hform] at hx
    rcases hheld x y hy with hy | ⟨rfl, rfl⟩
    · exact (Store.IsContainer.congr (hform y)).mpr (hs.fold_held x y hx hy)
    · exact (Store.IsContainer.congr (hform y)).mpr (hfold hx)
  · rw [hform] at hx
    rcases hheld x y hy with hy | ⟨rfl, rfl⟩
    · exact (Store.IsLeaf.congr (hform y)).mpr (hs.tabs_leaves x y hx hy)
    · exact (Store.IsLeaf.congr (hform y)).mpr (hleaf hx)
  · obtain ⟨ha₁, ha₂⟩ := hs.area a ha
    refine ⟨(hform a).trans ha₁, fun x hx => (hform x).trans ?_⟩
    rcases above_of_link hlink hnpar hx with hx | ⟨hna, hxp⟩
    · exact ha₂ x (above_of_cut hcut hx)
    · have hna' : Under l.store.parent? new a := by
        rcases hna with he | hna
        · exact .inl he
        · exact .inr (above_of_cut hcut hna)
      obtain ⟨hp₁, hp₂⟩ := harea a ha hna'
      rcases hxp with rfl | hxp
      · exact hp₁
      · exact hp₂ x (above_of_cut hcut hxp)

/-- A new node that holds nothing joins the extra nodes. -/
theorem Sound.alloc (hs : l.Sound E) (ident : String) (kind : NodeKind)
    (hk : Store.walkChildren true kind = []) (hka : kind.aligned = true) :
    ({ l with store := (l.store.alloc ident kind).2 } : Layout).Sound (l.store.nextId :: E) := by
  have hne : ∀ {x}, l.store.contains x = true → x ≠ l.store.nextId := fun hx =>
    Store.ne_nextId_of_get? ((Store.contains_iff _ _).mp hx).choose_spec
  have hform : ∀ x, l.store.contains x = true →
      (l.store.alloc ident kind).2.form? x = l.store.form? x := fun x hx => by
    rw [Store.form?_alloc, if_neg (hne hx)]
  have hheld : ∀ x, (l.store.alloc ident kind).2.held x = l.store.held x := fun x => by
    rw [Store.held_alloc]
    split
    · next hx => rw [hx, hk, Store.held_of_get?_none (Store.get?_nextId _)]
    · rfl
  have hcut : ∀ x, (l.store.alloc ident kind).2.parent? x = l.store.parent? x ∨
      (l.store.alloc ident kind).2.parent? x = none := fun x => by
    rw [Store.parent?_alloc]
    split
    · exact .inr rfl
    · exact .inl rfl
  have hrootc := (hs.top_of_mem hs.root_mem).1
  refine ⟨hs.forest.alloc hk, fun n => ?_, ?_, hs.ids_nodup, hs.ids_lt, ?_, fun f hf => ?_,
    fun x y hx hy => ?_, fun x y hx hy => ?_, fun a ha => ?_,
    hs.aligned.alloc ident hka⟩
  · rw [tops_withStore, Store.parent?_alloc]
    simp only [List.mem_append, List.mem_cons, Store.contains_iff, Store.get?_alloc]
    by_cases hn : n = l.store.nextId
    · subst hn
      simp
    · simp only [hn, false_or, if_false]
      simpa using hs.tops_iff n
  · refine List.nodup_middle.mpr (List.nodup_cons.mpr ⟨fun hm => ?_, hs.tops_nodup⟩)
    exact hne (hs.top_of_mem hm).1 rfl
  · rw [hform _ hrootc]
    exact hs.root_split
  · have hfc : l.store.contains f = true :=
      (hs.top_of_mem (List.mem_append_left _ (List.mem_cons_of_mem _ hf))).1
    rw [hform _ hfc]
    exact hs.frames_folders f hf
  · rw [hheld] at hy
    have hyc := hs.forest.contains_of_parent (hs.forest.held_parent hy) |> fun _ =>
      Store.contains_of_parent? (hs.forest.held_parent hy)
    have hxc := Store.contains_of_mem_held hy
    rw [hform _ hxc] at hx
    exact (Store.IsContainer.congr (hform y hyc)).mpr (hs.fold_held x y hx hy)
  · rw [hheld] at hy
    have hyc := Store.contains_of_parent? (hs.forest.held_parent hy)
    have hxc := Store.contains_of_mem_held hy
    rw [hform _ hxc] at hx
    exact (Store.IsLeaf.congr (hform y hyc)).mpr (hs.tabs_leaves x y hx hy)
  · obtain ⟨ha₁, ha₂⟩ := hs.area a ha
    have hac : l.store.contains a = true := (Store.contains_iff_form? _ _).mpr (by simp [ha₁])
    refine ⟨(hform a hac).trans ha₁, fun x hx => ?_⟩
    have hx' := above_of_cut hcut hx
    obtain ⟨c, hc⟩ := hx'.exists_child
    rw [hform x (hs.forest.contains_of_parent hc)]
    exact ha₂ x hx'

theorem Sound.allocContainer (hs : l.Sound E) {kind : NodeKind} (hk : Store.walkChildren true kind = [])
    (hka : kind.aligned = true) :
    ({ l with store := (l.store.allocContainer kind).2 } : Layout).Sound (l.store.nextId :: E) := by
  obtain ⟨ident, he⟩ := Store.allocContainer_eq l.store kind
  rw [he]
  exact hs.alloc _ _ hk hka

/-- Dropping an extra node that holds nothing. -/
theorem Sound.discard (hs : l.Sound E) {x : NodeId} (hx : x ∈ E) (hheld : l.store.held x = [])
    (harea : l.editorArea ≠ some x) :
    ({ l with store := l.store.discard x } : Layout).Sound (E.erase x) := by
  obtain ⟨-, htop⟩ := hs.top_of_mem (hs.extra_mem hx)
  have hform : ∀ y, y ≠ x → (l.store.discard x).form? y = l.store.form? y := fun y hy => by
    rw [Store.form?_discard, if_neg (Ne.symm hy)]
  have hnotx : ∀ y, y ∈ l.tops → y ≠ x := fun y hy he =>
    (List.nodup_append.mp hs.tops_nodup).2.2 y hy x hx he
  -- the dropped node holds nothing, so it is no node's container
  have hnotpar : ∀ y, l.store.parent? y ≠ some x := fun y hy => by
    have := hs.forest.mem_held_iff.mpr hy
    rw [hheld] at this
    cases this
  refine ⟨hs.forest.discard htop hheld, fun n => ?_, hs.nodup_erase x, hs.ids_nodup, hs.ids_lt,
    ?_, fun f hf => ?_, fun y z hy hz => ?_, fun y z hy hz => ?_, fun a ha => ?_,
    hs.aligned.discard x⟩
  · rw [tops_withStore]
    simp only [Store.contains, Store.get?_discard, Store.parent?_discard]
    by_cases hn : n = x
    · subst hn
      simp only [if_true, Option.isSome_none, Bool.false_eq_true, false_and, iff_false]
      exact hs.not_mem_erase hx
    · rw [if_neg (Ne.symm hn), if_neg (Ne.symm hn), mem_tops_erase_iff hn]
      exact hs.tops_iff n
  · rw [hform _ (hnotx _ (List.mem_cons_self ..))]
    exact hs.root_split
  · rw [hform _ (hnotx _ (List.mem_cons_of_mem _ hf))]
    exact hs.frames_folders f hf
  · have hyx : y ≠ x := fun he => by rw [he, Store.form?_discard, if_pos rfl] at hy; cases hy
    rw [hform _ hyx] at hy
    rw [Store.held_discard, if_neg (Ne.symm hyx)] at hz
    have hzx : z ≠ x := fun he => by
      rw [← he, hs.forest.held_parent hz] at htop
      cases htop
    exact (Store.IsContainer.congr (hform z hzx)).mpr (hs.fold_held y z hy hz)
  · have hyx : y ≠ x := fun he => by rw [he, Store.form?_discard, if_pos rfl] at hy; cases hy
    rw [hform _ hyx] at hy
    rw [Store.held_discard, if_neg (Ne.symm hyx)] at hz
    have hzx : z ≠ x := fun he => by
      rw [← he, hs.forest.held_parent hz] at htop
      cases htop
    exact (Store.IsLeaf.congr (hform z hzx)).mpr (hs.tabs_leaves y z hy hz)
  · obtain ⟨ha₁, ha₂⟩ := hs.area a ha
    have hax : a ≠ x := fun he => harea (he ▸ ha)
    have hcut : ∀ y, (l.store.discard x).parent? y = l.store.parent? y ∨
        (l.store.discard x).parent? y = none := fun y => by
      rw [Store.parent?_discard]
      split
      · exact .inr rfl
      · exact .inl rfl
    refine ⟨(hform a hax).trans ha₁, fun y hy => ?_⟩
    have hy' := above_of_cut hcut hy
    have hyx : y ≠ x := by
      rintro rfl
      obtain ⟨c, hc⟩ := hy'.exists_child
      exact hnotpar c hc
    exact (hform y hyx).trans (ha₂ y hy')

/-- Freeing the subtree of an extra node that does not hold the editor area. -/
theorem Sound.free (hs : l.Sound E) {t : NodeId} (ht : t ∈ E)
    (harea : ∀ a, l.editorArea = some a → ¬ Under l.store.parent? t a) :
    ({ l with store := l.store.free t } : Layout).Sound (E.erase t) := by
  classical
  obtain ⟨-, htop⟩ := hs.top_of_mem (hs.extra_mem ht)
  have hf := hs.forest
  -- a node of the layout other than `t` without a container is under no other top
  have htops : ∀ n, n ∈ l.tops ++ E → n ≠ t → ¬ Under l.store.parent? t n := fun n hn hne hu =>
    hne (hu.eq_of_top (hs.top_of_mem hn).2).symm
  have hform : ∀ y, ¬ Under l.store.parent? t y → (l.store.free t).form? y = l.store.form? y :=
    fun y hy => by rw [hf.form?_free, if_neg hy]
  -- a node below one outside the subtree is outside too, unless it is `t`
  have hdown : ∀ x y, y ∈ l.store.held x → ¬ Under l.store.parent? t x →
      ¬ Under l.store.parent? t y := fun x y hy hx hu => by
    have hyx := hf.held_parent hy
    rcases hu with rfl | hu
    · rw [htop] at hyx
      cases hyx
    · rcases hu.step hyx with rfl | hu
      · exact hx (.refl _)
      · exact hx (.inr hu)
  have hnt : ∀ n, n ∈ l.tops → n ≠ t := fun n hn he =>
    (List.nodup_append.mp hs.tops_nodup).2.2 n hn t ht he
  refine ⟨hf.free htop, fun n => ?_, hs.nodup_erase t, hs.ids_nodup, hs.ids_lt, ?_,
    fun f hfr => ?_, fun x y hx hy => ?_, fun x y hx hy => ?_, fun a ha => ?_,
    hs.aligned.free hf t⟩
  · rw [tops_withStore, hf.contains_free, hf.parent?_free]
    by_cases hn : n = t
    · subst hn
      simp only [Under.refl, decide_true, Bool.not_true, Bool.false_and, Bool.false_eq_true,
        false_and, iff_false]
      exact hs.not_mem_erase ht
    · rw [mem_tops_erase_iff hn]
      by_cases hu : Under l.store.parent? t n
      · simp only [hu, decide_true, Bool.not_true, Bool.false_and, Bool.false_eq_true, false_and,
          iff_false]
        exact fun hm => htops n hm hn hu
      · simp only [hu, decide_false, Bool.not_false, Bool.true_and, if_false]
        exact hs.tops_iff n
  · rw [hform _ (htops _ (List.mem_append_left _ (List.mem_cons_self ..))
      (hnt _ (List.mem_cons_self ..)))]
    exact hs.root_split
  · have hfm : f ∈ l.tops := List.mem_cons_of_mem _ hfr
    rw [hform _ (htops _ (List.mem_append_left _ hfm) (hnt _ hfm))]
    exact hs.frames_folders f hfr
  · have hxu : ¬ Under l.store.parent? t x := fun hu => by
      rw [hf.form?_free, if_pos hu] at hx
      cases hx
    rw [hform _ hxu] at hx
    rw [hf.held_free, if_neg hxu] at hy
    exact (Store.IsContainer.congr (hform y (hdown x y hy hxu))).mpr (hs.fold_held x y hx hy)
  · have hxu : ¬ Under l.store.parent? t x := fun hu => by
      rw [hf.form?_free, if_pos hu] at hx
      cases hx
    rw [hform _ hxu] at hx
    rw [hf.held_free, if_neg hxu] at hy
    exact (Store.IsLeaf.congr (hform y (hdown x y hy hxu))).mpr (hs.tabs_leaves x y hx hy)
  · obtain ⟨ha₁, ha₂⟩ := hs.area a ha
    have hcut : ∀ y, (l.store.free t).parent? y = l.store.parent? y ∨
        (l.store.free t).parent? y = none := fun y => by
      rw [hf.parent?_free]
      split
      · exact .inr rfl
      · exact .inl rfl
    refine ⟨(hform a (harea a ha)).trans ha₁, fun y hy => ?_⟩
    have hy' := above_of_cut hcut hy
    exact (hform y fun hu => harea a ha (hu.trans (.inr hy'))).trans (ha₂ y hy')

/-- An edit that keeps the shape of the table keeps the layout sound. -/
theorem Sound.sameShape (hs : l.Sound E) (h : Store.SameShape l.store s')
    (hal : s'.Aligned) :
    ({ l with store := s' } : Layout).Sound E := by
  have hform : ∀ x, s'.form? x = l.store.form? x := fun x => (h x).2.2
  obtain ⟨hroot, hframes⟩ := forms_kept hs hform
  refine ⟨hs.forest.of_sameShape h, fun n => ?_, hs.tops_nodup, hs.ids_nodup, hs.ids_lt, hroot,
    hframes, fun x y hx hy => ?_, fun x y hx hy => ?_, fun a ha => ?_, hal⟩
  · rw [tops_withStore, h.contains_eq, (h n).1]
    exact hs.tops_iff n
  · rw [hform] at hx
    rw [(h x).2.1] at hy
    exact (Store.IsContainer.congr (hform y)).mpr (hs.fold_held x y hx hy)
  · rw [hform] at hx
    rw [(h x).2.1] at hy
    exact (Store.IsLeaf.congr (hform y)).mpr (hs.tabs_leaves x y hx hy)
  · obtain ⟨ha₁, ha₂⟩ := hs.area a ha
    have hcut : ∀ x, s'.parent? x = l.store.parent? x ∨ s'.parent? x = none := fun x =>
      .inl (h x).1
    exact ⟨(hform a).trans ha₁, fun x hx => (hform x).trans (ha₂ x (above_of_cut hcut hx))⟩

/-- Folding a container behind a new collapsed node keeps a layout sound, when the container
does not hold the editor area and its own container is no collapsed node. -/
theorem Sound.fold (hs : l.Sound E) {ident : String} {cur p : NodeId} {s₂ s₃ : Store}
    (hcur : l.store.parent? cur = some p) (hp : l.store.form? p ≠ some .collapsed)
    (hcc : l.store.IsContainer cur)
    (harea : ∀ a, l.editorArea = some a → ¬ Under l.store.parent? cur a)
    (h₂ : (l.store.alloc ident (.collapsed cur)).2.replaceChild p cur l.store.nextId = .ok s₂)
    (h₃ : s₂.setParent cur (some l.store.nextId) = .ok s₃) :
    ({ l with store := s₃ } : Layout).Sound E := by
  have hf := hs.forest
  have hpar := Store.parent?_fold hcur h₂ h₃
  have hheld := hf.held_fold hcur h₂ h₃
  have hform := Store.form?_fold h₂ h₃
  have hne : ∀ {x}, l.store.contains x = true → x ≠ l.store.nextId := fun hx =>
    Store.ne_nextId_of_get? ((Store.contains_iff _ _).mp hx).choose_spec
  have hkept : ∀ {x}, l.store.contains x = true → s₃.form? x = l.store.form? x := fun hx => by
    rw [hform, if_neg (hne hx)]
  have hcurc : l.store.contains cur = true := Store.contains_of_parent? hcur
  have hheldc : ∀ {x y}, y ∈ l.store.held x → l.store.contains y = true := fun hy =>
    Store.contains_of_parent? (hf.held_parent hy)
  refine ⟨hf.fold hcur h₂ h₃, fun n => ?_, hs.tops_nodup, hs.ids_nodup, hs.ids_lt, ?_,
    fun f hfr => ?_, fun x y hx hy => ?_, fun x y hx hy => ?_, fun a ha => ?_,
    ((hs.aligned.alloc ident rfl).replaceChild h₂).setParent h₃⟩
  · rw [tops_withStore, Store.contains_fold h₂ h₃, hpar]
    by_cases hnc : n = cur
    · subst hnc
      simp only [if_true, reduceCtorEq, and_false, iff_false]
      exact hs.not_mem_of_parent hcur
    · by_cases hnn : n = l.store.nextId
      · subst hnn
        simp only [if_neg hnc, if_true, reduceCtorEq, and_false, iff_false]
        exact fun hm => hne (hs.top_of_mem hm).1 rfl
      · simp only [if_neg hnc, hnn, false_or]
        exact hs.tops_iff n
  · rw [hkept (hs.top_of_mem hs.root_mem).1]
    exact hs.root_split
  · have hfm : f ∈ l.tops ++ E := List.mem_append_left _ (List.mem_cons_of_mem _ hfr)
    rw [hkept (hs.top_of_mem hfm).1]
    exact hs.frames_folders f hfr
  · -- the new node folds `cur`; every other collapsed node holds what it held
    rw [hheld] at hy
    by_cases hxp : x = p
    · subst hxp
      rw [hkept (hf.contains_of_parent hcur)] at hx
      exact absurd hx hp
    rw [if_neg hxp] at hy
    by_cases hxn : x = l.store.nextId
    · rw [if_pos hxn, List.mem_singleton] at hy
      subst hy
      exact (Store.IsContainer.congr (hkept hcurc)).mpr hcc
    · rw [if_neg hxn] at hy
      rw [hform, if_neg hxn] at hx
      exact (Store.IsContainer.congr (hkept (hheldc hy))).mpr (hs.fold_held x y hx hy)
  · have hxn : x ≠ l.store.nextId := by
      rintro rfl
      rw [hform, if_pos rfl] at hx
      cases hx
    rw [hform, if_neg hxn] at hx
    rw [hheld, if_neg hxn] at hy
    by_cases hxp : x = p
    · -- a folder holds only leaves, so `p`, which holds the container `cur`, is no folder
      subst hxp
      exact absurd (hs.tabs_leaves x cur hx (hf.mem_held_iff.mpr hcur)) fun hl =>
        hl.not_isContainer hcc
    · rw [if_neg hxp] at hy
      exact (Store.IsLeaf.congr (hkept (hheldc hy))).mpr (hs.tabs_leaves x y hx hy)
  · obtain ⟨ha₁, ha₂⟩ := hs.area a ha
    have hac : l.store.contains a = true := (Store.contains_iff_form? _ _).mpr (by simp [ha₁])
    refine ⟨(hkept hac).trans ha₁, fun x hx => ?_⟩
    -- the editor area does not lie below `cur`, so the links above it stay
    have hx' := hf.above_fold hcur h₂ h₃ hac (harea a ha) hx
    obtain ⟨c, hc⟩ := hx'.exists_child
    exact (hkept (hf.contains_of_parent hc)).trans (ha₂ x hx')

/-- Unfolding a collapsed node keeps a layout sound. -/
theorem Sound.unfold (hs : l.Sound E) {cur hold grand : NodeId} {s₁ : Store}
    (hcur : l.store.parent? cur = some hold) (hform : l.store.form? hold = some .collapsed)
    (hg : l.store.parent? hold = some grand)
    (h₁ : l.store.replaceChild grand hold cur = .ok s₁) :
    ({ l with store := s₁.discard hold } : Layout).Sound E := by
  have hf := hs.forest
  have hpar := Store.parent?_unfold h₁
  have hheld := Store.held_unfold h₁
  have hform' := Store.form?_unfold h₁
  have hgc : l.store.IsContainer grand := hs.holder_of_collapsed hform hg
  have hnoth : ∀ y ∈ l.tops ++ E, y ≠ hold := fun y hy he =>
    hs.not_mem_of_parent hg (he ▸ hy)
  -- a node with a form other than the collapsed one keeps it
  have hkept : ∀ {x f}, l.store.form? x = some f → f ≠ .collapsed →
      (s₁.discard hold).form? x = some f := fun {x f} hx hfc => by
    have hxh : x ≠ hold := by
      rintro rfl
      rw [hform] at hx
      exact hfc (Option.some.inj hx).symm
    rw [hform', if_neg hxh, hx]
  refine ⟨hf.unfold hcur hform hg h₁, fun n => ?_, hs.tops_nodup, hs.ids_nodup, hs.ids_lt, ?_,
    fun f hfr => ?_, fun x y hx hy => ?_, fun x y hx hy => ?_, fun a ha => ?_,
    (hs.aligned.replaceChild h₁).discard hold⟩
  · rw [tops_withStore, Store.contains_unfold h₁, hpar]
    by_cases hnh : n = hold
    · subst hnh
      simp only [ne_eq, not_true_eq_false, false_and, iff_false]
      exact hs.not_mem_of_parent hg
    · by_cases hnc : n = cur
      · subst hnc
        simp only [if_neg hnh, if_true, reduceCtorEq, and_false, iff_false]
        exact hs.not_mem_of_parent hcur
      · simp only [if_neg hnc, ne_eq, hnh, not_false_eq_true, true_and]
        exact hs.tops_iff n
  · rw [hform', if_neg (hnoth _ hs.root_mem)]
    exact hs.root_split
  · rw [hform', if_neg (hnoth _ (List.mem_append_left _ (List.mem_cons_of_mem _ hfr)))]
    exact hs.frames_folders f hfr
  · have hxh : x ≠ hold := by
      rintro rfl
      rw [hform', if_pos rfl] at hx
      cases hx
    rw [hform', if_neg hxh] at hx
    rw [hheld, if_neg hxh] at hy
    by_cases hxg : x = grand
    · -- the container of a collapsed node is a folder or a split
      subst hxg
      rcases hgc with h | h <;> rw [h] at hx <;> cases hx
    · rw [if_neg hxg] at hy
      have hc := hs.fold_held x y hx hy
      rcases hc with h | h
      · exact .inl (hkept h nofun)
      · exact .inr (hkept h nofun)
  · have hxh : x ≠ hold := by
      rintro rfl
      rw [hform', if_pos rfl] at hx
      cases hx
    rw [hform', if_neg hxh] at hx
    rw [hheld, if_neg hxh] at hy
    by_cases hxg : x = grand
    · -- a folder holds only leaves, and a collapsed node is none
      subst hxg
      obtain ⟨f, hf', hl⟩ := hs.tabs_leaves x hold hx (hf.mem_held_iff.mpr hg)
      rw [hform] at hf'
      cases hf'
      cases hl
    · rw [if_neg hxg] at hy
      obtain ⟨f, hfy, hl⟩ := hs.tabs_leaves x y hx hy
      refine ⟨f, hkept hfy ?_, hl⟩
      rintro rfl
      cases hl
  · obtain ⟨ha₁, ha₂⟩ := hs.area a ha
    refine ⟨hkept ha₁ nofun, fun x hx => ?_⟩
    -- `cur` now hangs from `grand`, which was above it already
    have hx' : Above l.store.parent? x a := by
      refine above_of_shortcut (fun y m hy => ?_) hx
      rw [hpar] at hy
      by_cases hyh : y = hold
      · rw [if_pos hyh] at hy
        cases hy
      · rw [if_neg hyh] at hy
        by_cases hyc : y = cur
        · rw [if_pos hyc] at hy
          cases hy
          subst hyc
          exact .up hcur (.parent hg)
        · rw [if_neg hyc] at hy
          exact .parent hy
    exact hkept (ha₂ x hx') nofun

/-- Flattening a split with one child: the child takes the split's slot in its container,
which is no collapsed node, and the split goes. -/
theorem Sound.flatten (hs : l.Sound E) {cur only parent : NodeId} {w : Float32} {s₁ s₂ : Store}
    (hpar : l.store.parent? cur = some parent) (hp : l.store.form? parent ≠ some .collapsed)
    (hsplit : l.store.form? cur = some .split) (hheld : l.store.held cur = [only])
    (harea : l.editorArea ≠ some cur) (h₁ : l.store.removeChild cur only = .ok (w, s₁))
    (h₂ : s₁.replaceChild parent cur only = .ok s₂) :
    ({ l with store := s₂.discard cur } : Layout).Sound E := by
  have hf := hs.forest
  have hop : l.store.parent? only = some cur := hf.held_parent (by rw [hheld]; exact List.mem_singleton_self _)
  have hform := Store.form?_removeChild h₁
  have hcut : ∀ x, s₁.parent? x = l.store.parent? x ∨ s₁.parent? x = none := fun x => by
    rw [Store.parent?_removeChild h₁]
    split
    · exact .inr rfl
    · exact .inl rfl
  have hpo : Above l.store.parent? parent only := .up hop (.parent hpar)
  have h1 := hs.removeChild h₁
  have hnp : ¬ Under s₁.parent? only parent := by
    rintro (he | hu)
    · rw [he] at hpo
      exact hf.not_above_self _ hpo
    · exact hf.not_above_self _ ((above_of_cut hcut hu).trans hpo)
  -- the split is no leaf, so its container is no folder
  have hleaf : s₁.form? parent = some .folder → s₁.IsLeaf only := fun hpf => by
    rw [hform] at hpf
    obtain ⟨f, hf', hl⟩ := hs.tabs_leaves parent cur hpf (hf.mem_held_iff.mpr hpar)
    rw [hsplit] at hf'
    cases hf'
    cases hl
  have harea' : ∀ a, l.editorArea = some a → Under s₁.parent? only a →
      s₁.form? parent = some .split ∧ ∀ x, Above s₁.parent? x parent → s₁.form? x = some .split := by
    intro a ha hu
    obtain ⟨-, ha₂⟩ := hs.area a ha
    have hpa : Above l.store.parent? parent a := by
      rcases hu with rfl | hu
      · exact hpo
      · exact hpo.trans (above_of_cut hcut hu)
    refine ⟨(hform parent).trans (ha₂ parent hpa), fun x hx => ?_⟩
    exact (hform x).trans (ha₂ x ((above_of_cut hcut hx).trans hpa))
  have h2 := h1.replaceChild h₂ List.mem_cons_self hnp hleaf
    (fun hpc => absurd ((hform parent).symm.trans hpc) hp) harea'
  rw [List.erase_cons_head] at h2
  have hheld₂ : s₂.held cur = [] := by
    have hcp : cur ≠ parent := fun he => by
      rw [he] at hpar
      exact hf.not_above_self _ (.parent hpar)
    rw [Store.held_replaceChild h₂, if_neg hcp, Store.held_removeChild h₁, if_pos rfl, hheld,
      List.erase_cons_head]
  have h3 := h2.discard List.mem_cons_self hheld₂ harea
  rw [List.erase_cons_head] at h3
  exact h3

end Edits

end Layout

end Docking
