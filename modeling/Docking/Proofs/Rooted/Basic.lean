import Docking.Proofs.Sound.Windows
import Docking.Proofs.Rooted.Selected
/-!
# Rooted layouts

A layout read back from a document the page did not write need not be sound: a folder may
hold splits, a collapsed node may fold a pane, the editor-area mark may sit on any node. What
the requests keep on every layout they meet is weaker: the node table is a forest, the main
root is a split, every window, shown or parked, shows a folder, and these tops are in the table
without a container, no two the same. `Layout.Rooted l E` says so, with `E` listing the nodes a
request holds out of the tree, as `Layout.Sound` does; every sound layout is rooted
(`Sound.rooted`).

Each edit a request makes has its lemma here, in the form `Layout.Sound`'s lemmas have: the
node it takes out joins the held-out nodes, the node it puts in leaves them.
-/

namespace Docking

theorem not_under_of_top {par : NodeId → Option NodeId} {c p : NodeId} (hp : par p = none)
    (hne : c ≠ p) : ¬ Under par c p := fun hu => hne (hu.eq_of_top hp)

namespace Store

variable {s s₁ s₂ s' : Store} {m : NodeId}

/-- Nothing comes to lie below `m` on the way from `s` to `s'`: what lies below it in `s'` lay
below it in `s`. A request keeps sealed the subtree of a node it holds out of the tree. -/
def Sealed (m : NodeId) (s s' : Store) : Prop :=
  ∀ n, Above s'.parent? m n → Above s.parent? m n

theorem Sealed.refl (m : NodeId) (s : Store) : s.Sealed m s := fun _ h => h

theorem Sealed.trans (h₁ : s.Sealed m s₁) (h₂ : s₁.Sealed m s₂) : s.Sealed m s₂ :=
  fun n h => h₁ n (h₂ n h)

theorem Sealed.under (h : s.Sealed m s') {n : NodeId} (hu : Under s'.parent? m n) :
    Under s.parent? m n :=
  hu.imp id (h n)

theorem sealed_of_cut (h : ∀ x, s'.parent? x = s.parent? x ∨ s'.parent? x = none) (m : NodeId) :
    s.Sealed m s' :=
  fun _ => above_of_cut h

theorem sealed_replaceChild {p old new : NodeId} (h : s.replaceChild p old new = .ok s')
    (hp : ¬ Under s.parent? m p) : s.Sealed m s' := by
  refine fun _ => above_of_graft fun x q hx => ?_
  rw [parent?_replaceChild h] at hx
  split at hx
  · cases hx
    exact .inr hp
  · split at hx
    · cases hx
    · exact .inl hx

theorem sealed_insertChild {p c : NodeId} {i : Nat} {w : Float32}
    (h : s.insertChild p i c w = .ok s') (hp : ¬ Under s.parent? m p) : s.Sealed m s' := by
  refine fun _ => above_of_graft fun x q hx => ?_
  rw [parent?_insertChild h] at hx
  split at hx
  · cases hx
    exact .inr hp
  · exact .inl hx

theorem sealed_pushChild {p c : NodeId} (h : s.pushChild p c = .ok s')
    (hp : ¬ Under s.parent? m p) : s.Sealed m s' := by
  obtain ⟨pn, -, hi⟩ := pushChild_eq_ok h
  exact sealed_insertChild hi hp

/-- Folding `cur` behind a new collapsed node links the new node below `cur`'s container: a
node of the table whose subtree does not hold that container stays sealed. -/
theorem sealed_fold {ident : String} {cur p : NodeId} {s₂ s₃ : Store}
    (hcur : s.parent? cur = some p)
    (h₂ : (s.alloc ident (.collapsed cur)).2.replaceChild p cur s.nextId = .ok s₂)
    (h₃ : s₂.setParent cur (some s.nextId) = .ok s₃) (hm : s.contains m = true)
    (hp : ¬ Under s.parent? m p) : s.Sealed m s₃ := by
  refine fun _ => above_of_graft fun x q hx => ?_
  rw [parent?_fold hcur h₂ h₃] at hx
  split at hx
  · -- the new collapsed node has no container in `s`, so only itself lies under it
    cases hx
    refine .inr fun hu => ne_nextId_of_contains hm (hu.eq_of_top (parent?_nextId s))
  · split at hx
    · cases hx
      exact .inr hp
    · exact .inl hx

/-! ### The size of the table

No edit shrinks the table: a freed node leaves an empty slot, and a new node goes at the end.
So a handle that names a slot never becomes the handle a new node gets. -/

theorem size_modify (s : Store) (id : NodeId) (f : Node → Node) :
    (s.modify id f).slots.size = s.slots.size :=
  Array.size_modify ..

theorem size_setKind (s : Store) (id : NodeId) (k : NodeKind) :
    (s.setKind id k).slots.size = s.slots.size :=
  size_modify ..

theorem size_setBounds (s : Store) (id : NodeId) (r : Rect) :
    (s.setBounds id r).slots.size = s.slots.size :=
  size_modify ..

theorem size_discard (s : Store) (id : NodeId) : (s.discard id).slots.size = s.slots.size :=
  Array.size_modify ..

theorem size_alloc (s : Store) (ident : String) (kind : NodeKind) :
    (s.alloc ident kind).2.slots.size = s.slots.size + 1 :=
  Array.size_push ..

theorem size_fixSelection (s : Store) (f : NodeId) :
    (s.fixSelection f).slots.size = s.slots.size := by
  unfold fixSelection
  split
  · exact size_setKind ..
  · rfl

theorem size_select (s : Store) (c : NodeId) : (s.select c).2.slots.size = s.slots.size := by
  unfold select
  split
  · rfl
  · split
    · rfl
    · split
      · split
        · rfl
        · exact size_setKind ..
      · rfl

theorem size_setParent {id : NodeId} {p : Option NodeId} (h : s.setParent id p = .ok s') :
    s'.slots.size = s.slots.size := by
  obtain ⟨-, rfl⟩ := setParent_eq_ok h
  exact size_modify ..

theorem size_removeChild {p c : NodeId} {w : Float32} (h : s.removeChild p c = .ok (w, s')) :
    s'.slots.size = s.slots.size := by
  obtain ⟨-, -, -, -, -, -, -, -, rfl⟩ := removeChild_eq_ok h
  rw [size_fixSelection, size_modify, size_setKind]

theorem size_insertChild {p c : NodeId} {i : Nat} {w : Float32}
    (h : s.insertChild p i c w = .ok s') : s'.slots.size = s.slots.size := by
  obtain ⟨-, -, -, -, -, -, -, rfl⟩ := insertChild_eq_ok h
  rw [size_fixSelection, size_modify, size_setKind]

theorem size_pushChild {p c : NodeId} (h : s.pushChild p c = .ok s') :
    s'.slots.size = s.slots.size := by
  obtain ⟨pn, -, hi⟩ := pushChild_eq_ok h
  exact size_insertChild hi

theorem size_replaceChild {p old new : NodeId} (h : s.replaceChild p old new = .ok s') :
    s'.slots.size = s.slots.size := by
  obtain ⟨-, -, -, -, -, -, -, -, rfl⟩ := replaceChild_eq_ok h
  rw [size_fixSelection, size_modify, size_modify, size_setKind]

/-- Freeing a subtree empties slots one by one, level by level. -/
theorem size_freeFrom (k : Nat) : ∀ (s : Store) (t : NodeId), (s.freeFrom k t).slots.size = s.slots.size := by
  induction k with
  | zero => exact fun _ _ => rfl
  | succ k ih =>
    intro s t
    -- the children are freed in turn from the table that dropped `t`
    have hfold : ∀ (cs : List NodeId) (acc : Store),
        (cs.foldl (fun acc c => acc.freeFrom k c) acc).slots.size = acc.slots.size := by
      intro cs
      induction cs with
      | nil => exact fun _ => rfl
      | cons c cs ihc => exact fun acc => (ihc _).trans (ih acc c)
    unfold freeFrom
    split
    · rfl
    · rw [hfold, size_discard]

theorem size_free (s : Store) (t : NodeId) : (s.free t).slots.size = s.slots.size :=
  size_freeFrom _ s t

end Store

namespace Layout

variable {l l' : Layout} {E E' : List NodeId} {s' : Store}

/-- The shape every request keeps: the node table is a forest; the main root is a split and
every window, shown or parked, shows a folder; these tops and the nodes `extra` held out by a
request are in the table without a container, no two the same; the windows have different
numbers below the next one. -/
structure Rooted (l : Layout) (extra : List NodeId) : Prop where
  forest : l.store.Forest
  tops_top : ∀ n ∈ l.tops ++ extra, l.store.contains n = true ∧ l.store.parent? n = none
  tops_nodup : (l.tops ++ extra).Nodup
  ids_nodup : (l.windows.map (·.id)).Nodup
  ids_lt : ∀ w ∈ l.windows, w.id.val < l.nextWindow
  root_split : l.store.form? l.root = some .split
  frames_folders : ∀ f ∈ l.frames, l.store.form? f = some .folder

theorem Sound.rooted (hs : l.Sound E) : l.Rooted E :=
  ⟨hs.forest, fun n hn => (hs.tops_iff n).mp hn, hs.tops_nodup, hs.ids_nodup, hs.ids_lt,
    hs.root_split, hs.frames_folders⟩

theorem Rooted.sublist (hr : l.Rooted E) (h : E'.Sublist E) : l.Rooted E' :=
  ⟨hr.forest, fun n hn => hr.tops_top n ((h.append_left _).subset hn),
    hr.tops_nodup.sublist (h.append_left _), hr.ids_nodup, hr.ids_lt, hr.root_split,
    hr.frames_folders⟩

theorem Rooted.tail {x : NodeId} (hr : l.Rooted (x :: E)) : l.Rooted E :=
  hr.sublist (List.sublist_cons_self x E)

theorem Rooted.extra_top (hr : l.Rooted E) {n : NodeId} (hn : n ∈ E) :
    l.store.contains n = true ∧ l.store.parent? n = none :=
  hr.tops_top n (List.mem_append_right _ hn)

theorem Rooted.not_mem_of_parent (hr : l.Rooted E) {n p : NodeId}
    (h : l.store.parent? n = some p) : n ∉ l.tops ++ E := fun hm => by
  rw [(hr.tops_top n hm).2] at h
  cases h

theorem Rooted.nodup_erase (hr : l.Rooted E) (c : NodeId) : (l.tops ++ E.erase c).Nodup :=
  hr.tops_nodup.sublist (List.Sublist.append_left List.erase_sublist _)

theorem Rooted.not_mem_erase (hr : l.Rooted E) {c : NodeId} (hc : c ∈ E) :
    c ∉ l.tops ++ E.erase c := by
  intro hm
  have hnd := List.nodup_append.mp hr.tops_nodup
  rcases List.mem_append.mp hm with hm | hm
  · exact hnd.2.2 c hm c hc rfl
  · exact (hnd.2.1.mem_erase_iff.mp hm).1 rfl

theorem Rooted.top_isContainer (hr : l.Rooted E) {r : NodeId} (hr' : r ∈ l.tops) :
    l.store.IsContainer r := by
  rcases List.mem_cons.mp hr' with rfl | hr'
  · exact .inr hr.root_split
  · exact .inl (hr.frames_folders r hr')

theorem Rooted.linked_of_walk (hr : l.Rooted E) {r x : NodeId} {b : Bool}
    (hx : x ∈ l.store.walk r b) (hne : x ≠ r) : ∃ p, l.store.parent? x = some p :=
  hr.forest.exists_parent_of_walk hx hne

/-! ### Edits of the table -/

section Edits

theorem Rooted.withStore (hr : l.Rooted E) (hf : s'.Forest)
    (hform : ∀ t ∈ l.tops, s'.form? t = l.store.form? t)
    (htop : ∀ n ∈ l.tops ++ E', s'.contains n = true ∧ s'.parent? n = none)
    (hnd : (l.tops ++ E').Nodup) : ({ l with store := s' } : Layout).Rooted E' :=
  ⟨hf, htop, hnd, hr.ids_nodup, hr.ids_lt, (hform _ List.mem_cons_self).trans hr.root_split,
    fun f hf' => (hform f (List.mem_cons_of_mem _ hf')).trans (hr.frames_folders f hf')⟩

/-- Taking a child out: the child joins the held-out nodes. -/
theorem Rooted.removeChild (hr : l.Rooted E) {p c : NodeId} {w : Float32}
    (h : l.store.removeChild p c = .ok (w, s')) :
    ({ l with store := s' } : Layout).Rooted (c :: E) := by
  have hcp : l.store.parent? c = some p := hr.forest.held_parent (Store.removeChild_mem h)
  refine hr.withStore (hr.forest.removeChild h) (fun t _ => Store.form?_removeChild h t)
    (fun n hn => ?_) (List.nodup_middle.mpr (List.nodup_cons.mpr
      ⟨hr.not_mem_of_parent hcp, hr.tops_nodup⟩))
  rw [Store.contains_removeChild h, Store.parent?_removeChild h]
  by_cases hnc : n = c
  · subst hnc
    simp [Store.contains_of_parent? hcp]
  · rw [if_neg hnc]
    exact hr.tops_top n (by simpa [hnc] using hn)

/-- Putting a held-out node into a container that does not lie below it: it leaves the
held-out nodes. -/
theorem Rooted.insertChild (hr : l.Rooted E) {p c : NodeId} {i : Nat} {w : Float32}
    (h : l.store.insertChild p i c w = .ok s') (hc : c ∈ E) (hcp : ¬ Under l.store.parent? c p) :
    ({ l with store := s' } : Layout).Rooted (E.erase c) := by
  refine hr.withStore (hr.forest.insertChild h (hr.extra_top hc).2 hcp)
    (fun t _ => Store.form?_insertChild h t) (fun n hn => ?_) (hr.nodup_erase c)
  have hnc : n ≠ c := fun he => hr.not_mem_erase hc (he ▸ hn)
  rw [Store.contains_insertChild h, Store.parent?_insertChild h, if_neg hnc]
  exact hr.tops_top n ((mem_tops_erase_iff hnc).mp hn)

theorem Rooted.pushChild (hr : l.Rooted E) {p c : NodeId} (h : l.store.pushChild p c = .ok s')
    (hc : c ∈ E) (hcp : ¬ Under l.store.parent? c p) :
    ({ l with store := s' } : Layout).Rooted (E.erase c) := by
  obtain ⟨pn, -, hi⟩ := Store.pushChild_eq_ok h
  exact hr.insertChild hi hc hcp

/-- Putting a held-out node into the slot of a child: the child it replaces joins the held-out
nodes. -/
theorem Rooted.replaceChild (hr : l.Rooted E) {p old new : NodeId}
    (h : l.store.replaceChild p old new = .ok s') (hn : new ∈ E)
    (hnp : ¬ Under l.store.parent? new p) :
    ({ l with store := s' } : Layout).Rooted (old :: E.erase new) := by
  have htop := (hr.extra_top hn).2
  have hop : l.store.parent? old = some p := hr.forest.held_parent (Store.replaceChild_mem h)
  have hne : new ≠ old := by
    rintro rfl
    rw [hop] at htop
    cases htop
  refine hr.withStore (hr.forest.replaceChild h htop hnp) (fun t _ => Store.form?_replaceChild h t)
    (fun n hm => ?_) (List.nodup_middle.mpr (List.nodup_cons.mpr ⟨fun hm => hr.not_mem_of_parent hop
      ((List.Sublist.append_left List.erase_sublist _).subset hm), hr.nodup_erase new⟩))
  rw [Store.contains_replaceChild h, Store.parent?_replaceChild h]
  by_cases hnn : n = new
  · subst hnn
    exact absurd (by simpa [hne] using hm) (hr.not_mem_erase hn)
  · rw [if_neg hnn]
    by_cases hno : n = old
    · subst hno
      simp [Store.contains_of_parent? hop]
    · rw [if_neg hno]
      exact hr.tops_top n ((mem_tops_erase_iff hnn).mp (by simpa [hno] using hm))

/-- A new node that holds nothing joins the held-out nodes. -/
theorem Rooted.alloc (hr : l.Rooted E) (ident : String) (kind : NodeKind)
    (hk : Store.walkChildren true kind = []) :
    ({ l with store := (l.store.alloc ident kind).2 } : Layout).Rooted (l.store.nextId :: E) := by
  have hfresh : l.store.nextId ∉ l.tops ++ E := fun hm =>
    Store.ne_nextId_of_contains (hr.tops_top _ hm).1 rfl
  refine hr.withStore (hr.forest.alloc hk)
    (fun t ht => Store.form?_alloc_of_contains (hr.tops_top t (List.mem_append_left _ ht)).1 _ _)
    (fun n hn => ?_) (List.nodup_middle.mpr (List.nodup_cons.mpr ⟨hfresh, hr.tops_nodup⟩))
  rw [Store.parent?_alloc, Store.contains_alloc]
  by_cases hnn : n = l.store.nextId
  · subst hnn
    simp
  · have hold := hr.tops_top n (by simpa [hnn] using hn)
    rw [if_neg hnn]
    exact ⟨.inr hold.1, hold.2⟩

theorem Rooted.allocContainer (hr : l.Rooted E) {kind : NodeKind}
    (hk : Store.walkChildren true kind = []) :
    ({ l with store := (l.store.allocContainer kind).2 } : Layout).Rooted
      (l.store.nextId :: E) := by
  obtain ⟨ident, he⟩ := Store.allocContainer_eq l.store kind
  rw [he]
  exact hr.alloc ident kind hk

/-- Dropping a held-out node that holds nothing. -/
theorem Rooted.discard (hr : l.Rooted E) {x : NodeId} (hx : x ∈ E) (hheld : l.store.held x = []) :
    ({ l with store := l.store.discard x } : Layout).Rooted (E.erase x) := by
  have hout : ∀ {n}, n ∈ l.tops ++ E.erase x → x ≠ n := fun hn he =>
    hr.not_mem_erase hx (he ▸ hn)
  refine hr.withStore (hr.forest.discard (hr.extra_top hx).2 hheld)
    (fun t ht => by rw [Store.form?_discard, if_neg (hout (List.mem_append_left _ ht))])
    (fun n hn => ?_) (hr.nodup_erase x)
  have hold := hr.tops_top n ((mem_tops_erase_iff (Ne.symm (hout hn))).mp hn)
  rw [Store.contains_iff_form?, Store.form?_discard, if_neg (hout hn), ← Store.contains_iff_form?,
    Store.parent?_discard, if_neg (hout hn)]
  exact hold

/-- Freeing the subtree of a held-out node. -/
theorem Rooted.free (hr : l.Rooted E) {t : NodeId} (ht : t ∈ E) :
    ({ l with store := l.store.free t } : Layout).Rooted (E.erase t) := by
  have hf := hr.forest
  -- every other top lies outside the freed subtree
  have hout : ∀ {n}, n ∈ l.tops ++ E.erase t → ¬ Under l.store.parent? t n := fun {n} hn hu => by
    have hnt : n ≠ t := fun he => hr.not_mem_erase ht (he ▸ hn)
    exact not_under_of_top (hr.tops_top n ((mem_tops_erase_iff hnt).mp hn)).2 (Ne.symm hnt) hu
  refine hr.withStore (hf.free (hr.extra_top ht).2)
    (fun x hx => by rw [hf.form?_free, if_neg (hout (List.mem_append_left _ hx))])
    (fun n hn => ?_) (hr.nodup_erase t)
  have hnt : n ≠ t := fun he => hr.not_mem_erase ht (he ▸ hn)
  have hold := hr.tops_top n ((mem_tops_erase_iff hnt).mp hn)
  rw [hf.contains_free, hf.parent?_free, if_neg (hout hn)]
  simp [hout hn, hold.1, hold.2]

theorem Rooted.sameShape (hr : l.Rooted E) (h : Store.SameShape l.store s') :
    ({ l with store := s' } : Layout).Rooted E :=
  hr.withStore (hr.forest.of_sameShape h) (fun t _ => (h t).2.2)
    (fun n hn => ⟨(h.contains_eq n).trans (hr.tops_top n hn).1,
      (h n).1.trans (hr.tops_top n hn).2⟩) hr.tops_nodup

/-- Folding a node that has a container behind a new collapsed node. -/
theorem Rooted.fold (hr : l.Rooted E) {ident : String} {cur p : NodeId} {s₂ s₃ : Store}
    (hcur : l.store.parent? cur = some p)
    (h₂ : (l.store.alloc ident (.collapsed cur)).2.replaceChild p cur l.store.nextId = .ok s₂)
    (h₃ : s₂.setParent cur (some l.store.nextId) = .ok s₃) :
    ({ l with store := s₃ } : Layout).Rooted E := by
  have hfresh : ∀ {n}, n ∈ l.tops ++ E → n ≠ l.store.nextId := fun hn =>
    Store.ne_nextId_of_contains (hr.tops_top _ hn).1
  have hncur : ∀ {n}, n ∈ l.tops ++ E → n ≠ cur := fun hn he =>
    hr.not_mem_of_parent hcur (he ▸ hn)
  refine hr.withStore (hr.forest.fold hcur h₂ h₃)
    (fun t ht => by rw [Store.form?_fold h₂ h₃, if_neg (hfresh (List.mem_append_left _ ht))])
    (fun n hn => ⟨(Store.contains_fold h₂ h₃ n).mpr (.inr (hr.tops_top n hn).1), ?_⟩)
    hr.tops_nodup
  rw [Store.parent?_fold hcur h₂ h₃, if_neg (hncur hn), if_neg (hfresh hn)]
  exact (hr.tops_top n hn).2

/-- Unfolding a collapsed node that has a container: what it folds takes its slot. -/
theorem Rooted.unfold (hr : l.Rooted E) {cur hold grand : NodeId} {s₁ : Store}
    (hcur : l.store.parent? cur = some hold) (hform : l.store.form? hold = some .collapsed)
    (hg : l.store.parent? hold = some grand) (h₁ : l.store.replaceChild grand hold cur = .ok s₁) :
    ({ l with store := s₁.discard hold } : Layout).Rooted E := by
  have hnhold : ∀ {n}, n ∈ l.tops ++ E → n ≠ hold := fun hn he =>
    hr.not_mem_of_parent hg (he ▸ hn)
  have hncur : ∀ {n}, n ∈ l.tops ++ E → n ≠ cur := fun hn he =>
    hr.not_mem_of_parent hcur (he ▸ hn)
  refine hr.withStore (hr.forest.unfold hcur hform hg h₁)
    (fun t ht => by rw [Store.form?_unfold h₁, if_neg (hnhold (List.mem_append_left _ ht))])
    (fun n hn => ⟨(Store.contains_unfold h₁ n).mpr ⟨hnhold hn, (hr.tops_top n hn).1⟩, ?_⟩)
    hr.tops_nodup
  rw [Store.parent?_unfold h₁, if_neg (hnhold hn), if_neg (hncur hn)]
  exact (hr.tops_top n hn).2

/-- Flattening a split with one child: the child takes the split's slot, and the split goes. -/
theorem Rooted.flatten (hr : l.Rooted E) {cur only parent : NodeId} {w : Float32}
    {s₁ s₂ : Store} (hpar : l.store.parent? cur = some parent)
    (hheld : l.store.held cur = [only]) (h₁ : l.store.removeChild cur only = .ok (w, s₁))
    (h₂ : s₁.replaceChild parent cur only = .ok s₂) :
    ({ l with store := s₂.discard cur } : Layout).Rooted E := by
  have hf := hr.forest
  have hr₁ := hr.removeChild h₁
  -- `parent` lies above `only`, so not below it once `only` is out
  have hoc : l.store.parent? only = some cur :=
    hf.held_parent (by rw [hheld]; exact List.mem_singleton_self _)
  have habove : Above l.store.parent? parent only := .up hoc (.parent hpar)
  have hnp : ¬ Under s₁.parent? only parent := fun hu => by
    rcases under_of_cut (Store.cut_removeChild h₁) hu with he | ha
    · subst he
      exact hf.not_above_self _ habove
    · exact hf.not_above_self _ (ha.trans habove)
  have hr₂ := hr₁.replaceChild h₂ List.mem_cons_self hnp
  rw [List.erase_cons_head] at hr₂
  have hheld₂ : s₂.held cur = [] := by
    have hcp : cur ≠ parent := hf.ne_of_parent hpar
    rw [Store.held_replaceChild h₂, if_neg hcp, Store.held_removeChild h₁, if_pos rfl, hheld]
    exact List.erase_cons_head _ _
  have hr₃ := hr₂.discard List.mem_cons_self hheld₂
  rwa [List.erase_cons_head] at hr₃

end Edits

/-! ### Windows

The window changes a request makes move one folder between the frames and the held-out
nodes, as they do for `Sound`; they all go through `Rooted.of_frames_perm`. -/

section Windows

/-- A layout with the table and root of a rooted layout is rooted when its window folders and
held-out nodes are the old ones up to order, its window folders are folders and its window
numbers are different and below the next number. -/
theorem Rooted.of_frames_perm (hr : l.Rooted E) (hstore : l'.store = l.store)
    (hroot : l'.root = l.root) (hperm : (l'.frames ++ E').Perm (l.frames ++ E))
    (hframes : ∀ f ∈ l'.frames, l.store.form? f = some .folder)
    (hids : (l'.windows.map (·.id)).Nodup) (hlt : ∀ w ∈ l'.windows, w.id.val < l'.nextWindow) :
    l'.Rooted E' := by
  have htops : (l'.tops ++ E').Perm (l.tops ++ E) := by
    rw [tops_eq, tops_eq, hroot]
    exact hperm.cons _
  refine ⟨by rw [hstore]; exact hr.forest, fun n hn => ?_, htops.nodup_iff.mpr hr.tops_nodup,
    hids, hlt, by rw [hstore, hroot]; exact hr.root_split, by rw [hstore]; exact hframes⟩
  rw [hstore]
  exact hr.tops_top n (htops.mem_iff.mp hn)

/-- Changing a layout besides its table, its windows' numbers and folders and its parked
windows' folders keeps it rooted: bounds, surfaces, the host, the zoom, the fast views and
the editor-area mark. -/
theorem Rooted.of_frames (hr : l.Rooted E) (hstore : l'.store = l.store) (hroot : l'.root = l.root)
    (hwin : l'.windows.map (fun w => (w.id, w.folder)) = l.windows.map fun w => (w.id, w.folder))
    (hparked : l'.parked.map (·.folder) = l.parked.map (·.folder))
    (hnext : l'.nextWindow = l.nextWindow) : l'.Rooted E := by
  have hfold : l'.windows.map (·.folder) = l.windows.map (·.folder) := by
    simpa [List.map_map, Function.comp_def] using congrArg (List.map Prod.snd) hwin
  have hid : l'.windows.map (·.id) = l.windows.map (·.id) := by
    simpa [List.map_map, Function.comp_def] using congrArg (List.map Prod.fst) hwin
  have hframes : l'.frames = l.frames := by rw [frames, frames, hfold, hparked]
  refine hr.of_frames_perm hstore hroot (by rw [hframes]) (fun f hf => ?_)
    (by rw [hid]; exact hr.ids_nodup) fun w hw => ?_
  · rw [hframes] at hf
    exact hr.frames_folders f hf
  · have hmem : w.id ∈ l.windows.map (·.id) := by
      rw [← hid]
      exact List.mem_map_of_mem hw
    obtain ⟨w', hw', he⟩ := List.mem_map.mp hmem
    rw [hnext, ← he]
    exact hr.ids_lt w' hw'

theorem Rooted.close (hr : l.Rooted E) {win : Window} (hwin : win ∈ l.windows) (h : Host) :
    ({ l with windows := l.windows.filter (·.id != win.id), host := h } : Layout).Rooted
      (win.folder :: E) :=
  hr.of_frames_perm rfl rfl (frames_close_perm E hr.ids_nodup hwin h)
    (fun _ hf => hr.frames_folders _ (mem_frames_close h hf))
    (hr.ids_nodup.sublist (List.filter_sublist.map _)) fun x hx =>
      hr.ids_lt x (List.mem_of_mem_filter hx)

theorem Rooted.park (hr : l.Rooted E) {win : Window} (hwin : win ∈ l.windows) (h : Host) :
    ({ l with
        windows := l.windows.filter (·.id != win.id), host := h,
        parked := l.parked ++ [⟨win.bounds, win.folder⟩] } : Layout).Rooted E :=
  hr.of_frames_perm rfl rfl (frames_park_perm E hr.ids_nodup hwin h)
    (fun _ hf => hr.frames_folders _ (mem_frames_park hwin h hf))
    (hr.ids_nodup.sublist (List.filter_sublist.map _)) fun x hx =>
      hr.ids_lt x (List.mem_of_mem_filter hx)

theorem Rooted.unpark (hr : l.Rooted E) {i : Nat} (hi : i < l.parked.length) :
    ({ l with parked := l.parked.eraseIdx i } : Layout).Rooted (l.parked[i].folder :: E) :=
  hr.of_frames_perm rfl rfl (frames_unpark_perm E hi)
    (fun _ hf => hr.frames_folders _ (mem_frames_unpark hi hf)) hr.ids_nodup hr.ids_lt

/-- Opening a window on a held-out folder under the next number: the folder leaves the
held-out nodes. -/
theorem Rooted.open (hr : l.Rooted E) {f : NodeId} (hf : f ∈ E)
    (hfold : l.store.form? f = some .folder) (b : FloatRect) (sf : Option SurfaceId) (h : Host) :
    ({ l with
        windows := l.windows ++ [⟨⟨l.nextWindow⟩, b, f, sf⟩], nextWindow := l.nextWindow + 1,
        host := h } : Layout).Rooted (E.erase f) := by
  obtain ⟨hids, hlt⟩ := ids_open hr.ids_nodup hr.ids_lt ⟨⟨l.nextWindow⟩, b, f, sf⟩ rfl
  refine hr.of_frames_perm rfl rfl (frames_open_perm E hf b sf h) (fun g hg => ?_) hids hlt
  rcases mem_frames_open hg with hg | rfl
  · exact hr.frames_folders g hg
  · exact hfold

end Windows

/-! ### Planted layouts

The editor-area mark is a plain handle that no request moves. A request puts a new editor
into a folder below the marked node, and makes that folder when there is none: were the mark
the handle the new folder gets, the folder would hold itself. `Layout.Planted l E` says that
`l` is rooted, that its mark names a slot of the table, a node that is there or that was
freed (no request shrinks the table, so the mark keeps naming one), and that every folder's
selection rests on a pane or a folder (`Store.Picked`). -/

section Planted

/-- A rooted layout whose editor-area mark names a slot of its table and whose folders select
panes or folders. -/
structure Planted (l : Layout) (extra : List NodeId) : Prop where
  rooted : l.Rooted extra
  area_lt : ∀ a, l.editorArea = some a → a.val < l.store.slots.size
  picked : l.store.Picked

theorem Planted.area_ne_nextId (hp : l.Planted E) {a : NodeId} (ha : l.editorArea = some a) :
    a ≠ l.store.nextId := fun he => by
  have := hp.area_lt a ha
  rw [he, Store.nextId] at this
  exact Nat.lt_irrefl _ this

theorem Planted.grow (hp : l.Planted E) (hr : l'.Rooted E') (harea : l'.editorArea = l.editorArea)
    (hsize : l.store.slots.size ≤ l'.store.slots.size) (hq : Store.Refolds l.store l'.store) :
    l'.Planted E' :=
  ⟨hr, fun a ha => Nat.lt_of_lt_of_le (hp.area_lt a (harea ▸ ha)) hsize, hp.picked.of_refolds hq⟩

theorem Planted.sublist (hp : l.Planted E) (h : E'.Sublist E) : l.Planted E' :=
  ⟨hp.rooted.sublist h, hp.area_lt, hp.picked⟩

theorem Planted.tail {x : NodeId} (hp : l.Planted (x :: E)) : l.Planted E :=
  ⟨hp.rooted.tail, hp.area_lt, hp.picked⟩

theorem Planted.removeChild (hp : l.Planted E) {p c : NodeId} {w : Float32}
    (h : l.store.removeChild p c = .ok (w, s')) :
    ({ l with store := s' } : Layout).Planted (c :: E) :=
  hp.grow (hp.rooted.removeChild h) rfl (Nat.le_of_eq (Store.size_removeChild h).symm)
    (Store.refolds_removeChild h)

theorem Planted.insertChild (hp : l.Planted E) {p c : NodeId} {i : Nat} {w : Float32}
    (h : l.store.insertChild p i c w = .ok s') (hc : c ∈ E) (hcp : ¬ Under l.store.parent? c p) :
    ({ l with store := s' } : Layout).Planted (E.erase c) :=
  hp.grow (hp.rooted.insertChild h hc hcp) rfl (Nat.le_of_eq (Store.size_insertChild h).symm)
    (Store.refolds_insertChild h)

theorem Planted.pushChild (hp : l.Planted E) {p c : NodeId} (h : l.store.pushChild p c = .ok s')
    (hc : c ∈ E) (hcp : ¬ Under l.store.parent? c p) :
    ({ l with store := s' } : Layout).Planted (E.erase c) :=
  hp.grow (hp.rooted.pushChild h hc hcp) rfl (Nat.le_of_eq (Store.size_pushChild h).symm)
    (Store.refolds_pushChild h)

theorem Planted.pushLeaf (hp : l.Planted E) {p c : NodeId} (h : l.store.pushChild p c = .ok s')
    (hc : c ∈ E) (hleaf : l.store.IsLeaf c) :
    ({ l with store := s' } : Layout).Planted (E.erase c) := by
  refine hp.pushChild h hc fun hu => ?_
  have hcp := (hp.rooted.forest.under_leaf_iff hleaf).mp hu
  subst hcp
  exact hleaf.not_isContainer (Store.pushChild_isContainer h)

theorem Planted.replaceChild (hp : l.Planted E) {p old new : NodeId}
    (h : l.store.replaceChild p old new = .ok s') (hn : new ∈ E)
    (hnp : ¬ Under l.store.parent? new p) :
    ({ l with store := s' } : Layout).Planted (old :: E.erase new) :=
  hp.grow (hp.rooted.replaceChild h hn hnp) rfl (Nat.le_of_eq (Store.size_replaceChild h).symm)
    (Store.refolds_replaceChild h)

/-- A new node that holds nothing, and as a folder selects nothing, joins the held-out nodes. -/
theorem Planted.alloc (hp : l.Planted E) (ident : String) (kind : NodeKind)
    (hk : Store.walkChildren true kind = []) (hsel : ∀ cs sel, kind = .folder cs sel → sel = none) :
    ({ l with store := (l.store.alloc ident kind).2 } : Layout).Planted (l.store.nextId :: E) :=
  hp.grow (hp.rooted.alloc ident kind hk) rfl (by rw [Store.size_alloc]; exact Nat.le_succ _)
    (Store.refolds_alloc hp.rooted.forest ident fun cs sel he => by
      subst he
      exact ⟨hk, hsel cs sel rfl⟩)

theorem Planted.allocContainer (hp : l.Planted E) {kind : NodeKind}
    (hk : Store.walkChildren true kind = []) (hsel : ∀ cs sel, kind = .folder cs sel → sel = none) :
    ({ l with store := (l.store.allocContainer kind).2 } : Layout).Planted
      (l.store.nextId :: E) := by
  obtain ⟨ident, he⟩ := Store.allocContainer_eq l.store kind
  rw [he]
  exact hp.alloc ident kind hk hsel

theorem Planted.discard (hp : l.Planted E) {x : NodeId} (hx : x ∈ E) (hheld : l.store.held x = []) :
    ({ l with store := l.store.discard x } : Layout).Planted (E.erase x) :=
  hp.grow (hp.rooted.discard hx hheld) rfl (Nat.le_of_eq (Store.size_discard _ _).symm)
    (Store.refolds_discard_top hp.rooted.forest (hp.rooted.extra_top hx).2)

theorem Planted.free (hp : l.Planted E) {t : NodeId} (ht : t ∈ E) :
    ({ l with store := l.store.free t } : Layout).Planted (E.erase t) :=
  hp.grow (hp.rooted.free ht) rfl (Nat.le_of_eq (Store.size_free _ _).symm)
    (Store.refolds_free hp.rooted.forest (hp.rooted.extra_top ht).2)

theorem Planted.sameShape (hp : l.Planted E) (h : Store.SameShape l.store s')
    (hsize : s'.slots.size = l.store.slots.size) (hpick : s'.Picked) :
    ({ l with store := s' } : Layout).Planted E :=
  ⟨hp.rooted.sameShape h, fun a ha => hsize ▸ hp.area_lt a ha, hpick⟩

theorem Planted.fold (hp : l.Planted E) {ident : String} {cur p : NodeId} {s₂ s₃ : Store}
    (hcur : l.store.parent? cur = some p)
    (h₂ : (l.store.alloc ident (.collapsed cur)).2.replaceChild p cur l.store.nextId = .ok s₂)
    (h₃ : s₂.setParent cur (some l.store.nextId) = .ok s₃) :
    ({ l with store := s₃ } : Layout).Planted E :=
  hp.grow (hp.rooted.fold hcur h₂ h₃) rfl (by
    rw [Store.size_setParent h₃, Store.size_replaceChild h₂, Store.size_alloc]
    exact Nat.le_succ _)
    (((Store.refolds_alloc hp.rooted.forest ident fun _ _ h => by cases h).trans
      (Store.refolds_replaceChild h₂)).trans (Store.refolds_setParent h₃))

theorem Planted.unfold (hp : l.Planted E) {cur hold grand : NodeId} {s₁ : Store}
    (hcur : l.store.parent? cur = some hold) (hform : l.store.form? hold = some .collapsed)
    (hg : l.store.parent? hold = some grand) (h₁ : l.store.replaceChild grand hold cur = .ok s₁) :
    ({ l with store := s₁.discard hold } : Layout).Planted E :=
  hp.grow (hp.rooted.unfold hcur hform hg h₁) rfl
    (Nat.le_of_eq (by rw [Store.size_discard, Store.size_replaceChild h₁]))
    ((Store.refolds_replaceChild h₁).trans
      (Store.refolds_discard (.inl ((Store.form?_replaceChild h₁ hold).trans hform))))

theorem Planted.flatten (hp : l.Planted E) {cur only parent : NodeId} {w : Float32}
    {s₁ s₂ : Store} (hpar : l.store.parent? cur = some parent)
    (hsplit : l.store.form? cur = some .split)
    (hheld : l.store.held cur = [only]) (h₁ : l.store.removeChild cur only = .ok (w, s₁))
    (h₂ : s₁.replaceChild parent cur only = .ok s₂) :
    ({ l with store := s₂.discard cur } : Layout).Planted E :=
  hp.grow (hp.rooted.flatten hpar hheld h₁ h₂) rfl
    (Nat.le_of_eq (by rw [Store.size_discard, Store.size_replaceChild h₂, Store.size_removeChild h₁]))
    (((Store.refolds_removeChild h₁).trans (Store.refolds_replaceChild h₂)).trans
      (Store.refolds_discard (.inr (((Store.form?_replaceChild h₂ cur).trans
        (Store.form?_removeChild h₁ cur)).trans hsplit))))

theorem Planted.of_frames (hp : l.Planted E) (hstore : l'.store = l.store) (hroot : l'.root = l.root)
    (harea : l'.editorArea = l.editorArea)
    (hwin : l'.windows.map (fun w => (w.id, w.folder)) = l.windows.map fun w => (w.id, w.folder))
    (hparked : l'.parked.map (·.folder) = l.parked.map (·.folder))
    (hnext : l'.nextWindow = l.nextWindow) : l'.Planted E :=
  hp.grow (hp.rooted.of_frames hstore hroot hwin hparked hnext) harea (Nat.le_of_eq (by rw [hstore]))
    (hstore ▸ .refl _)

theorem Planted.close (hp : l.Planted E) {win : Window} (hwin : win ∈ l.windows) (h : Host) :
    ({ l with windows := l.windows.filter (·.id != win.id), host := h } : Layout).Planted
      (win.folder :: E) :=
  ⟨hp.rooted.close hwin h, hp.area_lt, hp.picked⟩

theorem Planted.park (hp : l.Planted E) {win : Window} (hwin : win ∈ l.windows) (h : Host) :
    ({ l with
        windows := l.windows.filter (·.id != win.id), host := h,
        parked := l.parked ++ [⟨win.bounds, win.folder⟩] } : Layout).Planted E :=
  ⟨hp.rooted.park hwin h, hp.area_lt, hp.picked⟩

theorem Planted.unpark (hp : l.Planted E) {i : Nat} (hi : i < l.parked.length) :
    ({ l with parked := l.parked.eraseIdx i } : Layout).Planted (l.parked[i].folder :: E) :=
  ⟨hp.rooted.unpark hi, hp.area_lt, hp.picked⟩

theorem Planted.open (hp : l.Planted E) {f : NodeId} (hf : f ∈ E)
    (hfold : l.store.form? f = some .folder) (b : FloatRect) (sf : Option SurfaceId) (h : Host) :
    ({ l with
        windows := l.windows ++ [⟨⟨l.nextWindow⟩, b, f, sf⟩], nextWindow := l.nextWindow + 1,
        host := h } : Layout).Planted (E.erase f) :=
  ⟨hp.rooted.open hf hfold b sf h, hp.area_lt, hp.picked⟩

end Planted

end Layout

end Docking
