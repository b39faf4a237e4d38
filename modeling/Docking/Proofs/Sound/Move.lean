import Docking.Proofs.Sound.Show
import Docking.Layout.Move
/-!
# Moving panes and folders keeps a layout sound

A move takes its node out (`lift`), tidies behind it, and then puts it against the reference
node (`insertBeside`); a refused insertion puts the node at the end of the root split, so a
move never leaves a node out of the tree. The checks made before the node is taken out are
about the table as it was; `Store.Spares` carries them over the tidying: the reference node
is still not below the moving node, and it is still no tab of a folder.

A detached window's folder stays with its window: its tabs go over to a new folder
(`transferTabs`), which moves instead.
-/

namespace Docking

namespace Store

variable {s : Store}

/-- A node that can be moved or stacked onto: a folder or a pane. -/
def Movable (s : Store) (n : NodeId) : Prop :=
  s.form? n = some .folder ∨ ∃ p, s.form? n = some (.pane p)

theorem movable_of_get? {n : NodeId} {nd : Node} (h : s.get? n = some nd)
    (hk : (nd.kind.isPane || nd.kind.isFolder) = true) : s.Movable n := by
  rw [Movable, form?_of_get? h]
  cases hkn : nd.kind <;> simp_all [NodeKind.isPane, NodeKind.isFolder, NodeKind.form]

theorem Movable.congr {s' : Store} {n : NodeId} (h : s'.form? n = s.form? n) :
    s'.Movable n ↔ s.Movable n := by
  simp only [Movable, h]

theorem Movable.ne_split {n : NodeId} (h : s.Movable n) : s.form? n ≠ some .split := by
  rcases h with h | ⟨p, h⟩ <;> simp [h]

theorem Movable.ne_collapsed {n : NodeId} (h : s.Movable n) : s.form? n ≠ some .collapsed := by
  rcases h with h | ⟨p, h⟩ <;> simp [h]

theorem Movable.contains {n : NodeId} (h : s.Movable n) : s.contains n = true := by
  rw [contains_iff_form?]
  rcases h with h | ⟨p, h⟩ <;> simp [h]

theorem Movable.held_eq_children {n : NodeId} (h : s.Movable n) : s.held n = s.children n := by
  rcases h with h | ⟨p, h⟩
  · exact Store.held_eq_children (.inl h)
  · obtain ⟨nd, hnd, hk⟩ := Option.map_eq_some_iff.mp h
    rw [held_of_get? hnd, children, hnd]
    cases hkn : nd.kind <;> simp_all [NodeKind.form, walkChildren, NodeKind.children]

theorem form?_eq_folder_iff {x : NodeId} {n : Node} (h : s.get? x = some n) :
    s.form? x = some .folder ↔ n.kind.isFolder = true := by
  rw [form?_of_get? h]
  cases hk : n.kind <;> simp [NodeKind.form, NodeKind.isFolder]

theorem contains_nextId (s : Store) : s.contains s.nextId = false :=
  Bool.eq_false_iff.mpr fun h => ne_nextId_of_contains h rfl

theorem childIndex_ok {p c : NodeId} (hp : s.IsContainer p) (hc : c ∈ s.held p) :
    ∃ i, s.childIndex p c = .ok i := by
  obtain ⟨pn, hpn, hf⟩ := isContainer_iff.mp hp
  rw [held_of_get? hpn, walkChildren_of_form hf] at hc
  exact ⟨_, childIndex_of_mem hpn hf hc⟩

/-- A folder holding one tab shows as many panes as the tab. -/
theorem countPanes_single {q c : NodeId} (hq : s.form? q = some .folder) (hheld : s.held q = [c])
    (hc : s.IsLeaf c) : s.countPanes q = s.countPanes c := by
  obtain ⟨qn, hqn, hqf⟩ := Option.map_eq_some_iff.mp hq
  obtain ⟨f, hcf, hleaf⟩ := hc
  obtain ⟨cn, hcn, rfl⟩ := Option.map_eq_some_iff.mp hcf
  -- the table holds `q`, so the count goes at least one level down
  obtain ⟨k, hk⟩ : ∃ k, s.slots.size = k + 1 :=
    ⟨s.slots.size - 1, by have := lt_size_of_get? hqn; omega⟩
  rw [held_of_get? hqn] at hheld
  unfold countPanes depthBound
  rw [hk]
  obtain ⟨i, p, b, kind⟩ := qn
  obtain ⟨ci, cp, cb, ckind⟩ := cn
  cases kind <;> simp only [NodeKind.form, reduceCtorEq] at hqf
  simp only [walkChildren] at hheld
  subst hheld
  cases ckind <;> simp [NodeKind.form, Form.isLeaf] at hleaf <;> simp [panesBelow, hqn, hcn]

end Store

namespace Layout

variable {l : Layout} {E : List NodeId}

theorem folderOf_eq_some_iff {x f : NodeId} :
    l.folderOf x = some f ↔ l.store.parent? x = some f ∧ l.store.form? f = some .folder := by
  rw [folderOf, Option.filter_eq_some_iff]
  refine and_congr_right fun _ => ⟨fun h => Store.form?_of_isFolder h, Store.isFolder_of_form?⟩

theorem Sound.not_above_top (hs : l.Sound E) {p : NodeId} (hp : p ∈ l.tops ++ E) (x : NodeId) :
    ¬ Above l.store.parent? x p := fun hx => by
  obtain ⟨m, hm⟩ := hx.exists_parent
  rw [(hs.top_of_mem hp).2] at hm
  cases hm

theorem Sound.not_under_top (hs : l.Sound E) {c p : NodeId} (hp : p ∈ l.tops ++ E) (hne : c ≠ p) :
    ¬ Under l.store.parent? c p := by
  rintro (he | ha)
  · exact hne he
  · exact hs.not_above_top hp c ha

theorem Sound.movable_leaves (hs : l.Sound E) {n : NodeId} (hn : l.store.Movable n) :
    ∀ c ∈ l.store.held n, l.store.IsLeaf c := by
  intro c hc
  rcases hn with hn | ⟨p, hp⟩
  · exact hs.tabs_leaves n c hn hc
  · rw [Store.held_eq_nil_of_isLeaf ⟨_, hp, rfl⟩] at hc
    cases hc

theorem Sound.movable_off_area (hs : l.Sound E) {n : NodeId} (hn : l.store.Movable n) :
    ∀ a, l.editorArea = some a → ¬ Under l.store.parent? n a :=
  hs.not_under_area hn.ne_split

theorem Sound.insertChild_top (hs : l.Sound E) {p c : NodeId} {i : Nat} {w : Float32}
    {s' : Store} (h : l.store.insertChild p i c w = .ok s') (hc : c ∈ E) (hp : p ∈ l.tops ++ E)
    (hne : c ≠ p) (hsplit : l.store.form? p = some .split) :
    ({ l with store := s' } : Layout).Sound (E.erase c) := by
  refine hs.insertChild h hc (hs.not_under_top hp hne) (fun hf => ?_)
    fun _ _ _ => ⟨hsplit, fun x hx => absurd hx (hs.not_above_top hp x)⟩
  rw [hsplit] at hf
  cases hf

theorem Sound.pushChild_top (hs : l.Sound E) {p c : NodeId} {s' : Store}
    (h : l.store.pushChild p c = .ok s') (hc : c ∈ E) (hp : p ∈ l.tops ++ E) (hne : c ≠ p)
    (hsplit : l.store.form? p = some .split) :
    ({ l with store := s' } : Layout).Sound (E.erase c) := by
  obtain ⟨pn, -, hi⟩ := Store.pushChild_eq_ok h
  exact hs.insertChild_top hi hc hp hne hsplit

theorem Sound.top_ne_extra (hs : l.Sound E) {x y : NodeId} (hx : x ∈ l.tops) (hy : y ∈ E) :
    x ≠ y :=
  (List.nodup_append.mp hs.tops_nodup).2.2 x hx y hy

/-- Wrapping `anchor` in a new split that takes its slot and holds it and `moving`, in
either order, takes `moving` off the extra nodes. The new split lies where `anchor` lay, so
it may hold the editor area; `anchor` was not below `moving`, so no cycle arises. -/
theorem Sound.wrap (hs : l.Sound E) {ident : String} {o : Orientation}
    {parent anchor moving x₁ x₂ : NodeId} {w₁ w₂ : Float32} {s₂ s₃ s₄ : Store} (hm : moving ∈ E)
    (hmov : l.store.Movable moving) (hanc : ¬ Under l.store.parent? moving anchor)
    (hpar : l.store.parent? anchor = some parent) (hpf : l.store.form? parent ≠ some .folder)
    (h₂ : (l.store.alloc ident (.emptySplit o)).2.replaceChild parent anchor l.store.nextId =
      .ok s₂)
    (h₃ : s₂.insertChild l.store.nextId 0 x₁ w₁ = .ok s₃)
    (h₄ : s₃.insertChild l.store.nextId 1 x₂ w₂ = .ok s₄)
    (hx : (x₁ = moving ∧ x₂ = anchor) ∨ (x₁ = anchor ∧ x₂ = moving)) :
    ({ l with store := s₄ } : Layout).Sound (E.erase moving) := by
  have hf := hs.forest
  have hac : l.store.contains anchor = true := Store.contains_of_parent? hpar
  have hpc : l.store.contains parent = true := hf.contains_of_parent hpar
  have hmc : l.store.contains moving = true := (hs.top_of_mem (hs.extra_mem hm)).1
  have hma : moving ≠ anchor := fun h => hanc (.inl h)
  have hs₁ : ({ l with store := (l.store.alloc ident (.emptySplit o)).2 } : Layout).Sound
      (l.store.nextId :: E) := hs.alloc _ _ rfl rfl
  have hf₁ := hs₁.forest
  have hsplit₁ : (l.store.alloc ident (.emptySplit o)).2.form? l.store.nextId = some .split := by
    rw [Store.form?_alloc, if_pos rfl]
    rfl
  have hpar₁ : (l.store.alloc ident (.emptySplit o)).2.parent? anchor = some parent := by
    rw [Store.parent?_alloc, if_neg (Store.ne_nextId_of_contains hac)]
    exact hpar
  have hs₂ := hs₁.replaceChild h₂ List.mem_cons_self (hf.not_under_alloc hpc)
    (fun h => absurd ((Store.form?_alloc_of_contains hpc _ _).symm.trans h) hpf)
    (fun _ => .inr hsplit₁)
    (fun a ha hu => absurd hu (hf.not_under_alloc
      (Store.IsContainer.contains (.inr (hs.area a ha).1))))
  rw [List.erase_cons_head] at hs₂
  have hsplit₂ : s₂.form? l.store.nextId = some .split := by
    rw [Store.form?_replaceChild h₂, hsplit₁]
  have hform₂ : ∀ x, l.store.contains x = true → s₂.form? x = l.store.form? x := fun x hx => by
    rw [Store.form?_replaceChild h₂, Store.form?_alloc_of_contains hx]
  -- above the new split lie the container of `anchor` and what is above it
  have hup : ∀ y, Above s₂.parent? y l.store.nextId →
      Under (l.store.alloc ident (.emptySplit o)).2.parent? y parent := fun y hy => by
    rcases Store.above_of_replaceChild h₂ hy with hy | ⟨-, hy⟩
    · exact absurd hy (hs₁.not_above_top (hs₁.extra_mem List.mem_cons_self) y)
    · exact hy
  -- below `anchor` lie the nodes that lay there
  have hbelow : ∀ n, Above s₂.parent? anchor n →
      Above (l.store.alloc ident (.emptySplit o)).2.parent? anchor n := fun n hn => by
    rcases Store.above_of_replaceChild h₂ hn with hn | ⟨-, hn⟩
    · exact hn
    · exact absurd hn (hf₁.not_under_of_parent hpar₁)
  have hmov₂ : ¬ Under s₂.parent? moving l.store.nextId := by
    rintro (h | h)
    · exact Store.ne_nextId_of_contains hmc h
    · exact hanc (under_of_cut (Store.cut_alloc _ _) ((hup moving h).trans (.inr (.parent hpar₁))))
  have hanc₂ : ¬ Under s₂.parent? anchor l.store.nextId := by
    rintro (h | h)
    · exact Store.ne_nextId_of_contains hac h
    · exact hf₁.not_under_of_parent hpar₁ (hup anchor h)
  -- a split holding the editor area below `anchor` has only splits above it
  have harea₂ : ∀ a, l.editorArea = some a → Under s₂.parent? anchor a →
      ∀ y, Above s₂.parent? y l.store.nextId → s₂.form? y = some .split := by
    intro a ha hu y hy
    have hya : Above (l.store.alloc ident (.emptySplit o)).2.parent? y a := by
      have hy₁ := (hup y hy).of_parent hpar₁
      rcases hu with rfl | hu
      · exact hy₁
      · exact hy₁.trans (hbelow a hu)
    rw [Store.form?_replaceChild h₂]
    exact (hs₁.area a ha).2 y hya
  have hmov₂' : s₂.Movable moving := (Store.Movable.congr (hform₂ moving hmc)).mpr hmov
  have hleaf₂ : s₂.form? l.store.nextId = some .folder → False := fun h => by
    rw [hsplit₂] at h
    cases h
  rcases hx with ⟨rfl, rfl⟩ | ⟨rfl, rfl⟩
  · -- `moving` first, then `anchor`
    have hs₃ := hs₂.insertChild h₃ (List.mem_cons_of_mem _ hm) hmov₂ (fun h => (hleaf₂ h).elim)
      (fun a ha hu => absurd hu (hs₂.movable_off_area hmov₂' a ha))
    have hlink : ∀ x, x ≠ x₁ → s₃.parent? x = s₂.parent? x := fun x hx => by
      rw [Store.parent?_insertChild h₃, if_neg hx]
    have hx₁ : s₃.parent? x₁ = some l.store.nextId := by rw [Store.parent?_insertChild h₃, if_pos rfl]
    rw [List.erase_cons_tail (by simpa using hma.symm)] at hs₃
    have hs₄ := hs₃.insertChild h₄ List.mem_cons_self
      (by
        rintro (h | h)
        · exact Store.ne_nextId_of_contains hac h
        · rcases above_of_link hlink hx₁ h with h | ⟨h, -⟩
          · exact hanc₂ (.inr h)
          · exact hmov₂ h)
      (fun h => by
        rw [Store.form?_insertChild h₃] at h
        exact (hleaf₂ h).elim)
      (fun a ha hu => by
        have hu₂ : Under s₂.parent? x₂ a := by
          rcases hu with rfl | hu
          · exact .inl rfl
          · rcases above_of_link hlink hx₁ hu with hu | ⟨-, hu⟩
            · exact .inr hu
            · exact absurd hu hanc₂
        refine ⟨by rw [Store.form?_insertChild h₃, hsplit₂], fun y hy => ?_⟩
        rw [Store.form?_insertChild h₃]
        rcases above_of_link hlink hx₁ hy with hy | ⟨h, -⟩
        · exact harea₂ a ha hu₂ y hy
        · exact absurd h hmov₂)
    rw [List.erase_cons_head] at hs₄
    exact hs₄
  · -- `anchor` first, then `moving`
    have hs₃ := hs₂.insertChild h₃ List.mem_cons_self hanc₂ (fun h => (hleaf₂ h).elim)
      (fun a ha hu => ⟨hsplit₂, harea₂ a ha hu⟩)
    rw [List.erase_cons_head] at hs₃
    have hlink : ∀ x, x ≠ x₁ → s₃.parent? x = s₂.parent? x := fun x hx => by
      rw [Store.parent?_insertChild h₃, if_neg hx]
    have hx₁ : s₃.parent? x₁ = some l.store.nextId := by rw [Store.parent?_insertChild h₃, if_pos rfl]
    have hmov₃ : s₃.Movable x₂ := (Store.Movable.congr (Store.form?_insertChild h₃ x₂)).mpr hmov₂'
    exact hs₃.insertChild h₄ hm
      (by
        rintro (h | h)
        · exact Store.ne_nextId_of_contains hmc h
        · rcases above_of_link hlink hx₁ h with h | ⟨h, -⟩
          · exact hmov₂ (.inr h)
          · exact hanc₂ h)
      (fun h => by
        rw [Store.form?_insertChild h₃] at h
        exact (hleaf₂ h).elim)
      (fun a ha hu => absurd hu (hs₃.movable_off_area hmov₃ a ha))

/-- A node that a moved node can still be put against once it is taken out: the main root,
the editor area, or a node with a container that is above the moved node only as the folder
it is a tab of, when that folder holds other tabs too. -/
def Anchorable (l : Layout) (source anchor : NodeId) : Prop :=
  anchor = l.root ∨ l.editorArea = some anchor ∨
    ((∃ q, l.store.parent? anchor = some q) ∧ (Above l.store.parent? anchor source →
      l.store.parent? source = some anchor ∧ l.store.form? anchor = some .folder ∧
        l.store.held anchor ≠ [source]))

/-- A pane or a folder with a container is anchorable when, if it is above the moved node, it
shows more panes than the moved node. -/
theorem Sound.anchorable (hs : l.Sound E) {source anchor : NodeId} (hmov : l.store.Movable anchor)
    (hq : ∃ q, l.store.parent? anchor = some q)
    (hcount : Above l.store.parent? anchor source →
      l.store.countPanes source < l.store.countPanes anchor) :
    l.Anchorable source anchor := by
  have hf := hs.forest
  refine .inr (.inr ⟨hq, fun habove => ?_⟩)
  -- a pane holds nothing and a folder holds leaves: `source` is a tab of `anchor`
  obtain ⟨c, hc, hcs⟩ := habove.exists_child_under
  have hcleaf := hs.movable_leaves hmov c (hf.mem_held_iff.mpr hc)
  rw [hf.under_leaf_iff hcleaf] at hcs
  rw [hcs] at hc hcleaf
  have hfold : l.store.form? anchor = some .folder := by
    rcases hmov with h | ⟨p, h⟩
    · exact h
    · have hmem := hf.mem_held_iff.mpr hc
      rw [Store.held_eq_nil_of_isLeaf ⟨_, h, rfl⟩] at hmem
      cases hmem
  refine ⟨hc, hfold, fun hheld => ?_⟩
  have hsame := Store.countPanes_single hfold hheld hcleaf
  have hlt := hcount habove
  omega

end Layout

namespace LayoutM

open Layout

variable {l : Layout} {E : List NodeId}

/-- Checking that a node may move changes nothing; it passes on a pane or a folder of a shown
window that is neither the root nor the editor area. -/
theorem ends_ensureMovable (n : NodeId) :
    Ends (ensureMovable n) l (fun _ l' => l' = l ∧ l.isFixed n = false ∧ l.store.Movable n ∧
      (l.windowOf n).isSome) fun _ l' => l' = l := by
  rw [ensureMovable, ends_bind, ends_get]
  dsimp only
  split
  · rw [ends_bind, ends_throw]
  · next hfix =>
    rw [ends_bind, ends_node]
    split
    · next nd hnd =>
      split
      · rfl
      · next hk =>
        split
        · rfl
        · next hw =>
          exact ⟨rfl, by simpa using hfix, Store.movable_of_get? hnd
            (by cases hp : nd.kind.isPane <;> simp_all), by cases h : l.windowOf n <;> simp_all⟩
    · rfl

/-- Moving the tabs of a pane or a folder to the end of another folder never fails. The two
nodes keep their forms; `src` ends empty, `dst` holds its old tabs and then those of `src`,
and shows the tab `src` showed. -/
theorem ends_transferTabs (hs : l.Sound E) {src dst : NodeId} (hsrc : l.store.Movable src)
    (hdst : l.store.form? dst = some .folder) (hne : src ≠ dst) :
    Ends (transferTabs src dst) l (fun _ l' => ∃ s', l' = { l with store := s' } ∧ l'.Sound E ∧
      (∀ x, s'.form? x = l.store.form? x) ∧
      (∀ x, s'.held x = if x = src then [] else
        if x = dst then l.store.held dst ++ l.store.held src else l.store.held x) ∧
      (∀ x, x ≠ src → x ≠ dst → s'.kindOf x = l.store.kindOf x) ∧
      (∀ x, x ∉ l.store.held src → s'.parent? x = l.store.parent? x) ∧
      ∀ t, l.store.selectedTab src = some t → s'.selectedTab dst = some t)
      fun _ _ => False := by
  obtain ⟨nd, hnd⟩ := (Store.contains_iff _ _).mp hsrc.contains
  rw [transferTabs, ends_bind, ends_node_of hnd, ends_bind, ends_store, ends_bind]
  -- the loop takes the tabs of `src` from the front: `rest` is what `src` still holds
  refine (ends_forIn _ _ _ (fun rest _ l' => ∃ s', l' = { l with store := s' } ∧ l'.Sound E ∧
      (∀ x, s'.form? x = l.store.form? x) ∧
      (∀ x, x ≠ src → x ≠ dst → s'.kindOf x = l.store.kindOf x) ∧
      (∀ x, x ∉ l.store.held src → s'.parent? x = l.store.parent? x) ∧
      ∃ done, done ++ rest = l.store.held src ∧
      ∀ x, s'.held x = if x = src then rest else
        if x = dst then l.store.held dst ++ done else l.store.held x)
    (fun child rest _ l' hinv => ?_)
    ⟨l.store, rfl, hs, fun _ => rfl, fun _ _ _ => rfl, fun _ _ => rfl, [], ?_, fun x => ?_⟩).mono
    (fun _ l' hinv => ?_) fun _ _ h => h
  · -- one tab goes over
    obtain ⟨s', rfl, hs', hform, hkind, hlink, done, hdone, hheld⟩ := hinv
    have hmem : child ∈ s'.held src := by
      rw [hheld, if_pos rfl]
      exact List.mem_cons_self
    have hsrc' : s'.Movable src := (Store.Movable.congr (hform src)).mpr hsrc
    have hleaf : s'.IsLeaf child := (Store.IsLeaf.congr (hform child)).mpr
      (hs.movable_leaves hsrc child (by rw [← hdone]; simp))
    have hpar : s'.parent? child = some src := hs'.forest.mem_held_iff.mp hmem
    have hcont : s'.IsContainer src := hs'.holder_isContainer hpar hsrc'.ne_collapsed
    obtain ⟨w, s₁, h₁⟩ := Store.removeChild_ok hcont hmem (Store.contains_of_parent? hpar)
    have hs₁ := hs'.removeChild h₁
    have hdst₁ : s₁.form? dst = some .folder := by rw [Store.form?_removeChild h₁, hform, hdst]
    have hleaf₁ : s₁.IsLeaf child := (Store.IsLeaf.congr (Store.form?_removeChild h₁ child)).mpr hleaf
    obtain ⟨s₂, h₂⟩ := Store.pushChild_ok (.inl hdst₁)
      ((Store.contains_removeChild h₁ child).trans (Store.contains_of_parent? hpar))
    -- a tab is a leaf: it is not the folder and holds no editor area
    have hs₂ := hs₁.pushChild h₂ List.mem_cons_self
      (fun hu => by
        rw [hs₁.forest.under_leaf_iff hleaf₁] at hu
        rw [← hu] at hdst₁
        exact hleaf₁.not_isContainer (.inl hdst₁))
      (fun _ => hleaf₁)
      (fun a ha hu => by
        rw [hs₁.forest.under_leaf_iff hleaf₁] at hu
        have hsplit := (hs₁.area a ha).1
        rw [← hu] at hsplit
        exact absurd (hleaf₁.not_isContainer (.inr hsplit)) id)
    rw [List.erase_cons_head] at hs₂
    rw [ends_bind, ends_editWith_of_ok h₁, ends_bind, ends_edit_of_ok h₂, ends_pure]
    refine ⟨_, rfl, s₂, rfl, hs₂, fun x => ?_, fun x hx hxd => ?_, fun x hx => ?_, done ++ [child],
      by simp [← hdone], fun x => ?_⟩
    · rw [Store.form?_pushChild h₂, Store.form?_removeChild h₁, hform]
    · rw [Store.kindOf_pushChild h₂ (Ne.symm hxd), Store.kindOf_removeChild h₁ (Ne.symm hx),
        hkind x hx hxd]
    · have hxc : x ≠ child := fun h => hx (by rw [h, ← hdone]; simp)
      rw [Store.parent?_pushChild h₂, if_neg hxc, Store.parent?_removeChild h₁, if_neg hxc,
        hlink x hx]
    · rw [Store.held_pushChild h₂, Store.held_removeChild h₁, Store.held_removeChild h₁]
      by_cases hx : x = src
      · subst hx
        simp [hheld, hne]
      · by_cases hxd : x = dst
        · subst hxd
          simp [hheld, hx]
        · simp [hheld, hx, hxd]
  · rw [List.nil_append, hsrc.held_eq_children]
  · by_cases hx : x = src
    · rw [if_pos hx, hx, hsrc.held_eq_children]
    · rw [if_neg hx]
      by_cases hxd : x = dst
      · rw [if_pos hxd, hxd, List.append_nil]
      · rw [if_neg hxd]
  · -- the selection moves with its tab
    obtain ⟨s', rfl, hs', hform, hkind, hlink, done, hdone, hheld⟩ := hinv
    rw [List.append_nil] at hdone
    have hview : ∀ x, s'.held x = if x = src then [] else
        if x = dst then l.store.held dst ++ l.store.held src else l.store.held x := by
      rw [← hdone]
      exact hheld
    -- the tab `src` shows is the one the request reads off its kind
    have hsel := Store.selectedTab_of_get? hnd
    split
    · next sel hsome =>
      replace hsome := hsel.trans hsome
      rw [ends_bind, ends_select, ends_pure]
      have hsame := Store.sameShape_select s' sel
      -- that tab is now a tab of `dst`
      have hmem : sel ∈ s'.held dst := by
        rw [hview, if_neg (Ne.symm hne), if_pos rfl]
        exact List.mem_append_right _ (Store.selectedTab_mem_held hsome)
      have hpar := hs'.forest.mem_held_iff.mp hmem
      refine ⟨_, rfl, hs'.sameShape hsame (hs'.aligned.select sel), fun x => (hsame x).2.2.trans (hform x),
        fun x => (hsame x).2.1.trans (hview x), fun x hx hxd => ?_,
        fun x hx => (hsame x).1.trans (hlink x hx), fun t ht => ?_⟩
      · rw [Store.kindOf_select hpar (Ne.symm hxd), hkind x hx hxd]
      · obtain rfl : sel = t := Option.some.inj (hsome.symm.trans ht)
        obtain ⟨cs, sel', hk, hcs⟩ := Store.exists_kindOf_folder ((hform dst).trans hdst)
        rw [hcs] at hmem
        exact Store.selectedTab_select hpar hk hmem
    · next hnone =>
      exact ⟨s', rfl, hs', hform, hview, hkind, hlink,
        fun t ht => (hnone t (hsel.symm.trans ht)).elim⟩


/-- Taking a node out to move it: a node with a container leaves it, tidying behind; a
detached window's folder hands its tabs to a new folder, which moves instead. It is refused
only before anything changes. The moving node is a pane or a folder without a container, and
a node that was not below `source` is not below it, nor a new tab of a folder. The frame
narrows; a node that was not `source` or above it stays in the table, and so does the folder
`source` was a tab of when it holds another tab. -/
theorem ends_lift (hs : l.Sound E) {source : NodeId} (hsrc : l.store.Movable source) :
    Ends (lift source) l (fun moving l' => l'.Sound (moving :: E) ∧ l'.store.Movable moving ∧
      (∀ x, l.store.contains x = true → ¬ Under l.store.parent? source x →
        ¬ Under l'.store.parent? moving x ∧ ∀ q, l'.store.parent? x = some q →
          l'.store.form? q = some .folder → l.store.parent? x = some q ∧
            l.store.form? q = some .folder) ∧
      l.Narrows l' ∧
      (∀ x, l.store.contains x = true → ¬ Under l.store.parent? x source →
        l'.store.contains x = true) ∧
      ∀ q, l.store.parent? source = some q → l.store.form? q = some .folder →
        l.store.held q ≠ [source] → l'.store.contains q = true)
      fun _ l' => l' = l := by
  have hf := hs.forest
  rw [lift, ends_bind, ends_store]
  split
  · -- `source` leaves its container; what was not below it stays so
    rw [ends_bind]
    refine ((ends_takeNode hs source).and (ends_takeNode_frame hs source)).mono
      (fun _ l' h => ?_) fun _ _ h => h.1
    obtain ⟨⟨hs', p, hp, hsp⟩, hnar, hfold⟩ := h
    have hoff : ¬ Under l.store.parent? source p := hf.not_under_of_parent hp
    obtain ⟨-, hform, -⟩ := hsp.kept source hsrc.contains hoff
    -- a node that is not above `source` is not `p` or above it
    have hkept : ∀ x, l.store.contains x = true → ¬ Under l.store.parent? x source →
        l'.store.contains x = true := fun x hx hxs =>
      (hsp.kept x hx fun hu => hxs (.inr (hu.of_parent hp))).1
    refine ⟨hs', (Store.Movable.congr hform).mpr hsrc, fun x _ hux =>
      ⟨?_, fun q hq hqf => hsp.tabs x q hq hqf⟩, hnar, hkept, hfold⟩
    rintro (rfl | ha)
    · exact hux (.refl _)
    · exact hux (.inr (hsp.above hf hs'.forest hsrc.contains
        (fun m hm hmp => hoff (hm.trans hmp)) ha))
  · next hnone =>
    have hpar : l.store.parent? source = none := Option.not_isSome_iff_eq_none.mp hnone
    obtain ⟨ident, hid⟩ := Store.allocContainer_eq l.store .emptyFolder
    have hne : source ≠ l.store.nextId := Store.ne_nextId_of_contains hsrc.contains
    have hs₁ : ({ l with store := (l.store.alloc ident .emptyFolder).2 } : Layout).Sound
        (l.store.nextId :: E) := hs.alloc _ _ rfl rfl
    have hform₁ : ∀ {x}, l.store.contains x = true →
        (l.store.alloc ident .emptyFolder).2.form? x = l.store.form? x :=
      fun hx => Store.form?_alloc_of_contains hx _ _
    have hfold₁ : (l.store.alloc ident .emptyFolder).2.form? l.store.nextId = some .folder := by
      rw [Store.form?_alloc, if_pos rfl]
      rfl
    rw [ends_bind, ends_allocContainer, hid, ends_bind]
    refine (ends_transferTabs hs₁ ((Store.Movable.congr (hform₁ hsrc.contains)).mpr hsrc) hfold₁
      hne).mono (fun _ l₂ h₂ => ?_) fun _ _ h => h.elim
    obtain ⟨s₂, rfl, hs₂, hform₂, hheld₂, -⟩ := h₂
    have hf₂ := hs₂.forest
    -- the new folder holds the old tabs of `source`, every other node what it held
    have hmem₂ : ∀ x q, x ∈ s₂.held q → (q = l.store.nextId ∧ x ∈ l.store.held source) ∨
        (q ≠ l.store.nextId ∧ x ∈ l.store.held q) := by
      intro x q hx
      rw [hheld₂] at hx
      by_cases hqs : q = source
      · rw [if_pos hqs] at hx
        cases hx
      · rw [if_neg hqs] at hx
        by_cases hqf : q = l.store.nextId
        · rw [if_pos hqf, Store.held_alloc, if_pos rfl,
            Store.held_alloc_of_contains hsrc.contains] at hx
          exact .inl ⟨hqf, by simpa [NodeKind.emptyFolder, Store.walkChildren] using hx⟩
        · rw [if_neg hqf, Store.held_alloc, if_neg hqf] at hx
          exact .inr ⟨hqf, hx⟩
    have hsrc₂ : s₂.parent? source = none := by
      cases hq : s₂.parent? source with
      | none => rfl
      | some q =>
        rcases hmem₂ source q (hf₂.mem_held_iff.mpr hq) with ⟨-, h⟩ | ⟨-, h⟩ <;>
          rw [hf.mem_held_iff.mp h] at hpar <;> cases hpar
    have hfc : s₂.contains l.store.nextId = true :=
      (hs₂.top_of_mem (hs₂.extra_mem List.mem_cons_self)).1
    have hfs : ¬ Under s₂.parent? l.store.nextId source := by
      rintro (h | h)
      · exact hne h.symm
      · obtain ⟨m, hm⟩ := h.exists_parent
        rw [hsrc₂] at hm
        cases hm
    rw [ends_bind]
    refine ((ends_tidy hs₂ source).and (narrows_tidy source)).mono (fun _ l₃ h₃ => ?_)
      fun _ _ h => h.1.elim
    obtain ⟨⟨hs₃, hsp⟩, hnar⟩ := h₃
    obtain ⟨-, hformf, -⟩ := hsp.kept _ hfc hfs
    -- `source` has no container: what is not `source` is off the path of the tidying
    have hkept : ∀ x, l.store.contains x = true → ¬ Under l.store.parent? x source →
        l₃.store.contains x = true := by
      intro x hx hxs
      have hx₂ : s₂.contains x = true := by
        rw [Store.contains_iff_form?, hform₂, hform₁ hx, ← Store.contains_iff_form?]
        exact hx
      refine (hsp.kept x hx₂ ?_).1
      rintro (h | h)
      · exact hxs (.inl h)
      · obtain ⟨m, hm⟩ := h.exists_parent
        rw [hsrc₂] at hm
        cases hm
    refine ⟨hs₃, .inl (hformf.trans ((hform₂ _).trans hfold₁)), fun x hx hux => ?_,
      ⟨hnar.root, hnar.editorArea, hnar.frames⟩, hkept, fun q hq => by rw [hpar] at hq; cases hq⟩
    have hxs : x ∉ l.store.held source := fun h => hux (.inr (.parent (hf.mem_held_iff.mp h)))
    refine ⟨?_, fun q hq hqf => ?_⟩
    · rintro (h | h)
      · exact Store.ne_nextId_of_contains hx h.symm
      -- below the new folder are its tabs, the old tabs of `source`, and nothing else
      obtain ⟨c, hc, hcx⟩ := (hsp.above hf₂ hs₃.forest hfc (fun m hm hms => hfs (hm.trans hms))
        h).exists_child_under
      rcases hmem₂ c _ (hf₂.mem_held_iff.mpr hc) with ⟨-, hcs⟩ | ⟨hne', -⟩
      · have hcc : l.store.contains c = true := Store.contains_of_parent? (hf.mem_held_iff.mp hcs)
        have hleaf : s₂.IsLeaf c := (Store.IsLeaf.congr ((hform₂ c).trans (hform₁ hcc))).mpr
          (hs.movable_leaves hsrc c hcs)
        rw [hf₂.under_leaf_iff hleaf] at hcx
        exact hxs (hcx ▸ hcs)
      · exact hne' rfl
    · obtain ⟨hq₂, hqf₂⟩ := hsp.tabs x q hq hqf
      rcases hmem₂ x q (hf₂.mem_held_iff.mpr hq₂) with ⟨-, hxs'⟩ | ⟨hqn, hxq⟩
      · exact absurd hxs' hxs
      · refine ⟨hf.mem_held_iff.mp hxq, ?_⟩
        rw [← hqf₂, hform₂, Store.form?_alloc, if_neg hqn]


theorem exists_eq_map_fst_zip_append {α β : Type} (cs : List α) (ws : List β) :
    ∃ ys, cs = (cs.zip ws).map Prod.fst ++ ys := by
  refine ⟨cs.drop (min cs.length ws.length), ?_⟩
  rw [List.zip_eq_zip_take_min, List.map_fst_zip (by simp only [List.length_take]; omega),
    List.take_append_drop]

theorem ends_insertTop (hs : l.Sound E) {p c : NodeId} (hc : c ∈ E) (hp : p ∈ l.tops ++ E)
    (hne : c ≠ p) (hsplit : l.store.form? p = some .split) (i : Nat) (w : Float32) :
    Ends (edit fun s => s.insertChild p i c w) l (fun _ l' => l'.Sound (E.erase c))
      fun _ _ => False := by
  obtain ⟨s', h⟩ := Store.insertChild_ok i w (.inr hsplit) (hs.top_of_mem (hs.extra_mem hc)).1
  rw [ends_edit_of_ok h]
  exact hs.insertChild_top h hc hp hne hsplit

/-- Inserting an extra pane or folder into a split whose weights were just reset never
fails, when the node does not hold the split. -/
theorem ends_reweighInsert (hs : l.Sound E) {p c : NodeId} {k : NodeKind}
    (hk : ∀ n, l.store.get? p = some n →
      Store.walkChildren true k = Store.walkChildren true n.kind ∧ k.form = n.kind.form)
    (hka : k.aligned = true) (hc : c ∈ E) (hmov : l.store.Movable c) (hcp : ¬ Under l.store.parent? c p)
    (hsplit : l.store.form? p = some .split) (i : Nat) (w : Float32) :
    Ends (edit fun s => s.insertChild p i c w) { l with store := l.store.setKind p k }
      (fun _ l' => l'.Sound (E.erase c)) fun _ _ => False := by
  have hsame := Store.sameShape_setKind hk
  have hs₁ := hs.sameShape hsame (hs.aligned.setKind p hka)
  obtain ⟨s', h⟩ := Store.insertChild_ok i w ((hsame.isContainer_iff p).mpr (.inr hsplit))
    ((hsame.contains_eq c).trans (hs.top_of_mem (hs.extra_mem hc)).1)
  have hpar : (l.store.setKind p k).parent? = l.store.parent? := funext fun x => (hsame x).1
  rw [ends_edit_of_ok h]
  refine hs₁.insertChild h hc (by rw [hpar]; exact hcp) (fun hf => ?_) fun a ha hu =>
    absurd hu (hs₁.movable_off_area ((Store.Movable.congr (hsame c).2.2).mpr hmov) a ha)
  rw [(hsame p).2.2, hsplit] at hf
  cases hf

/-- The last steps of docking against the root keep a layout sound: the root split takes the
side's orientation, which changes no shape, and then takes the extra node `moving`. -/
theorem ends_turnTop (hs : l.Sound E) {moving : NodeId} (hm : moving ∈ E) (hmr : moving ≠ l.root)
    (o : Orientation) (leading : Bool) :
    Ends (do
      let n ← node l.root
      match n.kind with
      | .split _ cs ws => onStore (·.setKind l.root (.split o cs ws))
      | _ => pure ()
      let n ← node l.root
      let w := meanWeight n.kind.weights
      let index := if leading then 0 else n.kind.children.length
      edit (·.insertChild l.root index moving w)) l
      (fun _ l' => l'.Sound (E.erase moving)) fun _ _ => False := by
  obtain ⟨rn, hrn⟩ := (Store.contains_iff _ _).mp (hs.top_of_mem hs.root_mem).1
  -- the root is a split, so it always turns
  obtain ⟨o', cs, ws, hk⟩ : ∃ o' cs ws, rn.kind = .split o' cs ws := by
    have hform := hs.root_split
    rw [Store.form?_of_get? hrn] at hform
    cases h : rn.kind <;> simp_all [NodeKind.form]
  rw [ends_bind, ends_node_of hrn]
  simp only [hk]
  have hsame : Store.SameShape l.store (l.store.setKind l.root (.split o cs ws)) :=
    Store.sameShape_setKind fun n hn => by
      rw [hrn] at hn
      cases hn
      rw [hk]
      exact ⟨rfl, rfl⟩
  have hs₄ := hs.sameShape hsame
    (hs.aligned.setWeights (by rw [Store.kindOf_of_get? hrn, hk]) _ rfl)
  obtain ⟨r₄, hr₄⟩ := (Store.contains_iff _ _).mp (hs₄.top_of_mem hs₄.root_mem).1
  rw [ends_bind, ends_onStore, ends_bind, ends_node_of hr₄]
  exact ends_insertTop hs₄ hm hs₄.root_mem hmr hs₄.root_split _ _

/-- Putting an extra pane or folder against a side of `anchor` ends sound. Against the root,
the root may turn, its old children going into a new split of the old orientation; beside a
node of a split of the side's orientation, the node goes into that split; otherwise `anchor`
is wrapped in a new split. It is refused only when `anchor` is neither the root nor held by a
container, and then nothing changes. -/
theorem ends_insertBeside (hs : l.Sound E) {moving anchor : NodeId} (side : Side) (hm : moving ∈ E)
    (hmov : l.store.Movable moving) (hanc : ¬ Under l.store.parent? moving anchor)
    (htab : ∀ q, l.store.parent? anchor = some q → l.store.form? q ≠ some .folder) :
    Ends (insertBeside moving side anchor) l (fun _ l' => l'.Sound (E.erase moving))
      fun _ l' => l' = l ∧ anchor ≠ l.root ∧ l.store.parent? anchor = none := by
  have hf := hs.forest
  have hmr : moving ≠ l.root := (hs.top_ne_extra List.mem_cons_self hm).symm
  rw [insertBeside, ends_bind, ends_get]
  dsimp only
  split
  · next hroot =>
    obtain rfl : anchor = l.root := beq_iff_eq.mp hroot
    have hrc : l.store.contains l.root = true := (hs.top_of_mem hs.root_mem).1
    obtain ⟨rn, hrn⟩ := (Store.contains_iff _ _).mp hrc
    rw [ends_bind, ends_node_of hrn]
    split
    · -- the root turns: its children go, in order, into a new split of the old orientation
      obtain ⟨ident, hid⟩ := Store.allocContainer_eq l.store
        (.emptySplit (rn.kind.orientation?.getD side.orientation))
      have hs₁ : ({ l with store := (l.store.alloc ident
          (.emptySplit (rn.kind.orientation?.getD side.orientation))).2 } : Layout).Sound
          (l.store.nextId :: E) := hs.alloc _ _ rfl rfl
      have hinner₁ : (l.store.alloc ident (.emptySplit
          (rn.kind.orientation?.getD side.orientation))).2.form? l.store.nextId = some .split := by
        rw [Store.form?_alloc, if_pos rfl]
        rfl
      have hrn' : l.store.nextId ≠ l.root := Ne.symm (Store.ne_nextId_of_contains hrc)
      rw [ends_bind, ends_allocContainer, hid, ends_bind, ends_store, ends_bind]
      refine (ends_forIn _ _ _ (fun rest _ l' => ∃ s', l' = { l with store := s' } ∧
          l'.Sound (l.store.nextId :: E) ∧ s'.form? l.store.nextId = some .split ∧
          ∃ ys, s'.held l.root = rest.map Prod.fst ++ ys)
        (fun x rest _ l' hinv => ?_) ⟨_, rfl, hs₁, hinner₁, ?_⟩).mono
        (fun _ l' hinv => ?_) fun _ _ h => h
      · -- one child goes over to the inner split
        obtain ⟨s', rfl, hs', hinner, ys, hheld⟩ := hinv
        have hmem : x.1 ∈ s'.held l.root := by
          rw [hheld]
          exact List.mem_cons_self
        have hpar : s'.parent? x.1 = some l.root := hs'.forest.mem_held_iff.mp hmem
        obtain ⟨w, s₁, h₁⟩ := Store.removeChild_ok (.inr hs'.root_split) hmem
          (Store.contains_of_parent? hpar)
        have hs₁ := hs'.removeChild h₁
        have hinner₁ : s₁.form? l.store.nextId = some .split := by
          rw [Store.form?_removeChild h₁, hinner]
        obtain ⟨s₂, h₂⟩ := Store.insertChild_ok (s₁.children l.store.nextId).length x.2
          (.inr hinner₁) ((Store.contains_removeChild h₁ _).trans (Store.contains_of_parent? hpar))
        have hne : x.1 ≠ l.store.nextId := fun h =>
          (List.nodup_cons.mp hs₁.extra_nodup).1 (h ▸ List.mem_cons_self)
        have hs₂ := hs₁.insertChild_top h₂ List.mem_cons_self
          (hs₁.extra_mem (List.mem_cons_of_mem _ List.mem_cons_self)) hne hinner₁
        rw [List.erase_cons_head] at hs₂
        rw [ends_bind, ends_editWith_of_ok h₁, ends_bind, ends_edit_of_ok h₂, ends_pure]
        refine ⟨_, rfl, s₂, rfl, hs₂, by rw [Store.form?_insertChild h₂, hinner₁], ys, ?_⟩
        rw [Store.held_insertChild h₂, if_neg (Ne.symm hrn'), Store.held_removeChild h₁, if_pos rfl,
          hheld, List.map_cons, List.cons_append, List.erase_cons_head]
      · -- the zipped children are a prefix of the root's children
        have hcont₁ := Store.IsContainer.alloc (.inr hs.root_split) ident
          (.emptySplit (rn.kind.orientation?.getD side.orientation))
        rw [Store.held_eq_children hcont₁]
        exact exists_eq_map_fst_zip_append _ _
      · -- the inner split goes into the emptied root, then the root takes the side's orientation
        obtain ⟨s', rfl, hs', hinner, -⟩ := hinv
        obtain ⟨s₃, h₃⟩ := Store.pushChild_ok (.inr hs'.root_split)
          (hs'.top_of_mem (hs'.extra_mem List.mem_cons_self)).1
        have hs₃ := hs'.pushChild_top h₃ List.mem_cons_self hs'.root_mem hrn' hs'.root_split
        rw [List.erase_cons_head] at hs₃
        rw [ends_bind, ends_edit_of_ok h₃]
        exact (ends_turnTop hs₃ hm hmr _ _).mono (fun _ _ h => h) fun _ _ h => h.elim
    · -- the root keeps its children and takes the side's orientation
      exact (ends_turnTop hs hm hmr _ _).mono (fun _ _ h => h) fun _ _ h => h.elim
  · next hroot =>
    have hroot : anchor ≠ l.root := fun h => hroot (beq_iff_eq.mpr h)
    split
    · next parent hpar =>
      have hheld : anchor ∈ l.store.held parent := hf.mem_held_iff.mpr hpar
      split
      · next index hidx =>
        obtain ⟨pn, hpn⟩ := (Store.contains_iff _ _).mp (hf.contains_of_parent hpar)
        have hac : l.store.contains anchor = true := Store.contains_of_parent? hpar
        have hmc : l.store.contains moving = true := (hs.top_of_mem (hs.extra_mem hm)).1
        have hcp : ¬ Under l.store.parent? moving parent := fun hu =>
          hanc (hu.trans (.inr (.parent hpar)))
        rw [ends_bind, ends_pure, ends_bind, ends_node_of hpn]
        split
        · -- a split of the side's orientation: `moving` goes next to `anchor`
          next hor =>
          have hsplit : l.store.form? parent = some .split := by
            rw [Store.form?_of_get? hpn]
            cases hk : pn.kind <;> simp_all [NodeKind.orientation?, NodeKind.form]
          rw [ends_bind, ends_onStore]
          refine (ends_reweighInsert hs (fun n hn => ?_) ?_ hm hmov hcp hsplit _ _).mono
            (fun _ _ h => h) fun _ _ h => h.elim
          · rw [hpn] at hn
            cases hn
            split
            · next o' cs ws hk =>
              split <;> simp [hk, Store.walkChildren, NodeKind.form]
            · exact ⟨rfl, rfl⟩
          · -- halving one weight keeps as many weights
            have hpa := hs.aligned parent pn.kind (Store.kindOf_of_get? hpn)
            split
            · next o' cs ws hk =>
              rw [hk] at hpa
              split <;> simp_all [NodeKind.aligned, List.length_set]
            · exact hpa
        · -- otherwise `anchor` is wrapped in a new split of the side's orientation
          have hpf : l.store.form? parent ≠ some .folder := htab parent hpar
          obtain ⟨ident, hid⟩ := Store.allocContainer_eq l.store (.emptySplit side.orientation)
          rw [ends_bind, ends_allocContainer, hid, ends_bind, ends_onError]
          -- `anchor` is held by its container, which the new split then holds instead
          have hheld₁ : anchor ∈ (l.store.alloc ident (.emptySplit side.orientation)).2.held parent := by
            rw [Store.held_alloc_of_contains (hf.contains_of_parent hpar)]
            exact hheld
          obtain ⟨s₂, h₂⟩ := Store.replaceChild_ok_of_held hheld₁
            ((Store.contains_alloc _ _ _ _).mpr (.inr hac))
            ((Store.contains_alloc _ _ _ _).mpr (.inl rfl))
          have hsplit₂ : s₂.form? l.store.nextId = some .split := by
            rw [Store.form?_replaceChild h₂, Store.form?_alloc, if_pos rfl]
            rfl
          have hc₂ : ∀ x, l.store.contains x = true → s₂.contains x = true := fun x hx => by
            rw [Store.contains_replaceChild h₂]
            exact (Store.contains_alloc _ _ _ _).mpr (.inr hx)
          rw [ends_edit_of_ok h₂, ends_bind]
          cases hlead : side.leading
          · rw [if_neg Bool.false_ne_true]
            obtain ⟨s₃, h₃⟩ := Store.insertChild_ok 0 defaultWeight (.inr hsplit₂) (hc₂ anchor hac)
            obtain ⟨s₄, h₄⟩ := Store.insertChild_ok 1 defaultWeight
              (.inr (by rw [Store.form?_insertChild h₃]; exact hsplit₂))
              (by rw [Store.contains_insertChild h₃]; exact hc₂ moving hmc)
            rw [ends_edit_of_ok h₃, ends_edit_of_ok h₄]
            exact hs.wrap hm hmov hanc hpar hpf h₂ h₃ h₄ (.inr ⟨rfl, rfl⟩)
          · rw [if_pos rfl]
            obtain ⟨s₃, h₃⟩ := Store.insertChild_ok 0 defaultWeight (.inr hsplit₂) (hc₂ moving hmc)
            obtain ⟨s₄, h₄⟩ := Store.insertChild_ok 1 defaultWeight
              (.inr (by rw [Store.form?_insertChild h₃]; exact hsplit₂))
              (by rw [Store.contains_insertChild h₃]; exact hc₂ anchor hac)
            rw [ends_edit_of_ok h₃, ends_edit_of_ok h₄]
            exact hs.wrap hm hmov hanc hpar hpf h₂ h₃ h₄ (.inl ⟨rfl, rfl⟩)
      · next e hidx =>
        obtain ⟨i, hi⟩ := Store.childIndex_ok_of_held hheld
        rw [hi] at hidx
        cases hidx
    · next hnone => exact ⟨rfl, hroot, Option.eq_none_iff_forall_ne_some.mpr fun q h => hnone q h⟩

/-- Taking `source` out and putting it against a side of `anchor` ends sound: a refused
insertion puts the moving node at the end of the root split. The checks were made on the
table before `source` was taken out: `anchor` was not below it and was no tab. With no node
held out, an anchorable node is still there to take the moving node, so a refusal comes only
from taking `source` out, which then changed nothing. -/
theorem ends_liftInsert (hs : l.Sound E) {source anchor : NodeId} (side : Side)
    (hsrc : l.store.Movable source) (hac : l.store.contains anchor = true)
    (hanc : ¬ Under l.store.parent? source anchor)
    (htab : ∀ q, l.store.parent? anchor = some q → l.store.form? q ≠ some .folder)
    (hstay : l.Anchorable source anchor) :
    Ends (do
      let moving ← lift source
      onError (insertBeside moving side anchor) fun e => do
        edit (·.pushChild (← get).root moving)
        throw e) l (fun _ l' => l'.Sound E) fun _ l' => l'.Sound E ∧ (E = [] → l' = l) := by
  rw [ends_bind]
  refine (ends_lift hs hsrc).mono (fun moving l₂ h => ?_) fun _ l' h => by
    rw [h]
    exact ⟨hs, fun _ => rfl⟩
  obtain ⟨hs₂, hmov₂, hkeep, hnar, hkept, hfold⟩ := h
  obtain ⟨hanc₂, htab₂⟩ := hkeep anchor hac hanc
  rw [ends_onError]
  refine (ends_insertBeside hs₂ side List.mem_cons_self hmov₂ hanc₂ fun q hq hqf =>
      htab q (htab₂ q hq hqf).1 (htab₂ q hq hqf).2).mono
    (fun _ _ h => by rwa [List.erase_cons_head] at h) fun _ l₃ h => ?_
  obtain ⟨hl₃, hroot, hnone⟩ := h
  rw [hl₃]
  -- refused: the moving node goes to the end of the root split
  obtain ⟨s₄, h₄⟩ := Store.pushChild_ok (.inr hs₂.root_split)
    (hs₂.top_of_mem (hs₂.extra_mem List.mem_cons_self)).1
  rw [ends_bind, ends_get, ends_bind, ends_edit_of_ok h₄, ends_throw]
  have hs₄ := hs₂.pushChild_top h₄ List.mem_cons_self hs₂.root_mem
    (hs₂.top_ne_extra List.mem_cons_self List.mem_cons_self).symm hs₂.root_split
  rw [List.erase_cons_head] at hs₄
  refine ⟨hs₄, fun hE => absurd hnone ?_⟩
  subst hE
  -- the anchor is still in the table
  have hc₂ : l₂.store.contains anchor = true := by
    rcases hstay with h | h | ⟨-, habove⟩
    · exact absurd (h.trans hnar.root.symm) hroot
    · exact Store.IsContainer.contains (.inr (hs₂.area anchor (hnar.editorArea.trans h)).1)
    · by_cases hab : Above l.store.parent? anchor source
      · obtain ⟨hps, hfq, hheld⟩ := habove hab
        exact hfold anchor hps hfq hheld
      · refine hkept anchor hac ?_
        rintro (h | h)
        · exact hanc (.inl h.symm)
        · exact hab h
  -- without a container it would be the root, the moving node or a window's folder, which
  -- it was not before
  intro hp
  rcases List.mem_append.mp ((hs₂.tops_iff anchor).mpr ⟨hc₂, hp⟩) with ht | hm
  · rcases List.mem_cons.mp ht with h | hfr
    · exact hroot h
    have hfr₀ := hnar.frames anchor hfr
    have htop := hs.top_of_mem (List.mem_append_left _ (List.mem_cons_of_mem _ hfr₀))
    rcases hstay with h | h | ⟨⟨q, hq⟩, -⟩
    · exact hroot (h.trans hnar.root.symm)
    · have hsplit := (hs.area anchor h).1
      rw [hs.frames_folders anchor hfr₀] at hsplit
      cases hsplit
    · rw [htop.2] at hq
      cases hq
  · rw [List.mem_singleton] at hm
    exact hanc₂ (.inl hm.symm)

/-- Docking a node against a side of another keeps a layout sound. It is refused only by its
checks, after ending the zoom, or when taking the node out is refused, which changes nothing
more; a refused insertion would put the node at the end of the root split, but with no node
held out the checked anchor is still there to take it. -/
theorem ends_moveNode_atomic (hs : l.Sound E) (source : NodeId) (side : Side) (reference : NodeId) :
    Ends (moveNode source side reference) l (fun _ l' => l'.Sound E)
      fun _ l' => l'.Sound E ∧ (E = [] → l' = { l with zoomed := none }) := by
  have hs₀ : ({ l with zoomed := none } : Layout).Sound E := hs.of_frames rfl rfl rfl rfl rfl rfl
  rw [moveNode, ends_bind, ends_zoomOut]
  generalize ({ l with zoomed := none } : Layout) = l₀ at hs₀ ⊢
  have hf := hs₀.forest
  have hkeep₀ : l₀.Sound E ∧ (E = [] → l₀ = l₀) := ⟨hs₀, fun _ => rfl⟩
  rw [ends_bind]
  refine (ends_ensureMovable source).mono (fun _ l₁ h => ?_) fun _ l₁ h => by rw [h]; exact hkeep₀
  obtain ⟨rfl, hfix, hsrc, -⟩ := h
  rw [ends_bind, ends_get, ends_bind, ends_node]
  generalize (l₁.folderOf reference).getD reference = anchor
  split
  · next anchorNode hanchor =>
    -- after the checks, the anchor is no tab of a folder
    extract_lets shared onLine findLine rest₂ rest₁ checkParent
    have hac : l₁.store.contains anchor = true := (Store.contains_iff _ _).mpr ⟨_, hanchor⟩
    -- what follows the checks on the anchor, which is then no tab of a folder, and the root,
    -- the editor area or a pane or a folder with a container
    have hrest : (∀ q, l₁.store.parent? anchor = some q → l₁.store.form? q ≠ some .folder) →
        (anchor = l₁.root ∨ l₁.editorArea = some anchor ∨
          ((∃ q, l₁.store.parent? anchor = some q) ∧ l₁.store.Movable anchor)) →
        Ends (rest₁ ()) l₁ (fun _ l' => l'.Sound E)
          fun _ l' => l'.Sound E ∧ (E = [] → l' = l₁) := by
      intro htab hstay₀
      dsimp only [rest₁]
      refine ends_guard (fun _ => hkeep₀) fun hc₁ => ?_
      have hanc : ¬ Under l₁.store.parent? source anchor := by
        rintro (h | h)
        · exact hc₁ (by simp [h])
        · exact hc₁ (by simp [hf.isAncestor_iff.mpr h])
      dsimp only [rest₂]
      refine ends_guard (fun _ => hkeep₀) fun hc₂ => ?_
      -- the anchor is above `source` only as its folder, showing more panes
      have hstay : l₁.Anchorable source anchor := by
        rcases hstay₀ with h | h | ⟨⟨q, hq⟩, hmov⟩
        · exact .inl h
        · exact .inr (.inl h)
        refine hs₀.anchorable hmov ⟨q, hq⟩ fun hab => ?_
        have hr : anchor ≠ l₁.root := fun h => by
          rw [h, (hs₀.top_of_mem hs₀.root_mem).2] at hq
          cases hq
        have ha : l₁.editorArea ≠ some anchor := fun h => hmov.ne_split (hs₀.area anchor h).1
        have hfix : l₁.isFixed anchor = false := by
          simp only [Layout.isFixed, Bool.or_eq_false_iff, beq_eq_false_iff_ne]
          exact ⟨hr, fun h => ha h.symm⟩
        simpa [hfix, hf.isAncestor_iff.mpr hab] using hc₂
      dsimp only [findLine, shared]
      split
      · next parent hshared =>
        have hsp : l₁.store.parent? source = some parent := Option.eq_some_of_filter_eq_some hshared
        have hap : l₁.store.parent? anchor = some parent := by
          have h := (Option.filter_eq_some_iff.mp hshared).2
          simp only [beq_iff_eq] at h
          exact h.symm
        rw [ends_bind, ends_node]
        split
        · next pn hpn =>
          rw [ends_bind, ends_pure]
          dsimp only [onLine]
          split
          · -- a split of the side's orientation holds both: `source` moves within it
            next parent' hline =>
            split at hline
            · next hor =>
              cases hline
              have hsplit : l₁.store.form? parent = some .split := by
                rw [Store.form?_of_get? hpn]
                cases hk : pn.kind <;> simp_all [NodeKind.orientation?, NodeKind.form]
              obtain ⟨w, s₁, h₁⟩ := Store.removeChild_ok (.inr hsplit) (hf.mem_held_iff.mpr hsp)
                hsrc.contains
              have hs₁ := hs₀.removeChild h₁
              have hcont₁ : s₁.IsContainer parent := .inr (by rw [Store.form?_removeChild h₁]; exact hsplit)
              have hmem₁ : anchor ∈ s₁.held parent := by
                rw [Store.held_removeChild h₁, if_pos rfl]
                exact (List.mem_erase_of_ne fun h => hanc (.inl h.symm)).mpr (hf.mem_held_iff.mpr hap)
              obtain ⟨i, hi⟩ := Store.childIndex_ok hcont₁ hmem₁
              obtain ⟨s₂, h₂⟩ := Store.insertChild_ok (if side.leading = true then i else i + 1) w
                hcont₁ ((Store.contains_removeChild h₁ _).trans hsrc.contains)
              rw [ends_bind, ends_editWith_of_ok h₁, ends_bind, ends_store]
              dsimp only
              rw [hi]
              dsimp only
              rw [ends_bind, ends_pure, ends_edit_of_ok h₂]
              -- `source` left the split: putting it back makes no cycle
              have hs₂ := hs₁.insertChild h₂ List.mem_cons_self
                (by
                  rintro (h | h)
                  · exact hf.ne_of_parent hsp h
                  · exact hf.not_under_of_parent hsp (.inr (above_of_cut (Store.cut_removeChild h₁) h)))
                (fun h => by
                  rw [Store.form?_removeChild h₁, hsplit] at h
                  cases h)
                (fun a ha hu => absurd hu (hs₁.movable_off_area
                  ((Store.Movable.congr (Store.form?_removeChild h₁ source)).mpr hsrc) a ha))
              rwa [List.erase_cons_head] at hs₂
            · cases hline
          · exact ends_liftInsert hs₀ side hsrc hac hanc htab hstay
        · exact hkeep₀
      · rw [ends_bind, ends_pure]
        exact ends_liftInsert hs₀ side hsrc hac hanc htab hstay
    split
    · -- a loose anchor must be a pane or a folder in a split
      refine ends_guard (fun _ => hkeep₀) fun hkind => ?_
      have hmov : l₁.store.Movable anchor :=
        Store.movable_of_get? hanchor (by cases h : anchorNode.kind.isPane <;> simp_all)
      dsimp only [checkParent]
      split
      · next parent hpar =>
        rw [ends_bind, ends_node]
        split
        · next pn hpn =>
          refine ends_guard (fun _ => hkeep₀) fun hsplit => hrest (fun q hq => ?_)
            (.inr (.inr ⟨⟨parent, hpar⟩, hmov⟩))
          rw [hpar] at hq
          cases hq
          rw [Store.form?_of_get? hpn]
          cases hk : pn.kind <;> simp_all [NodeKind.isSplit, NodeKind.form]
        · exact hkeep₀
      · rw [ends_bind, ends_throw]
        exact hkeep₀
    · -- a fixed anchor is the root, or the editor area, which only splits hold
      next hfixed =>
      simp only [Layout.isFixed, Bool.not_eq_true', Bool.not_eq_false, Bool.or_eq_true,
        beq_iff_eq] at hfixed
      refine hrest (fun q hq => ?_) (hfixed.imp id fun h => .inl h.symm)
      rcases hfixed with rfl | ha
      · rw [(hs₀.top_of_mem hs₀.root_mem).2] at hq
        cases hq
      · have hsplit := (hs₀.area anchor ha.symm).2 q (.parent hq)
        rw [hsplit]
        simp
  · exact hkeep₀

theorem ends_moveNode (hs : l.Sound E) (source : NodeId) (side : Side) (reference : NodeId) :
    Ends (moveNode source side reference) l (fun _ l' => l'.Sound E) fun _ l' => l'.Sound E :=
  (ends_moveNode_atomic hs source side reference).mono (fun _ _ h => h) fun _ _ h => h.1

/-- Docking a part's pane against another's keeps a layout sound; with no node held out, a
refusal leaves the layout as it was, or only ends the zoom. -/
theorem ends_movePane_atomic (hs : l.Sound E) (part : PartId) (side : Side) (reference : PartId) :
    Ends (movePane part side reference) l (fun _ l' => l'.Sound E)
      fun _ l' => l'.Sound E ∧ (E = [] → l' = l ∨ l' = { l with zoomed := none }) := by
  rw [movePane, ends_bind, ends_get]
  split
  · split
    · exact (ends_moveNode_atomic hs _ side _).mono (fun _ _ h => h)
        fun _ _ h => ⟨h.1, fun hE => .inr (h.2 hE)⟩
    · exact ⟨hs, fun _ => .inl rfl⟩
  · exact ⟨hs, fun _ => .inl rfl⟩

theorem ends_movePane (hs : l.Sound E) (part : PartId) (side : Side) (reference : PartId) :
    Ends (movePane part side reference) l (fun _ l' => l'.Sound E) fun _ l' => l'.Sound E :=
  (ends_movePane_atomic hs part side reference).mono (fun _ _ h => h) fun _ _ h => h.1

end LayoutM

end Docking
