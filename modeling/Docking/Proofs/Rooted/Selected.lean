import Docking.Proofs.Selection
/-!
# Where the folders' selections rest

A folder shows the tab its selection names. On a layout a script reaches, every selection
rests on a pane and is none exactly when no tab is a pane (`Store.Selected`). What the
requests keep on every rooted layout is weaker (`Store.Picked`): a selection may also rest on
a tab that is a folder, since a folder read from a document may hold folders and a zoom
selects whatever pane or folder it zooms on. Where no folder holds a folder, as in a sound
layout, the two agree (`Store.Picked.selected`).

Every edit of the table either leaves a folder's selection on a pane or leaves the folder, and
which of its tabs are panes and folders, as they were (`Store.Refolds`); both invariants are
read off that one relation. Selecting a tab keeps `Picked` when the tab is a pane or a folder
(`Store.Picked.select`).
-/

namespace Docking

namespace Store

variable {s s₁ s₂ s' : Store} {x c f : NodeId}

/-! ### Panes and folders by form -/

theorem isFolder_eq_kindOf (s : Store) (x : NodeId) :
    s.isFolder x = ((s.kindOf x).map NodeKind.isFolder).getD false := by
  unfold isFolder kindOf
  cases s.get? x <;> rfl

/-- A test on kinds that reads only the form answers alike on nodes of one form. -/
theorem getD_map_kindOf_of_form {g : NodeKind → Bool}
    (hg : ∀ k k' : NodeKind, k.form = k'.form → g k = g k') (h : s'.form? x = s.form? x) :
    ((s'.kindOf x).map g).getD false = ((s.kindOf x).map g).getD false := by
  rw [form?_eq_map_kindOf, form?_eq_map_kindOf] at h
  cases hk' : s'.kindOf x with
  | none =>
    cases hk : s.kindOf x with
    | none => rfl
    | some k => simp [hk, hk'] at h
  | some k' =>
    cases hk : s.kindOf x with
    | none => simp [hk, hk'] at h
    | some k =>
      simp only [hk, hk', Option.map_some, Option.some.injEq] at h
      exact congrArg (Option.getD · false) (congrArg some (hg k' k h))

theorem isPane_eq_of_form (h : s'.form? x = s.form? x) : s'.isPane x = s.isPane x := by
  rw [isPane_eq_kindOf, isPane_eq_kindOf]
  exact getD_map_kindOf_of_form (fun k k' hk => by
    cases k <;> cases k' <;> first | rfl | cases hk) h

theorem isFolder_eq_of_form (h : s'.form? x = s.form? x) : s'.isFolder x = s.isFolder x := by
  rw [isFolder_eq_kindOf, isFolder_eq_kindOf]
  exact getD_map_kindOf_of_form (fun k k' hk => by
    cases k <;> cases k' <;> first | rfl | cases hk) h

theorem isPane_eq_of_forms (h : ∀ x, s'.form? x = s.form? x) : s'.isPane = s.isPane :=
  funext fun x => isPane_eq_of_form (h x)

theorem isFolder_eq_of_forms (h : ∀ x, s'.form? x = s.form? x) : s'.isFolder = s.isFolder :=
  funext fun x => isFolder_eq_of_form (h x)

theorem exists_kindOf_folder_of_form {p : NodeId} {cs : List NodeId} {sel : Option Nat}
    (hform : s'.form? p = s.form? p) (hk : s'.kindOf p = some (.folder cs sel)) :
    ∃ cs₀ sel₀, s.kindOf p = some (.folder cs₀ sel₀) := by
  have hf : s.form? p = some .folder := by
    rw [← hform, form?_eq_map_kindOf, hk]
    rfl
  obtain ⟨cs₀, sel₀, hk₀, -⟩ := exists_kindOf_folder hf
  exact ⟨cs₀, sel₀, hk₀⟩

/-- A slot of a list of tabs passes a test exactly when it holds a tab that passes it. -/
theorem getD_map_eq_true {g : NodeId → Bool} {cs : List NodeId} {i : Nat} :
    (cs.map g).getD i false = true ↔ ∃ c, cs[i]? = some c ∧ g c = true := by
  rw [List.getD_eq_getElem?_getD, List.getElem?_map]
  cases cs[i]? <;> simp

theorem tab_held {cs : List NodeId} {sel : Option Nat}
    (hx : s.kindOf x = some (.folder cs sel)) (hc : c ∈ cs) : c ∈ s.held x := by
  obtain ⟨n, hn, hk⟩ := Option.map_eq_some_iff.mp hx
  rw [held_of_get? hn, hk]
  exact hc

/-! ### Selections on panes, or on folders -/

/-- Every folder's selection rests on a pane, and is none exactly when no tab is a pane. -/
def Selected (s : Store) : Prop :=
  ∀ x cs sel, s.kindOf x = some (.folder cs sel) → OnVisible (cs.map s.isPane) sel

/-- Every folder's selection rests on a pane or on a tab that is a folder, and is none exactly
when no tab is a pane. -/
def Picked (s : Store) : Prop :=
  ∀ x cs sel, s.kindOf x = some (.folder cs sel) →
    OnVisible (cs.map s.isPane) sel ∨ ∃ i, sel = some i ∧ (cs.map s.isFolder).getD i false = true

theorem Selected.picked (h : s.Selected) : s.Picked := fun x cs sel hx => .inl (h x cs sel hx)

/-- Where every tab of a folder is a pane or a placeholder, a selection on a pane or a folder
rests on a pane. -/
theorem Picked.selected (h : s.Picked)
    (htabs : ∀ x cs sel c, s.kindOf x = some (.folder cs sel) → c ∈ cs → s.isFolder c = false) :
    s.Selected := by
  intro x cs sel hx
  rcases h x cs sel hx with hvis | ⟨i, rfl, hi⟩
  · exact hvis
  · -- the selected slot holds a tab, which is no folder
    obtain ⟨t, hget, ht⟩ := getD_map_eq_true.mp hi
    rw [htabs x cs _ t hx (List.mem_of_getElem? hget)] at ht
    cases ht

theorem Selected.pane_of_some (h : s.Selected) {cs : List NodeId} {i : Nat}
    (hx : s.kindOf x = some (.folder cs (some i))) : ∃ c, cs[i]? = some c ∧ s.isPane c = true :=
  getD_map_eq_true.mp (h x cs (some i) hx)

theorem Selected.no_pane_of_none (h : s.Selected) {cs : List NodeId}
    (hx : s.kindOf x = some (.folder cs none)) : ∀ c ∈ cs, s.isPane c = false := by
  intro c hc
  obtain ⟨i, hi, rfl⟩ := List.getElem_of_mem hc
  have hv : (cs.map s.isPane).getD i false = false := h x cs none hx i
  simpa [List.getD_eq_getElem?_getD, hi] using hv

theorem selected_default : (default : Store).Selected := fun x cs sel hx => by
  obtain ⟨n, hn, -⟩ := Option.map_eq_some_iff.mp hx
  cases hn

/-! ### Edits -/

/-- From `s` to `s'`, every folder either has its selection on a pane or is the folder it was,
over tabs that are panes and folders as they were. -/
def Refolds (s s' : Store) : Prop :=
  ∀ x cs sel, s'.kindOf x = some (.folder cs sel) → OnVisible (cs.map s'.isPane) sel ∨
    s.kindOf x = some (.folder cs sel) ∧
      ∀ c ∈ cs, s'.isPane c = s.isPane c ∧ s'.isFolder c = s.isFolder c

theorem Refolds.refl (s : Store) : Refolds s s := fun _ _ _ hx =>
  .inr ⟨hx, fun _ _ => ⟨rfl, rfl⟩⟩

theorem Refolds.trans (h₁ : Refolds s s₁) (h₂ : Refolds s₁ s₂) : Refolds s s₂ := by
  intro x cs sel hx
  rcases h₂ x cs sel hx with hvis | ⟨hx₁, htabs₂⟩
  · exact .inl hvis
  rcases h₁ x cs sel hx₁ with hvis | ⟨hx₀, htabs₁⟩
  · -- the panes among the tabs are those of the middle table
    left
    rwa [List.map_congr_left fun c hc => (htabs₂ c hc).1]
  · exact .inr ⟨hx₀, fun c hc =>
      ⟨(htabs₂ c hc).1.trans (htabs₁ c hc).1, (htabs₂ c hc).2.trans (htabs₁ c hc).2⟩⟩

theorem Selected.of_refolds (h : s.Selected) (hr : Refolds s s') : s'.Selected := by
  intro x cs sel hx
  rcases hr x cs sel hx with hvis | ⟨hx₀, htabs⟩
  · exact hvis
  · rw [List.map_congr_left fun c hc => (htabs c hc).1]
    exact h x cs sel hx₀

theorem Picked.of_refolds (h : s.Picked) (hr : Refolds s s') : s'.Picked := by
  intro x cs sel hx
  rcases hr x cs sel hx with hvis | ⟨hx₀, htabs⟩
  · exact .inl hvis
  · rw [List.map_congr_left fun c hc => (htabs c hc).1,
      List.map_congr_left fun c hc => (htabs c hc).2]
    exact h x cs sel hx₀

theorem refolds_of_tabs (h : ∀ y cs sel, s'.kindOf y = some (.folder cs sel) →
    s.kindOf y = some (.folder cs sel) ∧ ∀ c ∈ cs, s'.kindOf c = s.kindOf c) :
    Refolds s s' := fun y cs sel hy =>
  .inr ⟨(h y cs sel hy).1, fun c hc =>
    ⟨isPane_eq_of_kindOf ((h y cs sel hy).2 c hc), isFolder_eq_of_kindOf ((h y cs sel hy).2 c hc)⟩⟩

theorem refolds_of_kindOf (hk : ∀ x, s'.kindOf x = s.kindOf x) : Refolds s s' :=
  refolds_of_tabs fun y _ _ hy => ⟨(hk y).symm.trans hy, fun c _ => hk c⟩

/-- An edit of the tabs of `p` that keeps every form and changes the kind of no other node,
leaving `p`'s selection on a pane when `p` is a folder. -/
theorem refolds_of_tabsEdit {p : NodeId} (hform : ∀ x, s'.form? x = s.form? x)
    (hrest : ∀ x, p ≠ x → s'.kindOf x = s.kindOf x)
    (hsel : ∀ cs sel, s.kindOf p = some (.folder cs sel) →
      ∃ cs' sel', s'.kindOf p = some (.folder cs' sel') ∧ OnVisible (cs'.map s'.isPane) sel') :
    Refolds s s' := by
  intro x cs sel hx
  by_cases hpx : p = x
  · subst hpx
    obtain ⟨cs₀, sel₀, hk₀⟩ := exists_kindOf_folder_of_form (hform p) hx
    obtain ⟨cs', sel', hk', hvis⟩ := hsel cs₀ sel₀ hk₀
    rw [hx] at hk'
    cases hk'
    exact .inl hvis
  · exact .inr ⟨(hrest x hpx).symm.trans hx, fun c _ =>
      ⟨isPane_eq_of_form (hform c), isFolder_eq_of_form (hform c)⟩⟩

theorem refolds_fixSelection (s : Store) (f : NodeId) : Refolds s (s.fixSelection f) :=
  refolds_of_tabsEdit (fun x => (sameShape_fixSelection s f x).2.2)
    (fun _ hx => kindOf_fixSelection_of_ne s hx) fun _ _ hk =>
      let ⟨sel', hk', hvis, _⟩ := fixSelection_selection hk
      ⟨_, sel', hk', hvis⟩

theorem refolds_select_fixSelection (hp : s.parent? c = some f) :
    Refolds s ((s.select c).2.fixSelection f) :=
  refolds_of_tabsEdit (fun x => ((sameShape_select s c).trans (sameShape_fixSelection _ f) x).2.2)
    (fun x hx => by rw [kindOf_fixSelection_of_ne _ hx, kindOf_select hp hx]) fun _ _ hk => by
      obtain ⟨cs₁, sel₁, hk₁⟩ := exists_kindOf_folder_of_form ((sameShape_select s c f).2.2).symm hk
      obtain ⟨sel', hk', hvis, -⟩ := fixSelection_selection hk₁
      exact ⟨_, sel', hk', hvis⟩

theorem refolds_insertChild {p : NodeId} {i : Nat} {w : Float32}
    (h : s.insertChild p i c w = .ok s') : Refolds s s' :=
  refolds_of_tabsEdit (form?_insertChild h) (fun _ hx => kindOf_insertChild h hx) fun _ _ hk =>
    let ⟨sel', hk', hvis, _⟩ := insertChild_selection hk h
    ⟨_, sel', hk', hvis⟩

theorem refolds_pushChild {p : NodeId} (h : s.pushChild p c = .ok s') : Refolds s s' := by
  obtain ⟨pn, -, hi⟩ := pushChild_eq_ok h
  exact refolds_insertChild hi

theorem refolds_removeChild {p : NodeId} {w : Float32} (h : s.removeChild p c = .ok (w, s')) :
    Refolds s s' :=
  refolds_of_tabsEdit (form?_removeChild h) (fun _ hx => kindOf_removeChild h hx) fun _ _ hk =>
    let ⟨sel', hk', hvis, _⟩ := removeChild_selection hk h
    ⟨_, sel', hk', hvis⟩

theorem refolds_replaceChild {p old new : NodeId} (h : s.replaceChild p old new = .ok s') :
    Refolds s s' :=
  refolds_of_tabsEdit (form?_replaceChild h) (fun _ hx => kindOf_replaceChild h hx) fun _ _ hk =>
    let ⟨sel', hk', hvis, _⟩ := replaceChild_selection hk h
    ⟨_, sel', hk', hvis⟩

theorem refolds_setBounds (s : Store) (id : NodeId) (r : Rect) : Refolds s (s.setBounds id r) :=
  refolds_of_kindOf fun x => kindOf_setBounds s id x r

theorem refolds_setParent {id : NodeId} {q : Option NodeId} (h : s.setParent id q = .ok s') :
    Refolds s s' := by
  obtain ⟨-, rfl⟩ := setParent_eq_ok h
  exact refolds_of_kindOf fun x => kindOf_setParentField s id x q

/-- Giving a node that is no folder another kind that is no folder, of the same form. -/
theorem refolds_setKind {id : NodeId} {k : NodeKind} (hk : k.isFolder = false)
    (hform : ∀ n, s.get? id = some n → k.form = n.kind.form) : Refolds s (s.setKind id k) := by
  refine refolds_of_tabsEdit (fun x => ?_) (fun _ hx => kindOf_setKind_of_ne s _ hx)
    fun cs sel hp => ?_
  · rw [form?_setKind]
    split
    · next he =>
      subst he
      cases hn : s.get? id with
      | none => simp [form?, hn]
      | some n => simp [form?, hn, hform n hn]
    · rfl
  · -- a folder keeps its form, so the new kind would be a folder
    obtain ⟨n, hn, hkn⟩ := Option.map_eq_some_iff.mp hp
    have hsame := hform n hn
    rw [hkn] at hsame
    cases k <;> simp_all [NodeKind.isFolder, NodeKind.form]

/-- A new node without tabs: the tabs of the folders are in the table, so none of them is the
new node. -/
theorem refolds_alloc (hf : s.Forest) (ident : String) {kind : NodeKind}
    (hk : ∀ cs sel, kind = .folder cs sel → cs = [] ∧ sel = none) :
    Refolds s (s.alloc ident kind).2 := by
  intro x cs sel hx
  by_cases hxn : x = s.nextId
  · subst hxn
    rw [kindOf, get?_alloc, if_pos rfl] at hx
    obtain ⟨rfl, rfl⟩ := hk cs sel (Option.some.inj hx)
    exact .inl fun _ => rfl
  · rw [kindOf_alloc_of_ne _ _ _ hxn] at hx
    refine .inr ⟨hx, fun c hc => ?_⟩
    have hkc := kindOf_alloc_of_ne s ident kind
      (ne_nextId_of_contains (contains_of_parent? (hf.held_parent (tab_held hx hc))))
    exact ⟨isPane_eq_of_kindOf hkc, isFolder_eq_of_kindOf hkc⟩

/-- Dropping a node without a container: it is no folder's tab. -/
theorem refolds_discard_top (hf : s.Forest) (htop : s.parent? x = none) :
    Refolds s (s.discard x) := by
  refine refolds_of_tabs fun y cs sel hy => ?_
  have hxy : x ≠ y := by
    rintro rfl
    rw [kindOf, get?_discard, if_pos rfl] at hy
    cases hy
  rw [kindOf_discard_of_ne _ hxy] at hy
  refine ⟨hy, fun c hc => kindOf_discard_of_ne _ fun hxc => ?_⟩
  subst hxc
  rw [hf.held_parent (tab_held hy hc)] at htop
  cases htop

/-- Dropping a collapsed node or a split: the panes and the folders stay. -/
theorem refolds_discard (hx : s.form? x = some .collapsed ∨ s.form? x = some .split) :
    Refolds s (s.discard x) := by
  -- the dropped node is neither a pane nor a folder, before or after
  have hroles : ∀ y, (s.discard x).isPane y = s.isPane y ∧ (s.discard x).isFolder y = s.isFolder y := by
    intro y
    by_cases hxy : x = y
    · subst hxy
      obtain ⟨n, hn, hk⟩ : ∃ n, s.get? x = some n ∧ (n.kind.form = .collapsed ∨ n.kind.form = .split) := by
        rcases hx with h | h <;> obtain ⟨n, hn, hk⟩ := Option.map_eq_some_iff.mp h
        · exact ⟨n, hn, .inl hk⟩
        · exact ⟨n, hn, .inr hk⟩
      simp only [isPane, isFolder, get?_discard, if_true, hn]
      cases hkn : n.kind <;> simp_all [NodeKind.form, NodeKind.isPane, NodeKind.isFolder]
    · exact ⟨isPane_eq_of_kindOf (kindOf_discard_of_ne _ hxy),
        isFolder_eq_of_kindOf (kindOf_discard_of_ne _ hxy)⟩
  intro y cs sel hy
  have hxy : x ≠ y := by
    rintro rfl
    rw [kindOf, get?_discard, if_pos rfl] at hy
    cases hy
  rw [kindOf_discard_of_ne _ hxy] at hy
  exact .inr ⟨hy, fun c _ => hroles c⟩

/-- Freeing the subtree of a node without a container: the tabs of a folder left in the table
are left too. -/
theorem refolds_free (hf : s.Forest) {t : NodeId} (htop : s.parent? t = none) :
    Refolds s (s.free t) := by
  refine refolds_of_tabs fun y cs sel hy => ?_
  have hkind : ∀ {x}, ¬ Under s.parent? t x → (s.free t).kindOf x = s.kindOf x := fun hx => by
    rw [kindOf, kindOf, hf.get?_free, if_neg hx]
  have hyt : ¬ Under s.parent? t y := fun hu => by
    rw [kindOf, hf.get?_free, if_pos hu] at hy
    cases hy
  rw [hkind hyt] at hy
  refine ⟨hy, fun c hc => hkind fun hu => ?_⟩
  -- a tab below `t` would put its folder below `t` too
  have hcy := hf.held_parent (tab_held hy hc)
  rcases hu with rfl | hu
  · rw [htop] at hcy
    cases hcy
  · rcases hu.step hcy with rfl | hu'
    · exact hyt (.refl _)
    · exact hyt (.inr hu')

/-! ### Selecting a tab -/

/-- `c` names a slot of the table and is a pane or a folder, if anything. -/
def Pickable (s : Store) (c : NodeId) : Prop :=
  c.val < s.slots.size ∧ ∀ fm, s.form? c = some fm → fm = .folder ∨ ∃ p, fm = .pane p

theorem pickable_of_form {fm : Form} (h : s.form? c = some fm)
    (hfm : fm = .folder ∨ ∃ p, fm = .pane p) : s.Pickable c := by
  obtain ⟨n, hn, -⟩ := Option.map_eq_some_iff.mp h
  refine ⟨lt_size_of_get? hn, fun fm' h' => ?_⟩
  rw [h] at h'
  cases h'
  exact hfm

theorem pickable_of_get? {n : Node} (hn : s.get? c = some n)
    (hk : (n.kind.isPane || n.kind.isFolder) = true) : s.Pickable c := by
  refine pickable_of_form (show s.form? c = some n.kind.form by simp [form?, hn]) ?_
  cases hkn : n.kind <;> simp_all [NodeKind.form, NodeKind.isPane, NodeKind.isFolder]

/-- The tab a folder shows is a pane or a folder, where every selection is picked. -/
theorem Picked.pickable_of_selectedTab (h : s.Picked) (hf : s.Forest) {t : NodeId}
    (ht : s.selectedTab f = some t) : s.Pickable t := by
  obtain ⟨n, hn⟩ := (contains_iff _ _).mp
    (contains_of_parent? (hf.held_parent (selectedTab_mem_held ht)))
  have hpane : s.isPane t = n.kind.isPane := by simp [isPane, hn]
  have hfolder : s.isFolder t = n.kind.isFolder := by simp [isFolder, hn]
  refine pickable_of_get? hn ?_
  unfold selectedTab at ht
  split at ht
  · next cs i hk =>
    rcases h f cs (some i) hk with hvis | ⟨j, hj, hj'⟩
    · have ht' : s.isPane t = true := (getD_map_isPane ht).symm.trans hvis
      simp [← hpane, ht']
    · cases hj
      obtain ⟨t', ht', hft⟩ := getD_map_eq_true.mp hj'
      rw [ht] at ht'
      cases ht'
      simp [← hfolder, hft]
  · cases ht

/-- Selecting a tab leaves the table as it was, or gives the tab's folder the tab's first slot
as its selection. -/
theorem select_cases (s : Store) (c : NodeId) :
    (s.select c).2 = s ∨ ∃ f cs sel, s.parent? c = some f ∧ s.kindOf f = some (.folder cs sel) ∧
      c ∈ cs ∧ (s.select c).2 = s.setKind f (.folder cs (some (cs.idxOf c))) := by
  unfold select
  split
  · exact .inl rfl
  next f hp =>
  split
  · exact .inl rfl
  next i hi =>
  split
  · next ident parent bounds cs sel hf =>
    have hk : s.kindOf f = some (.folder cs sel) := by rw [kindOf, hf]; rfl
    obtain ⟨hidx, hc⟩ := childIndex_folder hk hi
    split
    · exact .inl rfl
    · exact .inr ⟨f, cs, sel, hp, hk, hc, by rw [hidx]⟩
  · exact .inl rfl

/-- Selecting a pane or a folder keeps every selection on a pane or a folder. -/
theorem Picked.select (h : s.Picked) (hc : s.Pickable c) : (s.select c).2.Picked := by
  rcases select_cases s c with heq | ⟨f, cs, sel, hp, hk, hcs, heq⟩
  · rw [heq]
    exact h
  rw [heq]
  have hform : ∀ y, (s.setKind f (.folder cs (some (cs.idxOf c)))).form? y = s.form? y :=
    fun y => by
      rw [form?_setKind]
      split
      · next hfy =>
        subst hfy
        rw [form?_eq_map_kindOf, hk]
        rfl
      · rfl
  intro y cs' sel' hy
  rw [isPane_eq_of_forms hform, isFolder_eq_of_forms hform]
  by_cases hfy : f = y
  · subst hfy
    rw [kindOf_setKind_self, hk] at hy
    cases hy
    -- the selected slot holds `c`, which has a form as it has a container
    have hget : cs[cs.idxOf c]? = some c := List.getElem?_idxOf hcs
    obtain ⟨fm, hfm⟩ : ∃ fm, s.form? c = some fm := by
      obtain ⟨n, hn⟩ := (contains_iff _ _).mp (contains_of_parent? hp)
      exact ⟨n.kind.form, by simp [form?, hn]⟩
    rcases hc.2 fm hfm with rfl | ⟨p, rfl⟩
    · exact .inr ⟨_, rfl, getD_map_eq_true.mpr ⟨c, hget, isFolder_of_form? hfm⟩⟩
    · exact .inl (by
        show (cs.map s.isPane).getD _ false = true
        rw [getD_map_isPane hget]
        exact isPane_of_form hfm)
  · rw [kindOf_setKind_of_ne _ _ hfy] at hy
    exact h y cs' sel' hy

end Store

end Docking
