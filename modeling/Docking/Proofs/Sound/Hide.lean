import Docking.Proofs.Sound.Windows
import Docking.Layout.Hide
/-!
# Hiding panes keeps a layout sound

The upward loops behind hiding, `collapseFrom` and `tidyFrom`, never fail on a sound layout
and keep it sound with the same extra nodes: every edit they make is one of the composite
edits of `Sound` (fold a container, drop an emptied one, flatten a one-child split) or closes
an emptied window. Both spare the node they start from (`Store.Spares`): what is not that
node or above it stays as it was. Each is proved by induction on the fuel, one step at a time.

`takeNode` is refused only before it changes anything; when it succeeds the node taken out
joins the extra nodes. `removePane` and `disposePane` end sound whether they succeed or not.
-/

namespace Docking

namespace LayoutM

open Layout

variable {l : Layout} {E : List NodeId}

/-- One pass of folding from a node of the table never fails; it keeps a layout sound, spares
the node it runs at and goes on, if at all, from that node's container. -/
theorem ends_collapsePass (hs : l.Sound E) {cur : NodeId} (hcon : l.store.contains cur = true) :
    Ends (collapsePass cur) l (fun r l' => l'.Sound E ∧ l.store.Spares cur l'.store ∧
      ∀ next, r = some next → Store.GoesUp l.store l'.store cur next ∧
        l'.store.contains next = true) fun _ _ => False := by
  have hf := hs.forest
  rw [collapsePass, ends_bind, ends_get]
  split
  · exact ⟨hs, .refl _ _, nofun⟩
  next hfix =>
  obtain ⟨n, hn⟩ := (Store.contains_iff _ _).mp hcon
  rw [ends_bind, ends_node_of hn]
  split
  · exact ⟨hs, .refl _ _, nofun⟩
  next hkind =>
  have hcont : n.kind.isContainer = true := by
    cases h : n.kind.isContainer <;> simp [h] at hkind ⊢
  split
  · exact ⟨hs, .refl _ _, nofun⟩
  next parent hpar =>
  obtain ⟨pn, hpn⟩ := (Store.contains_iff _ _).mp (hf.contains_of_parent hpar)
  rw [ends_bind, ends_node_of hpn]
  split
  · exact ⟨hs, .refl _ _, nofun⟩
  next hpc =>
  -- fold `cur` behind a new collapsed node in its slot, then go on from `parent`
  have hpform := Store.form?_ne_collapsed hpn (Bool.eq_false_iff.mpr hpc)
  have hcc := Store.isContainer_of_get? hn hcont
  have hpfold : l.store.form? parent ≠ some .folder := fun hp =>
    (hs.tabs_leaves parent cur hp (hf.mem_held_iff.mpr hpar)).not_isContainer hcc
  obtain ⟨s₂, s₃, h₂, h₃⟩ := hf.fold_ok hpar (hs.holder_isContainer hpar hpform) n.ident
  have hs₃ := hs.fold hpar hpform hcc (not_under_area_of_loose hf (Bool.eq_false_iff.mpr hfix))
    h₂ h₃
  have hpc₃ : s₃.contains parent = true :=
    (Store.contains_fold h₂ h₃ parent).mpr (.inr (hf.contains_of_parent hpar))
  -- the fold does not touch what is above `parent`
  have hup : ∀ x, Under s₃.parent? x parent → Under l.store.parent? x parent := fun x hu => by
    rcases hu with he | hu
    · exact .inl he
    · exact .inr (hf.above_fold hpar h₂ h₃ (hf.contains_of_parent hpar)
        (hf.not_under_of_parent hpar) hu)
  simp only [ends_bind, ends_alloc, ends_edit, h₂, h₃]
  exact ⟨hs₃, hf.spares_fold hpar hpfold h₂ h₃, fun _ h => by cases h; exact ⟨⟨.parent hpar, hup⟩, hpc₃⟩⟩

/-- Folding placeholder-only containers never fails from a node of the table; it keeps a
layout sound and spares the node it starts from. -/
theorem ends_collapseFrom (k : Nat) : ∀ (cur : NodeId) {l : Layout} {E : List NodeId},
    l.Sound E → l.store.contains cur = true →
    Ends (collapseFrom k cur) l (fun _ l' => l'.Sound E ∧ l.store.Spares cur l'.store)
      fun _ _ => False := by
  induction k with
  | zero => exact fun cur l _ hs _ => ⟨hs, .refl _ _⟩
  | succ k ih =>
    intro cur l E hs hcon
    rw [collapseFrom, ends_climbFrom_succ]
    refine (ends_collapsePass hs hcon).mono (fun r l' h => ?_) fun _ _ h => h
    cases r with
    | none => exact ⟨h.1, h.2.1⟩
    | some next =>
      obtain ⟨hg, hcon'⟩ := h.2.2 next rfl
      exact (ih next h.1 hcon').mono (fun _ _ h' => ⟨h'.1, h.2.1.trans_goesUp hg h'.2⟩)
        fun _ _ h => h

theorem ends_collapseEmpty (hs : l.Sound E) {cur : NodeId} (hc : l.store.contains cur = true) :
    Ends (collapseEmpty cur) l (fun _ l' => l'.Sound E ∧ l.store.Spares cur l'.store)
      fun _ _ => False := by
  rw [collapseEmpty, ends_bind, ends_store]
  exact ends_collapseFrom _ cur hs hc

/-- A pass of folding changes only the table, and every node stays in it. -/
theorem ends_collapsePass_keeps (cur : NodeId) :
    Ends (collapsePass cur) l (fun _ l' => ∃ s, l' = { l with store := s } ∧
      ∀ x, l.store.contains x = true → s.contains x = true) fun _ _ => True := by
  rw [collapsePass, ends_bind, ends_get]
  split
  · exact ⟨l.store, rfl, fun _ h => h⟩
  rw [ends_bind, ends_node]
  split
  · split
    · exact ⟨l.store, rfl, fun _ h => h⟩
    split
    · exact ⟨l.store, rfl, fun _ h => h⟩
    rw [ends_bind, ends_node]
    split
    · split
      · exact ⟨l.store, rfl, fun _ h => h⟩
      -- the new collapsed node takes the slot of `cur`, which it then holds
      rw [ends_bind, ends_alloc, ends_bind, ends_edit]
      split
      · next s₂ h₂ =>
        rw [ends_bind, ends_edit]
        split
        · next s₃ h₃ =>
          exact ⟨s₃, rfl, fun x hx => (Store.contains_fold h₂ h₃ x).mpr (.inr hx)⟩
        · trivial
      · trivial
    · trivial
  · trivial

/-- Folding changes only the table, and every node stays in it. -/
theorem ends_collapseFrom_keeps (k : Nat) : ∀ (cur : NodeId) {l : Layout},
    Ends (collapseFrom k cur) l (fun _ l' => ∃ s, l' = { l with store := s } ∧
      ∀ x, l.store.contains x = true → s.contains x = true) fun _ _ => True := by
  induction k with
  | zero => exact fun _ l => ⟨l.store, rfl, fun _ h => h⟩
  | succ k ih =>
    intro cur l
    rw [collapseFrom, ends_climbFrom_succ]
    refine (ends_collapsePass_keeps cur).mono (fun r l' h => ?_) fun _ _ _ => trivial
    obtain ⟨s, rfl, hkeep⟩ := h
    cases r with
    | none => exact ⟨s, rfl, hkeep⟩
    | some next =>
      refine (ih next).mono (fun _ _ h => ?_) fun _ _ _ => trivial
      obtain ⟨s', rfl, hkeep'⟩ := h
      exact ⟨s', rfl, fun x hx => hkeep' x (hkeep x hx)⟩

/-- One pass of tidying never fails; it keeps a layout sound and spares the node it runs at. A
window goes only when its folder is that node, and the pass goes on, if at all, from a
container above it that is no window's folder: a container of containers, and folders hold
leaves only. -/
theorem ends_tidyPass (hs : l.Sound E) (cur : NodeId) :
    Ends (tidyPass cur) l (fun r l' => l'.Sound E ∧ l.store.Spares cur l'.store ∧
      (∀ win ∈ l.windows, win.folder ≠ cur → win ∈ l'.windows) ∧
      ∀ next, r = some next → Store.GoesUp l.store l'.store cur next ∧
        ∀ win ∈ l.windows, win.folder ≠ next) fun _ _ => False := by
  have hf := hs.forest
  -- a node holding a node that is no leaf is no window's folder
  have hnotFrame : ∀ {g c : NodeId}, c ∈ l.store.held g → ¬ l.store.IsLeaf c →
      ∀ win ∈ l.windows, win.folder ≠ g := fun hc hleaf win hwin he => hleaf
    (hs.tabs_leaves _ _ (he ▸ hs.frames_folders _ (List.mem_append_left _
      (List.mem_map_of_mem hwin))) hc)
  -- where the pass changes nothing and climbs no further
  have hstay : l.Sound E ∧ l.store.Spares cur l.store ∧
      (∀ win ∈ l.windows, win.folder ≠ cur → win ∈ l.windows) ∧
      ∀ next, (none : Option NodeId) = some next → Store.GoesUp l.store l.store cur next ∧
        ∀ win ∈ l.windows, win.folder ≠ next :=
    ⟨hs, .refl _ _, fun _ h _ => h, fun _ h => by cases h⟩
  rw [tidyPass, ends_bind, ends_get]
  split
  · exact hstay
  next hcur =>
  have hfix : l.isFixed cur = false := by
    cases h : l.isFixed cur <;> simp [h] at hcur ⊢
  have hcon : l.store.contains cur = true := by
    cases h : l.store.contains cur <;> simp [h] at hcur ⊢
  have harea : l.editorArea ≠ some cur := fun h => by simp [isFixed, h] at hfix
  split
  · -- the folder of a window: the window closes when it shows no pane
    next w hw =>
    have hwin : w ∈ l.windows := List.mem_of_find?_eq_some hw
    have hwf : w.folder = cur := by simpa using List.find?_some hw
    rw [ends_bind]
    refine ((ends_retireIfEmpty hs w.id).and (retireIfEmpty_keepsOthers w.id)).mono
      (fun _ l' h => ?_) fun _ _ h => h.1.elim
    rw [← hwf]
    refine ⟨h.1.1, h.1.2 w (window?_eq hs hwin), fun win hw hne => h.2 win hw fun hid => hne ?_,
      fun _ h => by cases h⟩
    rw [List.inj_on_of_nodup_map hs.ids_nodup hw hwin hid]
  split
  · -- the folder of a parked window goes when it is empty
    next i hi =>
    obtain ⟨hlt, hp, -⟩ := List.findIdx?_eq_some_iff_getElem.mp hi
    have hfi : l.parked[i].folder = cur := by simpa using hp
    have hfold : l.store.form? cur = some .folder := by
      apply hs.frames_folders
      rw [← hfi]
      exact List.mem_append_right _ (List.mem_map_of_mem (List.getElem_mem hlt))
    split
    · next hempty =>
      have hheld : l.store.held cur = [] := by
        rw [Store.held_eq_children (.inl hfold)]
        exact List.isEmpty_iff.mp hempty
      have hs₁ := hs.unpark hlt
      rw [hfi] at hs₁
      have hs₂ := hs₁.free List.mem_cons_self (hs₁.not_under_area (by rw [hfold]; simp))
      rw [List.erase_cons_head] at hs₂
      refine ⟨hs₂, hf.spares_free fun y hy => ?_, fun _ h _ => h, fun _ h => by cases h⟩
      rcases hy with rfl | hy
      · exact .refl _
      · obtain ⟨c, hc⟩ := hy.exists_child
        have hmem := hf.mem_held_iff.mpr hc
        rw [hheld] at hmem
        cases hmem
    · exact hstay
  split
  · exact hstay
  next parent hpar =>
  obtain ⟨n, hn⟩ := (Store.contains_iff _ _).mp hcon
  obtain ⟨pn, hpn⟩ := (Store.contains_iff _ _).mp (hf.contains_of_parent hpar)
  have hpc : Under l.store.parent? parent cur := .inr (.parent hpar)
  rw [ends_bind, ends_node_of hn, ends_bind, ends_node_of hpn]
  split
  · -- the container is a collapsed node: it goes with its emptied inner container
    next hcol =>
    split
    · exact hstay
    next hempty =>
    split
    · exact hstay
    next grand hg =>
    have hpform := Store.form?_of_isCollapsed hpn hcol
    have hcnil : l.store.held cur = [] := by
      have hcc : l.store.IsContainer cur := hs.fold_held parent cur hpform (hf.mem_held_iff.mpr hpar)
      rw [Store.held_eq_children hcc, Store.children, hn]
      simpa using hempty
    obtain ⟨w, s₁, h₁⟩ := Store.removeChild_ok (hs.holder_of_collapsed hpform hg)
      (hf.mem_held_iff.mpr hg) (hf.contains_of_parent hpar)
    have hs₁ := hs.removeChild h₁
    have hs₂ := hs₁.free List.mem_cons_self (hs₁.not_under_area (by
      rw [Store.form?_removeChild h₁, hpform]; simp))
    rw [List.erase_cons_head] at hs₂
    have hf₁ := hs₁.forest
    -- the freed subtree is the collapsed node and its empty inner container
    have hsub : ∀ y, Under s₁.parent? parent y → Under s₁.parent? y cur := by
      have hpar₁ : s₁.parent? cur = some parent := by
        rw [Store.parent?_removeChild h₁, if_neg (hf.ne_of_parent hpar)]
        exact hpar
      have hheld₁ : s₁.held parent = [cur] := by
        obtain ⟨inner, hin⟩ := Store.held_of_collapsed hpform
        have hmem := hf.mem_held_iff.mpr hpar
        rw [hin, List.mem_singleton] at hmem
        rw [Store.held_removeChild h₁, if_neg (hf.ne_of_parent hg), hin, hmem]
      have hcg : cur ≠ grand := by
        rintro rfl
        exact hf.not_above_self _ (.up hpar (.parent hg))
      have hcnil₁ : s₁.held cur = [] := by
        rw [Store.held_removeChild h₁, if_neg hcg]
        exact hcnil
      intro y hy
      rcases hy with rfl | hy
      · exact .inr (.parent hpar₁)
      · rw [hf₁.eq_of_above_of_held hheld₁ hcnil₁ hy]
        exact .refl _
    have hgc : Under l.store.parent? grand cur := .inr (.up hpar (.parent hg))
    have hsp := (Store.spares_removeChild h₁ hgc).then
      (fun x hu => under_of_cut (Store.cut_removeChild h₁) hu) (hf₁.spares_free hsub)
    have hup : ∀ x, Under (s₁.free parent).parent? x grand → Under l.store.parent? x grand :=
      fun x hu => under_of_cut (Store.cut_removeChild h₁)
        (under_of_cut (hf₁.cut_free parent) hu)
    simp only [ends_bind, ends_editWith, h₁, ends_onStore]
    refine ⟨hs₂, hsp, fun _ h _ => h, fun _ h => ?_⟩
    cases h
    exact ⟨⟨.up hpar (.parent hg), hup⟩, hnotFrame (hf.mem_held_iff.mpr hg) fun hl => by
      obtain ⟨f, hf', hl⟩ := hl
      rw [hpform] at hf'
      cases hf'
      cases hl⟩
  next hcol =>
  have hpform := Store.form?_ne_collapsed hpn (Bool.eq_false_iff.mpr hcol)
  have hpcont := hs.holder_isContainer hpar hpform
  split
  · -- an emptied container goes
    next hce =>
    obtain ⟨hcont, hnil⟩ : n.kind.isContainer = true ∧ n.kind.children.isEmpty = true := by
      simpa using hce
    have hcc := Store.isContainer_of_get? hn hcont
    obtain ⟨w, s₁, h₁⟩ := Store.removeChild_ok hpcont (hf.mem_held_iff.mpr hpar) hcon
    have hs₁ := hs.removeChild h₁
    have hheld : s₁.held cur = [] := by
      rw [Store.held_removeChild h₁, if_neg (hf.ne_of_parent hpar), Store.held_eq_children hcc,
        Store.children, hn]
      exact List.isEmpty_iff.mp hnil
    have hs₂ := hs₁.discard List.mem_cons_self hheld harea
    rw [List.erase_cons_head] at hs₂
    have hsp := (Store.spares_removeChild h₁ hpc).then
      (fun x hu => under_of_cut (Store.cut_removeChild h₁) hu) (Store.spares_discard (.refl _))
    have hup : ∀ x, Under (s₁.discard cur).parent? x parent → Under l.store.parent? x parent :=
      fun x hu => under_of_cut (Store.cut_removeChild h₁)
        (under_of_cut (Store.cut_discard cur) hu)
    simp only [ends_bind, ends_editWith, h₁, ends_onStore]
    refine ⟨hs₂, hsp, fun _ h _ => h, fun _ h => ?_⟩
    cases h
    exact ⟨⟨.parent hpar, hup⟩, hnotFrame (hf.mem_held_iff.mpr hpar)
      fun hl => hl.not_isContainer hcc⟩
  split
  · -- a split with one child gives its slot to the child
    next o cs ws only hk hch =>
    have hsplit : l.store.form? cur = some .split := by
      rw [Store.form?_of_get? hn, hk]
      rfl
    have hheld : l.store.held cur = [only] := by
      rw [Store.held_of_get? hn, hk]
      rw [hk] at hch
      exact hch
    have honly : only ∈ l.store.held cur := by
      rw [hheld]
      exact List.mem_singleton_self _
    have hop : l.store.parent? only = some cur := hf.held_parent honly
    have hoc : only ≠ cur := hf.ne_of_parent hop
    obtain ⟨w, s₁, h₁⟩ := Store.removeChild_ok (.inr hsplit) honly (Store.contains_of_parent? hop)
    have hmem₁ : cur ∈ s₁.held parent := by
      rw [Store.held_removeChild h₁, if_neg (hf.ne_of_parent hpar).symm]
      exact hf.mem_held_iff.mpr hpar
    obtain ⟨s₂, h₂⟩ := Store.replaceChild_ok
      ((Store.IsContainer.congr (Store.form?_removeChild h₁ parent)).mpr hpcont) hmem₁
      (by rw [Store.contains_removeChild h₁]; exact hcon)
      (by rw [Store.contains_removeChild h₁]; exact Store.contains_of_parent? hop)
    have hs₃ := hs.flatten hpar hpform hsplit hheld harea h₁ h₂
    -- a folder holds no split, so the container taking `only` is no folder
    have hpfold : l.store.form? parent ≠ some .folder := fun hp => by
      obtain ⟨f, hf', hl⟩ := hs.tabs_leaves parent cur hp (hf.mem_held_iff.mpr hpar)
      rw [hsplit] at hf'
      cases hf'
      cases hl
    have hpar₁ : s₁.parent? cur = some parent := by
      rw [Store.parent?_removeChild h₁, if_neg hoc.symm]
      exact hpar
    -- `cur` has no container once `only` took its slot
    have hup₂ : ∀ x, Under s₂.parent? x cur → Under l.store.parent? x cur := by
      rintro x (rfl | hu)
      · exact .refl _
      · obtain ⟨m, hm⟩ := hu.exists_parent
        rw [Store.parent?_replaceChild h₂, if_neg hoc.symm, if_pos rfl] at hm
        cases hm
    have hsp := ((Store.spares_removeChild h₁ (.refl _)).then
      (fun x hu => under_of_cut (Store.cut_removeChild h₁) hu)
      (Store.spares_replaceChild h₂ (.inr (.parent hpar₁))
        (by rw [Store.form?_removeChild h₁]; exact hpfold))).then hup₂
      (Store.spares_discard (.refl _))
    -- `only` hangs from `parent`, which was above it already
    have hup : ∀ x, Under (s₂.discard cur).parent? x parent → Under l.store.parent? x parent := by
      refine fun x hu => under_of_shortcut (fun y m hy => ?_) hu
      rw [Store.parent?_discard, Store.parent?_replaceChild h₂, Store.parent?_removeChild h₁]
        at hy
      by_cases hyc : cur = y
      · rw [if_pos hyc] at hy
        cases hy
      rw [if_neg hyc] at hy
      by_cases hyo : y = only
      · rw [if_pos hyo] at hy
        cases hy
        subst hyo
        exact .up hop (.parent hpar)
      rw [if_neg hyo, if_neg (Ne.symm hyc), if_neg hyo] at hy
      exact .parent hy
    simp only [ends_bind, ends_editWith, h₁, ends_edit, h₂, ends_onStore]
    refine ⟨hs₃, hsp, fun _ h _ => h, fun _ h => ?_⟩
    cases h
    exact ⟨⟨.parent hpar, hup⟩, hnotFrame (hf.mem_held_iff.mpr hpar)
      fun hl => hl.not_isContainer (.inr hsplit)⟩
  · -- anything else in the main window is folded when it holds only placeholders
    rw [ends_bind, ends_get]
    split
    · have hkeep : Ends (collapseEmpty cur) l (fun _ l' => ∃ s, l' = { l with store := s } ∧
          ∀ x, l.store.contains x = true → s.contains x = true) fun _ _ => True := by
        rw [collapseEmpty, ends_bind, ends_store]
        exact ends_collapseFrom_keeps _ cur
      dsimp only
      rw [ends_bind]
      refine ((ends_collapseEmpty hs hcon).and hkeep).mono (fun _ _ h => ?_) fun _ _ h => h.1
      obtain ⟨s, rfl, -⟩ := h.2
      exact ⟨h.1.1, h.1.2, fun _ h _ => h, fun _ h => by cases h⟩
    · exact hstay

/-- Tidying never fails; it keeps a layout sound and spares the node it starts from. A window
goes only when its folder is that node. -/
theorem ends_tidyFrom (k : Nat) : ∀ (cur : NodeId) {l : Layout} {E : List NodeId}, l.Sound E →
    Ends (tidyFrom k cur) l (fun _ l' => l'.Sound E ∧ l.store.Spares cur l'.store ∧
      ∀ win ∈ l.windows, win.folder ≠ cur → win ∈ l'.windows)
      fun _ _ => False := by
  induction k with
  | zero => exact fun cur l _ hs => ⟨hs, .refl _ _, fun _ h _ => h⟩
  | succ k ih =>
    intro cur l E hs
    rw [tidyFrom, ends_climbFrom_succ]
    refine (ends_tidyPass hs cur).mono (fun r l' h => ?_) fun _ _ h => h
    obtain ⟨hs', hsp, hwin, hnext⟩ := h
    cases r with
    | none => exact ⟨hs', hsp, hwin⟩
    | some next =>
      obtain ⟨hg, hframe⟩ := hnext next rfl
      exact (ih next hs').mono (fun _ _ h => ⟨h.1, hsp.trans_goesUp hg h.2.1,
        fun win hw hne => h.2.2 win (hwin win hw hne) (hframe win hw)⟩) fun _ _ h => h

theorem ends_tidy (hs : l.Sound E) (cur : NodeId) :
    Ends (tidy cur) l (fun _ l' => l'.Sound E ∧ l.store.Spares cur l'.store) fun _ _ => False := by
  rw [tidy, ends_bind, ends_store]
  exact (ends_tidyFrom _ cur hs).mono (fun _ _ h => ⟨h.1, h.2.1⟩) fun _ _ h => h

theorem ends_tidy_keepsWindows (hs : l.Sound E) (cur : NodeId) :
    Ends (tidy cur) l (fun _ l' => ∀ win ∈ l.windows, win.folder ≠ cur → win ∈ l'.windows)
      fun _ _ => False := by
  rw [tidy, ends_bind, ends_store]
  exact (ends_tidyFrom _ cur hs).mono (fun _ _ h => h.2.2) fun _ _ h => h

/-- A pass of tidying narrows the frame: the root and the editor area stay, and windows only
close or are parked. -/
theorem narrows_tidyPass (cur : NodeId) :
    Ends (tidyPass cur) l (fun _ l' => l.Narrows l') fun _ _ => True := by
  rw [tidyPass, ends_bind, ends_get]
  split
  · exact .refl l
  split
  · rw [ends_bind]
    exact (narrows_retireIfEmpty _).mono (fun _ _ h => h) fun _ _ _ => trivial
  split
  · -- an emptied parked window goes
    split
    · refine ⟨rfl, rfl, fun f hf => ?_⟩
      simp only [frames, List.mem_append] at hf ⊢
      rcases hf with hf | hf
      · exact .inl hf
      · exact .inr ((List.eraseIdx_sublist _ _).map _ |>.subset hf)
    · exact .refl l
  split
  · exact .refl l
  rw [ends_bind, ends_node]
  split
  · rw [ends_bind, ends_node]
    split
    · split
      · -- the edits below only change the table
        split
        · exact .refl l
        split
        · exact .refl l
        rw [ends_bind, ends_editWith]
        split
        · rw [ends_bind, ends_onStore]
          exact narrows_withStore l _
        · trivial
      split
      · rw [ends_bind, ends_editWith]
        split
        · rw [ends_bind, ends_onStore]
          exact narrows_withStore l _
        · trivial
      split
      · rw [ends_bind, ends_editWith]
        split
        · rw [ends_bind, ends_edit]
          split
          · rw [ends_bind, ends_onStore]
            exact narrows_withStore l _
          · trivial
        · trivial
      · rw [ends_bind, ends_get]
        split
        · dsimp only
          rw [ends_bind]
          exact (ends_collapseFrom_keeps _ _).mono (fun _ _ h => by
            obtain ⟨s, rfl, -⟩ := h
            exact narrows_withStore l s) fun _ _ _ => trivial
        · exact .refl l
    · trivial
  · trivial

/-- Tidying narrows the frame. -/
theorem narrows_tidyFrom (k : Nat) : ∀ (cur : NodeId) {l : Layout},
    Ends (tidyFrom k cur) l (fun _ l' => l.Narrows l') fun _ _ => True := by
  induction k with
  | zero => exact fun _ l => .refl l
  | succ k ih =>
    intro cur l
    rw [tidyFrom, ends_climbFrom_succ]
    refine (narrows_tidyPass cur).mono (fun r l' h => ?_) fun _ _ _ => trivial
    cases r with
    | none => exact h
    | some next => exact (ih next).mono (fun _ _ h' => h.trans h') fun _ _ _ => trivial

theorem narrows_tidy (cur : NodeId) :
    Ends (tidy cur) l (fun _ l' => l.Narrows l') fun _ _ => True := by
  rw [tidy, ends_bind, ends_store]
  exact narrows_tidyFrom _ cur

/-- Tidying from a folder that still holds a tab leaves the folder in the table: it is not
emptied, nor a one-child split, nor folded, since a tab of it is shown or it has a pane. -/
theorem ends_tidy_keepsFolder (hs : l.Sound E) {q : NodeId} (hq : l.store.form? q = some .folder)
    (hne : l.store.held q ≠ []) :
    Ends (tidy q) l (fun _ l' => l'.store.contains q = true) fun _ _ => True := by
  have hqc : l.store.contains q = true := Store.IsContainer.contains (.inl hq)
  have hch : (l.store.children q).isEmpty = false := by
    rw [← Store.held_eq_children (.inl hq)]
    simpa using hne
  rw [tidy, ends_bind, ends_store, Store.depthBound, tidyFrom, ends_climbFrom_succ, tidyPass,
    ends_bind, ends_get]
  split
  · exact hqc
  split
  · -- a window's folder: the window stays, or is parked with the folder
    next w hw =>
    have hwin : w ∈ l.windows := List.mem_of_find?_eq_some hw
    have hwf : w.folder = q := by simpa using List.find?_some hw
    rw [ends_bind, retireIfEmpty, ends_bind, ends_get, window?_eq hs hwin]
    dsimp only
    split
    · exact hqc
    · rw [hwf, hch, if_neg Bool.false_ne_true]
      exact hqc
  split
  · split
    · next hempty =>
      rw [hch] at hempty
      cases hempty
    · exact hqc
  split
  · exact hqc
  next parent hpar =>
  obtain ⟨n, hn⟩ := (Store.contains_iff _ _).mp hqc
  obtain ⟨pn, hpn⟩ := (Store.contains_iff _ _).mp (hs.forest.contains_of_parent hpar)
  have hnch : n.kind.children.isEmpty = false := by
    rw [Store.children, hn] at hch
    exact hch
  have hform : n.kind.form = .folder := by
    rw [Store.form?_of_get? hn] at hq
    exact Option.some.inj hq
  rw [ends_bind, ends_node_of hn, ends_bind, ends_node_of hpn]
  split
  · rw [hnch]
    exact hqc
  split
  · next hce =>
    rw [hnch, Bool.and_false] at hce
    cases hce
  split
  · next hk _ =>
    rw [hk] at hform
    cases hform
  · rw [ends_bind, ends_get]
    split
    · dsimp only
      rw [ends_bind]
      exact (ends_collapseFrom_keeps _ _).mono (fun _ _ h => by
        obtain ⟨s, rfl, hkeep⟩ := h
        exact hkeep q hqc) fun _ _ _ => trivial
    · exact hqc

/-- Taking a node out of its container is refused only before anything changes. Otherwise the
node joins the extra nodes, and what is not its container or above it is spared. -/
theorem ends_takeNode (hs : l.Sound E) (n : NodeId) :
    Ends (takeNode n) l (fun _ l' => l'.Sound (n :: E) ∧
      ∃ p, l.store.parent? n = some p ∧ l.store.Spares p l'.store) fun _ l' => l' = l := by
  rw [takeNode, ends_bind, ends_store]
  split
  · rfl
  next p hp =>
  rw [ends_bind, ends_editWith]
  split
  · next w s₁ h₁ =>
    have hs₁ := hs.removeChild h₁
    rw [ends_bind]
    refine (ends_tidy hs₁ p).mono (fun _ l' h => ⟨h.1, p, hp, ?_⟩) fun _ _ h => h.elim
    exact (Store.spares_removeChild h₁ (.refl _)).then
      (fun x hu => under_of_cut (Store.cut_removeChild h₁) hu) h.2
  · rfl

theorem ends_takeNode_linked (hs : l.Sound E) {n p : NodeId} (hp : l.store.parent? n = some p)
    (hpc : l.store.form? p ≠ some .collapsed) :
    Ends (takeNode n) l (fun _ _ => True) fun _ _ => False := by
  obtain ⟨w, s₁, h₁⟩ := Store.removeChild_ok (hs.holder_isContainer hp hpc)
    (hs.forest.mem_held_iff.mpr hp) (Store.contains_of_parent? hp)
  rw [takeNode, ends_bind, ends_store]
  simp only [hp]
  rw [ends_bind, ends_editWith_of_ok h₁, ends_bind]
  exact (ends_tidy (hs.removeChild h₁) p).mono (fun _ _ _ => trivial) fun _ _ h => h

theorem ends_takeNode_refused (hs : l.Sound E) (n : NodeId) :
    Ends (takeNode n) l (fun _ _ => True)
      fun _ _ => ∀ p, l.store.parent? n = some p → l.store.form? p = some .collapsed := by
  by_cases h : ∀ p, l.store.parent? n = some p → l.store.form? p = some .collapsed
  · exact (ends_takeNode hs n).mono (fun _ _ _ => trivial) fun _ _ _ => h
  · obtain ⟨p, hp⟩ := Classical.not_forall.mp h
    obtain ⟨hp, hpc⟩ := Classical.not_imp.mp hp
    exact (ends_takeNode_linked hs hp hpc).mono (fun _ _ _ => trivial) fun _ _ h => h.elim

/-- Taking a node out narrows the frame, and the folder it was a tab of stays in the table
when it holds another tab. -/
theorem ends_takeNode_frame (hs : l.Sound E) (n : NodeId) :
    Ends (takeNode n) l (fun _ l' => l.Narrows l' ∧ ∀ q, l.store.parent? n = some q →
      l.store.form? q = some .folder → l.store.held q ≠ [n] → l'.store.contains q = true)
      fun _ _ => True := by
  rw [takeNode, ends_bind, ends_store]
  split
  · trivial
  next p hp =>
  rw [ends_bind, ends_editWith]
  split
  · next w s₁ h₁ =>
    rw [ends_bind]
    by_cases hkeep : l.store.form? p = some .folder ∧ l.store.held p ≠ [n]
    · -- the folder keeps a tab once `n` left it
      obtain ⟨hq, hne⟩ := hkeep
      have hq₁ : s₁.form? p = some .folder := by rw [Store.form?_removeChild h₁, hq]
      have hne₁ : s₁.held p ≠ [] := by
        rw [Store.held_removeChild h₁, if_pos rfl]
        intro he
        rcases List.erase_eq_nil_iff.mp he with he | he
        · rw [← hs.forest.mem_held_iff, he] at hp
          cases hp
        · exact hne he
      refine ((narrows_tidy p).and (ends_tidy_keepsFolder (hs.removeChild h₁) hq₁ hne₁)).mono
        (fun _ _ h => ⟨⟨h.1.root, h.1.editorArea, h.1.frames⟩, fun q hq' _ _ => ?_⟩)
        fun _ _ _ => trivial
      rw [hp] at hq'
      cases hq'
      exact h.2
    · refine (narrows_tidy p).mono (fun _ _ h => ⟨⟨h.root, h.editorArea, h.frames⟩,
        fun q hq' hqf hqn => ?_⟩) fun _ _ _ => trivial
      rw [hp] at hq'
      cases hq'
      exact absurd ⟨hqf, hqn⟩ hkeep
  · trivial

/-- Taking a node out keeps every window but the one whose folder held it. -/
theorem ends_takeNode_keepsWindows (hs : l.Sound E) (n : NodeId) :
    Ends (takeNode n) l (fun _ l' => ∀ p, l.store.parent? n = some p →
      ∀ win ∈ l.windows, win.folder ≠ p → win ∈ l'.windows) fun _ _ => True := by
  rw [takeNode, ends_bind, ends_store]
  split
  · trivial
  next p hp =>
  rw [ends_bind, ends_editWith]
  split
  · next w s₁ h₁ =>
    rw [ends_bind]
    refine (ends_tidy_keepsWindows (hs.removeChild h₁) p).mono (fun _ _ h q hq => ?_)
      fun _ _ _ => trivial
    cases hp.symm.trans hq
    exact h
  · trivial

/-- The first edits of hiding the pane `n` of `p`: a new placeholder takes its slot, which
is never refused, and `n` is freed. They keep a layout sound, and `p` stays. -/
theorem sound_hidePane (hs : l.Sound E) (part : PartId) {n p : NodeId} {pn : Pane}
    (hnform : l.store.form? n = some (.pane pn)) (hpar : l.store.parent? n = some p) :
    ∃ s₂, (l.store.alloc part (.placeholder part)).2.replaceChild p n l.store.nextId = .ok s₂ ∧
      s₂.Forest ∧ ({ l with store := s₂.free n } : Layout).Sound E ∧
      (s₂.free n).contains p = true := by
  have hf := hs.forest
  have hnleaf : l.store.IsLeaf n := ⟨_, hnform, rfl⟩
  -- a collapsed node folds a container, never a pane
  have hpform : l.store.form? p ≠ some .collapsed := fun hpc =>
    hnleaf.not_isContainer (hs.fold_held p n hpc (hf.mem_held_iff.mpr hpar))
  have hpcont := hs.holder_isContainer hpar hpform
  have hpc : l.store.contains p = true := hf.contains_of_parent hpar
  have hnc : l.store.contains n = true := Store.contains_of_parent? hpar
  have hs₁ : ({ l with store := (l.store.alloc part (.placeholder part)).2 } :
      Layout).Sound (l.store.nextId :: E) := hs.alloc _ _ rfl rfl
  obtain ⟨s₂, h₂⟩ := Store.replaceChild_ok (hpcont.alloc part (.placeholder part))
    (by rw [Store.held_alloc_of_contains hpc]; exact hf.mem_held_iff.mpr hpar)
    ((Store.contains_alloc _ _ _ _).mpr (.inr hnc))
    ((Store.contains_alloc _ _ _ _).mpr (.inl rfl))
  have hform₁ : ∀ {x}, l.store.contains x = true →
      (l.store.alloc part (.placeholder part)).2.form? x = l.store.form? x :=
    fun hx => Store.form?_alloc_of_contains hx _ _
  -- the placeholder is a new leaf: it takes the slot without making a cycle
  have hs₂ := hs₁.replaceChild h₂ List.mem_cons_self (hf.not_under_alloc hpc)
    (fun _ => ⟨_, by rw [Store.form?_alloc, if_pos rfl], rfl⟩)
    (fun hcol => absurd ((hform₁ hpc).symm.trans hcol) hpform)
    (fun a ha hu => absurd hu (hf.not_under_alloc
      (Store.IsContainer.contains (.inr (hs.area a ha).1))))
  rw [List.erase_cons_head] at hs₂
  have hnform₂ : s₂.form? n = some (.pane pn) := by
    rw [Store.form?_replaceChild h₂, hform₁ hnc, hnform]
  have hs₃ := hs₂.free List.mem_cons_self (hs₂.not_under_area (by rw [hnform₂]; nofun))
  rw [List.erase_cons_head] at hs₃
  refine ⟨s₂, h₂, hs₂.forest, hs₃, ?_⟩
  have hleaf₂ : s₂.IsLeaf n := ⟨_, hnform₂, rfl⟩
  rw [hs₂.forest.contains_free, Store.contains_replaceChild h₂,
    (Store.contains_alloc _ _ _ _).mpr (.inr hpc)]
  simp only [Bool.and_true, Bool.not_eq_eq_eq_not, Bool.not_true, decide_eq_false_iff_not]
  rw [hs₂.forest.under_leaf_iff hleaf₂]
  exact hf.ne_of_parent hpar

/-- Hiding a pane keeps a layout sound: a placeholder takes the pane's slot, the pane goes,
and the window behind it is folded or closed when it shows no pane. It is refused only when
the part has no pane, after ending the zoom. -/
theorem ends_removePane_atomic (hs : l.Sound E) (part : PartId) :
    Ends (removePane part) l (fun _ l' => l'.Sound E)
      fun _ l' => l' = { l with zoomed := none } ∧ l.findPane part = none := by
  have hs₀ : ({ l with zoomed := none } : Layout).Sound E := hs.of_frames rfl rfl rfl rfl rfl rfl
  rw [removePane, ends_bind, ends_zoomOut, ends_bind, ends_get]
  split
  · next n hfind =>
    split
    · next parent hpar =>
      obtain ⟨pn, -, hnform⟩ := findPane_form hfind
      obtain ⟨s₂, h₂, -, hs₃, hpc₃⟩ := sound_hidePane hs₀ part hnform hpar
      simp only [ends_bind, ends_alloc, ends_onError, ends_edit, h₂, ends_onStore]
      split
      · rw [ends_bind]
        exact (ends_collapseEmpty hs₃ hpc₃).mono (fun _ _ h => h.1) fun _ _ h => h.elim
      · rw [ends_bind]
        exact (ends_retireIfEmpty hs₃ _).mono (fun _ _ h => h.1) fun _ _ h => h.elim
      · exact hs₃
    · -- the pane found lies below a window's root, so it has a container
      next hnone =>
      obtain ⟨p, hp⟩ := hs.linked_of_findPane hfind
      exact absurd hp (hnone p)
  · next hnone => exact ⟨rfl, Option.eq_none_iff_forall_ne_some.mpr fun n h => hnone n h⟩

theorem ends_removePane (hs : l.Sound E) (part : PartId) :
    Ends (removePane part) l (fun _ l' => l'.Sound E) fun _ l' => l'.Sound E :=
  (ends_removePane_atomic hs part).mono (fun _ _ h => h) fun _ _ h => by
    rw [h.1]
    exact hs.of_frames rfl rfl rfl rfl rfl rfl

/-- Disposing of a part keeps a layout sound: its pane or placeholder is taken out and freed.
It is refused only when the part has neither, after ending the zoom and dropping the part from
the fast views. -/
theorem ends_disposePane_atomic (hs : l.Sound E) (part : PartId) :
    Ends (disposePane part) l (fun _ l' => l'.Sound E)
      fun _ l' => l' = { l with zoomed := none, fastViews := l.fastViews.filter (· != part) } := by
  have hs₀ : ({ { l with zoomed := none } with fastViews := l.fastViews.filter (· != part) } :
      Layout).Sound E := hs.of_frames rfl rfl rfl rfl rfl rfl
  have hf := hs.forest
  rw [disposePane, ends_bind, ends_zoomOut, ends_bind, ends_dropFast, ends_bind, ends_get]
  split
  · next n hfind =>
    have hfind' : ((l.findPane part).orElse fun _ => l.findPlaceholder part) = some n := hfind
    have hleaf : l.store.IsLeaf n := by
      cases hp : l.findPane part with
      | some m =>
        rw [hp] at hfind'
        cases hfind'
        obtain ⟨_, -, h⟩ := findPane_form hp
        exact ⟨_, h, rfl⟩
      | none =>
        rw [hp] at hfind'
        exact ⟨_, findPlaceholder_form hfind', rfl⟩
    -- the node found lies below the root of a window, in a folder or a split
    obtain ⟨q, hq⟩ : ∃ q, l.store.parent? n = some q := by
      cases hp : l.findPane part with
      | some m =>
        rw [hp] at hfind'
        cases hfind'
        exact hs.linked_of_findPane hp
      | none =>
        rw [hp] at hfind'
        exact hs.linked_of_findPlaceholder hfind'
    have hqc : l.store.form? q ≠ some .collapsed := fun hc =>
      hleaf.not_isContainer (hs.fold_held q n hc (hf.mem_held_iff.mpr hq))
    rw [ends_bind]
    refine ((ends_takeNode hs₀ n).and (ends_takeNode_linked hs₀ hq hqc)).mono
      (fun _ l' h => ?_) fun _ _ h => h.2.elim
    obtain ⟨hs', p, hp, hsp⟩ := h.1
    -- the node taken out is not its container or above it: it keeps its form
    obtain ⟨-, hform, -⟩ := hsp.kept n (Store.contains_of_parent? hp) (hf.not_under_of_parent hp)
    obtain ⟨f, hfn, hfl⟩ := hleaf
    have hfree := hs'.free List.mem_cons_self (hs'.not_under_area fun h => by
      rw [hform, hfn] at h
      cases h
      cases hfl)
    rw [List.erase_cons_head] at hfree
    exact hfree
  · rfl

theorem ends_disposePane (hs : l.Sound E) (part : PartId) :
    Ends (disposePane part) l (fun _ l' => l'.Sound E) fun _ l' => l'.Sound E :=
  (ends_disposePane_atomic hs part).mono (fun _ _ h => h) fun _ _ h => by
    rw [h]
    exact hs.of_frames rfl rfl rfl rfl rfl rfl

end LayoutM

end Docking
