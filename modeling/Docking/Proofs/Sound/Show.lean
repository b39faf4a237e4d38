import Docking.Proofs.Sound.Hide
import Docking.Layout.Show
/-!
# Showing panes keeps a layout sound

A new pane is a leaf, so it goes into any folder or split without making a cycle: into the
slot of a placeholder (`replacePlaceholder`, which then unfolds what was folded above it),
into the workbook of the editor area, or at the end of the root split (`placeDefault`).
Unfolding gives a collapsed node's slot back to the container it folds (`Sound.unfold`).

A parked window reopens only on a folder that holds a placeholder of the part, which the
pane then takes; when the host refuses a surface, the folder is freed and the pane goes to
its default place.
-/

namespace Docking

namespace LayoutM

open Layout

variable {l : Layout} {E : List NodeId}

/-- One pass of unfolding never fails and keeps a layout sound. It goes on, if at all, closer
to the root: from the container, or from the same node once the collapsed node above it is
gone. -/
theorem ends_unfoldPass (hs : l.Sound E) (cur : NodeId) :
    Ends (unfoldPass cur) l (fun r l' => l'.Sound E ∧
      ∀ next, r = some next → l.store.Shallower l'.store cur next) fun _ _ => False := by
  have hf := hs.forest
  rw [unfoldPass, ends_bind, ends_store]
  split
  · exact ⟨hs, nofun⟩
  next parent hpar =>
  have hup : l.store.Shallower l.store cur parent := .of_parent hpar (hf.not_above_self parent)
  obtain ⟨pn, hpn⟩ := (Store.contains_iff _ _).mp (hf.contains_of_parent hpar)
  rw [ends_bind, ends_node_of hpn]
  split
  · next inner hk =>
    split
    · -- `cur` is what the collapsed node folds: it takes the collapsed node's slot
      split
      · exact ⟨hs, nofun⟩
      next grand hg =>
      have hpform : l.store.form? parent = some .collapsed := by
        rw [Store.form?_of_get? hpn, hk]
        rfl
      obtain ⟨s₁, h₁⟩ := Store.replaceChild_ok (hs.holder_of_collapsed hpform hg)
        (hf.mem_held_iff.mpr hg) (hf.contains_of_parent hpar) (Store.contains_of_parent? hpar)
      simp only [ends_bind, ends_edit, h₁, ends_onStore]
      refine ⟨hs.unfold hpar hpform hg h₁, fun _ h => ?_⟩
      cases h
      exact hf.shallower_unfold hpar hpform hg h₁
    · exact ⟨hs, fun _ h => by cases h; exact hup⟩
  · exact ⟨hs, fun _ h => by cases h; exact hup⟩

/-- Unfolding upward never fails and keeps a layout sound. -/
theorem ends_unfoldFrom (k : Nat) : ∀ (cur : NodeId) {l : Layout} {E : List NodeId}, l.Sound E →
    Ends (unfoldFrom k cur) l (fun _ l' => l'.Sound E) fun _ _ => False := by
  induction k with
  | zero => exact fun _ _ _ hs => hs
  | succ k ih =>
    intro cur l E hs
    rw [unfoldFrom, ends_climbFrom_succ]
    refine (ends_unfoldPass hs cur).mono (fun r l' h => ?_) fun _ _ h => h
    cases r with
    | none => exact h.1
    | some next => exact ih next h.1

theorem ends_unfoldAbove (hs : l.Sound E) (n : NodeId) :
    Ends (unfoldAbove n) l (fun _ l' => l'.Sound E) fun _ _ => False := by
  rw [unfoldAbove, ends_bind, ends_store]
  exact ends_unfoldFrom _ n hs

/-- A fresh pane takes the slot of a placeholder that has a container, and the placeholder
is dropped: the layout stays sound. -/
theorem sound_replaceHolder (hs : l.Sound E) {holder parent : NodeId} (hh : l.store.IsLeaf holder)
    (hpar : l.store.parent? holder = some parent) (pane : Pane) :
    ∃ s₂, (l.store.alloc pane.part (.pane pane)).2.replaceChild parent holder l.store.nextId =
      .ok s₂ ∧ ({ l with store := s₂.discard holder } : Layout).Sound E := by
  have hf := hs.forest
  -- a collapsed node folds a container, never a leaf
  have hpform : l.store.form? parent ≠ some .collapsed := fun hpc =>
    hh.not_isContainer (hs.fold_held parent holder hpc (hf.mem_held_iff.mpr hpar))
  have hpc := hf.contains_of_parent hpar
  have hhc := Store.contains_of_parent? hpar
  have hs₁ : ({ l with store := (l.store.alloc pane.part (.pane pane)).2 } : Layout).Sound
      (l.store.nextId :: E) := hs.alloc _ _ rfl rfl
  obtain ⟨s₂, h₂⟩ := Store.replaceChild_ok ((hs.holder_isContainer hpar hpform).alloc pane.part (.pane pane))
    (by rw [Store.held_alloc_of_contains hpc]; exact hf.mem_held_iff.mpr hpar)
    ((Store.contains_alloc _ _ _ _).mpr (.inr hhc))
    ((Store.contains_alloc _ _ _ _).mpr (.inl rfl))
  have hs₂ := hs₁.replaceChild h₂ List.mem_cons_self (hf.not_under_alloc hpc)
    (fun _ => ⟨_, by rw [Store.form?_alloc, if_pos rfl], rfl⟩)
    (fun hcol => absurd ((Store.form?_alloc_of_contains hpc _ _).symm.trans hcol) hpform)
    (fun a ha hu => absurd hu (hf.not_under_alloc
      (Store.IsContainer.contains (.inr (hs.area a ha).1))))
  rw [List.erase_cons_head] at hs₂
  -- the placeholder, now out of the tree, goes
  have hheld : s₂.held holder = [] := by
    rw [Store.held_replaceChild h₂, if_neg (hf.ne_of_parent hpar),
      Store.held_alloc_of_contains hhc, Store.held_eq_nil_of_isLeaf hh]
  have harea : l.editorArea ≠ some holder := fun ha => by
    obtain ⟨f, hf', hl⟩ := hh
    rw [(hs.area holder ha).1] at hf'
    cases hf'
    cases hl
  have hs₃ := hs₂.discard List.mem_cons_self hheld harea
  rw [List.erase_cons_head] at hs₃
  exact ⟨s₂, h₂, hs₃⟩

/-- A pane takes the slot of a placeholder; only a placeholder without a container is
refused, with nothing changed. -/
theorem ends_replacePlaceholder (hs : l.Sound E) {holder : NodeId} (hh : l.store.IsLeaf holder)
    (pane : Pane) :
    Ends (replacePlaceholder holder pane) l (fun _ l' => l'.Sound E)
      fun _ l' => l' = l ∧ l.store.parent? holder = none := by
  rw [replacePlaceholder, ends_bind, ends_store]
  split
  · next parent hpar =>
    obtain ⟨s₂, h₂, hs₃⟩ := sound_replaceHolder hs hh hpar pane
    simp only [ends_bind, ends_alloc, ends_onError, ends_edit, h₂, ends_onStore]
    refine (ends_unfoldAbove hs₃ _).mono (fun _ l' h => ?_) fun _ _ h => h.elim
    rw [ends_select]
    exact h.sameShape (Store.sameShape_select _ _) (h.aligned.select _)
  · next hnone => exact ⟨rfl, Option.eq_none_iff_forall_ne_some.mpr fun p h => hnone p h⟩

/-- The workbook of the editor area is a folder; finding or making it never fails, and every
node keeps its form. -/
theorem ends_workbook (hs : l.Sound E) {area : NodeId} (ha : l.editorArea = some area) :
    Ends (workbook area) l (fun f l' => l'.Sound E ∧ l'.store.form? f = some .folder ∧
      ∀ x, l.store.contains x = true → l'.store.form? x = l.store.form? x) fun _ _ => False := by
  have hf := hs.forest
  rw [workbook, ends_bind, ends_store]
  split
  · next f hfind =>
    exact ⟨hs, Store.form?_of_isFolder (List.find?_some hfind), fun _ _ => rfl⟩
  · have hsplit := (hs.area area ha).1
    have hac : l.store.contains area = true := Store.IsContainer.contains (.inr hsplit)
    have hs₁ : ({ l with store := (l.store.alloc "workbook" .emptyFolder).2 } : Layout).Sound
        (l.store.nextId :: E) := hs.alloc _ _ rfl rfl
    obtain ⟨s₂, h₂⟩ := Store.pushChild_ok (Store.IsContainer.alloc (.inr hsplit) "workbook" .emptyFolder)
      ((Store.contains_alloc _ _ _ _).mpr (.inl rfl))
    have hs₂ := hs₁.pushChild h₂ List.mem_cons_self (hf.not_under_alloc hac)
      (fun hfa => by
        rw [Store.form?_alloc_of_contains hac, hsplit] at hfa
        cases hfa)
      (fun a ha' hu => absurd hu (hf.not_under_alloc
        (Store.IsContainer.contains (.inr (hs.area a ha').1))))
    rw [List.erase_cons_head] at hs₂
    simp only [ends_bind, ends_alloc, ends_edit, h₂]
    refine ⟨hs₂, ?_, fun x hx => ?_⟩
    · rw [Store.form?_pushChild h₂, Store.form?_alloc, if_pos rfl]
      rfl
    · rw [Store.form?_pushChild h₂, Store.form?_alloc_of_contains hx]

/-- A pane at its default place: the workbook for an editor when there is an editor area,
the end of the root split otherwise. It is never refused. -/
theorem ends_placeDefault (hs : l.Sound E) (pane : Pane) :
    Ends (placeDefault pane) l (fun _ l' => l'.Sound E) fun _ _ => False := by
  have hf := hs.forest
  have hs₁ : ({ l with store := (l.store.alloc pane.part (.pane pane)).2 } : Layout).Sound
      (l.store.nextId :: E) := hs.alloc _ _ rfl rfl
  have hnform : (l.store.alloc pane.part (.pane pane)).2.form? l.store.nextId =
      some (.pane pane) := by
    rw [Store.form?_alloc, if_pos rfl]
    rfl
  rw [placeDefault, ends_bind, ends_alloc, ends_bind, ends_get, ends_bind, ends_onError]
  split
  · next area ha hk =>
    rw [ends_bind]
    refine (ends_workbook hs₁ ha).mono (fun f l' h => ?_) fun _ _ h => h.elim
    obtain ⟨hs', hfold, hkeep⟩ := h
    have hnc := (hs'.top_of_mem (hs'.extra_mem List.mem_cons_self)).1
    have hnform' := (hkeep _ ((Store.contains_alloc _ _ _ _).mpr (.inl rfl))).trans hnform
    have hleaf : l'.store.IsLeaf l.store.nextId := ⟨_, hnform', rfl⟩
    obtain ⟨s₃, h₃⟩ := Store.pushChild_ok (.inl hfold) hnc
    -- the new pane is a leaf and not the folder: it goes in without a cycle
    have hs₃ := hs'.pushChild h₃ List.mem_cons_self
      (fun hu => by
        rw [hs'.forest.under_leaf_iff hleaf] at hu
        rw [hu, hfold] at hnform'
        cases hnform')
      (fun _ => hleaf)
      (fun a ha' hu => by
        rw [hs'.forest.under_leaf_iff hleaf] at hu
        rw [hu, (hs'.area a ha').1] at hnform'
        cases hnform')
    rw [List.erase_cons_head] at hs₃
    simp only [ends_edit, h₃, ends_bind, ends_select]
    exact hs₃.sameShape (Store.sameShape_select _ _) (hs₃.aligned.select _)
  · have hrc : l.store.contains l.root = true := (hs.top_of_mem hs.root_mem).1
    have hleaf : (l.store.alloc pane.part (.pane pane)).2.IsLeaf l.store.nextId := ⟨_, hnform, rfl⟩
    obtain ⟨s₃, h₃⟩ := Store.pushChild_ok
      (Store.IsContainer.alloc (.inr hs.root_split) pane.part (.pane pane))
      ((Store.contains_alloc _ _ _ _).mpr (.inl rfl))
    have hs₃ := hs₁.pushChild h₃ List.mem_cons_self (hf.not_under_alloc hrc)
      (fun hrf => by
        rw [Store.form?_alloc_of_contains hrc, hs.root_split] at hrf
        cases hrf)
      (fun a ha' hu => absurd hu (hf.not_under_alloc
        (Store.IsContainer.contains (.inr (hs.area a ha').1))))
    rw [List.erase_cons_head] at hs₃
    simp only [ends_edit, h₃, ends_bind, ends_select]
    exact hs₃.sameShape (Store.sameShape_select _ _) (hs₃.aligned.select _)

/-- Showing a pane keeps a layout sound, and it is never refused: a placeholder of the part
lies below a window's root, so it has a container whose slot the pane takes. A parked window
reopens only on a folder holding a placeholder of the part. -/
theorem ends_addPane_total (hs : l.Sound E) (pane : Pane) :
    Ends (addPane pane) l (fun _ l' => l'.Sound E) fun _ _ => False := by
  have hs₀ : ({ { l with zoomed := none } with
      fastViews := l.fastViews.filter (· != pane.part) } : Layout).Sound E :=
    hs.of_frames rfl rfl rfl rfl rfl rfl
  rw [addPane, ends_bind, ends_zoomOut, ends_bind, ends_dropFast, ends_bind, ends_get]
  split
  · exact hs₀
  split
  · -- the part left a placeholder in a shown window
    next holder hfind =>
    obtain ⟨r, hr, hrh⟩ := List.exists_of_findSome?_eq_some hfind
    have hleaf : l.store.IsLeaf holder := ⟨_, Store.findPlaceholder_form hrh, rfl⟩
    obtain ⟨p, hp⟩ := hs.linked_of_walk (hs.top_isContainer (mem_tops_of_windowRoots hr))
      (List.mem_of_find?_eq_some hrh) hleaf
    exact (ends_replacePlaceholder hs₀ hleaf pane).mono (fun _ _ h => h) fun _ _ h => by
      rw [h.2] at hp
      cases hp
  split
  · exact ends_placeDefault hs₀ pane
  next i hi =>
  split
  · exact ends_placeDefault hs₀ pane
  next w hw =>
  -- a parked window holding a placeholder of the part reopens
  obtain ⟨hlt, hpi, -⟩ := List.findIdx?_eq_some_iff_getElem.mp hi
  obtain ⟨_, hwi⟩ := List.getElem?_eq_some_iff.mp hw
  subst hwi
  have hs₁ := hs₀.unpark hlt
  have hfold := hs₀.frames_folders _ (List.mem_append_right _ (List.mem_map_of_mem
    (List.getElem_mem hlt)))
  rw [ends_bind, ends_set, ends_bind]
  refine (ends_openWindow hs₁ List.mem_cons_self hfold _).mono (fun r l' hr => ?_)
    fun _ _ h => h.elim
  obtain ⟨hst, -, -, hs'⟩ := hr
  rw [ends_bind, ends_store]
  cases r with
  | some wid =>
    rw [if_pos Option.isSome_some, List.erase_cons_head] at hs'
    -- the table did not change, so the placeholder is still there
    obtain ⟨holder, hholder⟩ := Option.isSome_iff_exists.mp hpi
    have hholder' : l'.store.findPlaceholder _ pane.part = some holder := hst ▸ hholder
    simp only [Option.isSome_some, if_true, hholder']
    have hleaf : l'.store.IsLeaf holder := ⟨_, Store.findPlaceholder_form hholder', rfl⟩
    obtain ⟨p, hp⟩ := hs'.linked_of_walk (.inl (hst ▸ hfold)) (List.mem_of_find?_eq_some hholder')
      hleaf
    exact (ends_replacePlaceholder hs' hleaf pane).mono (fun _ _ h => h) fun _ _ h => by
      rw [h.2] at hp
      cases hp
  | none =>
    rw [if_neg (c := (none : Option WindowId).isSome = true) Bool.false_ne_true] at hs'
    -- the host refused a surface: the folder goes and the pane takes its default place
    simp only [Option.isSome_none, Bool.false_eq_true, if_false]
    rw [ends_bind, ends_onStore]
    have hfold' : l'.store.form? _ = some .folder := hst ▸ hfold
    have hfree := hs'.free List.mem_cons_self (hs'.not_under_area (by rw [hfold']; nofun))
    rw [List.erase_cons_head] at hfree
    exact ends_placeDefault hfree pane

theorem ends_addPane (hs : l.Sound E) (pane : Pane) :
    Ends (addPane pane) l (fun _ l' => l'.Sound E) fun _ l' => l'.Sound E :=
  (ends_addPane_total hs pane).mono (fun _ _ h => h) fun _ _ h => h.elim

end LayoutM

end Docking
