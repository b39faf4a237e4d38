import Docking.Proofs.Rooted.Hide
import Docking.Proofs.Tidying
import Docking.Proofs.FastViews
import Docking.Layout.Show
/-!
# Showing a pane keeps a layout planted

A new pane is a leaf, so it goes into any container without making a cycle: into the slot of
a placeholder (`replacePlaceholder`, which then unfolds what was folded above it), into the
workbook of the editor area, or at the end of the root split (`placeDefault`). The workbook,
when it has to be made, hangs below the marked node, which is never the new folder itself:
the mark names a slot of the table (`Layout.Planted`).

A view is shown without fail on every planted layout (`ends_addPane_planted`): a placeholder
of a shown window lies below the window's root, which is a container, so it has a container
whose slot the pane takes; and the root split takes a view at its end. Only an editor can be
refused, on its way into the editor area.
-/

namespace Docking

namespace Store

variable {s : Store}

theorem Forest.not_under_alloc_of_ne (hf : s.Forest) {ident : String} {kind : NodeKind}
    {y : NodeId} (hy : y ≠ s.nextId) : ¬ Under (s.alloc ident kind).2.parent? s.nextId y := by
  rintro (he | hu)
  · exact hy he.symm
  · obtain ⟨c, hc⟩ := hu.exists_child
    rw [parent?_alloc] at hc
    split at hc
    · cases hc
    · exact hf.parent_ne_nextId hc

end Store

namespace LayoutM

open Layout

variable {l : Layout} {E : List NodeId}

theorem ends_select_planted (hl : l.Planted E) {id : NodeId} (hid : l.store.Pickable id) :
    Ends (select id) l (fun _ l' => l'.Planted E) fun _ l' => l'.Planted E := by
  rw [ends_select]
  exact hl.sameShape (Store.sameShape_select _ _) (Store.size_select _ _) (hl.picked.select hid)

/-- One pass of unfolding gives a collapsed node's slot back to the node it folds; it never
fails, the collapsed node being held by its own container. -/
theorem ends_unfoldPass_planted (hl : l.Planted E) (cur : NodeId) :
    Ends (unfoldPass cur) l (fun _ l' => l'.Planted E) fun _ _ => False := by
  have hf := hl.rooted.forest
  rw [unfoldPass, ends_bind, ends_store]
  split
  · exact hl
  next parent hpar =>
  obtain ⟨pn, hpn⟩ := (Store.contains_iff _ _).mp (hf.contains_of_parent hpar)
  rw [ends_bind, ends_node_of hpn]
  split
  · next inner hk =>
    split
    · split
      · exact hl
      next grand hg =>
      have hpform : l.store.form? parent = some .collapsed := by
        rw [Store.form?_of_get? hpn, hk]
        rfl
      obtain ⟨s₁, h₁⟩ := Store.replaceChild_ok_of_held (hf.mem_held_iff.mpr hg)
        (hf.contains_of_parent hpar) (Store.contains_of_parent? hpar)
      simp only [ends_bind, ends_edit, h₁, ends_onStore]
      exact hl.unfold hpar hpform hg h₁
    · exact hl
  · exact hl

theorem ends_unfoldFrom_planted (k : Nat) : ∀ (cur : NodeId) {l : Layout}, l.Planted E →
    Ends (unfoldFrom k cur) l (fun _ l' => l'.Planted E) fun _ _ => False := by
  induction k with
  | zero => exact fun _ _ hl => hl
  | succ k ih =>
    intro cur l hl
    rw [unfoldFrom, ends_climbFrom_succ]
    refine (ends_unfoldPass_planted hl cur).mono (fun r l' h => ?_) fun _ _ h => h
    cases r with
    | none => exact h
    | some next => exact ih next h

theorem ends_unfoldAbove_planted (hl : l.Planted E) (n : NodeId) :
    Ends (unfoldAbove n) l (fun _ l' => l'.Planted E) fun _ _ => False := by
  rw [unfoldAbove, ends_bind, ends_store]
  exact ends_unfoldFrom_planted _ n hl

/-- A pane takes the slot of a placeholder, which goes; only a placeholder without a container
is refused, with nothing changed. -/
theorem ends_replacePlaceholder_planted (hl : l.Planted E) {holder : NodeId}
    (hh : l.store.IsLeaf holder) (pane : Pane) :
    Ends (replacePlaceholder holder pane) l (fun _ l' => l'.Planted E)
      fun _ l' => l'.Planted E ∧ l.store.parent? holder = none := by
  have hf := hl.rooted.forest
  rw [replacePlaceholder, ends_bind, ends_store]
  split
  · next parent hpar =>
    have hpc := hf.contains_of_parent hpar
    have hhc := Store.contains_of_parent? hpar
    have hl₁ := hl.alloc pane.part (.pane pane) rfl fun _ _ h => by cases h
    -- the placeholder is held by its container, so the pane takes its slot without fail
    have hmem : holder ∈ (l.store.alloc pane.part (.pane pane)).2.held parent := by
      rw [Store.held_alloc_of_contains hpc]
      exact hf.mem_held_iff.mpr hpar
    obtain ⟨s₂, h₂⟩ := Store.replaceChild_ok_of_held hmem
      ((Store.contains_alloc _ _ _ _).mpr (.inr hhc)) ((Store.contains_alloc _ _ _ _).mpr (.inl rfl))
    have hl₂ := hl₁.replaceChild h₂ List.mem_cons_self (hf.not_under_alloc hpc)
    rw [List.erase_cons_head] at hl₂
    have hheld : s₂.held holder = [] := by
      rw [Store.held_replaceChild h₂, if_neg (hf.ne_of_parent hpar),
        Store.held_alloc_of_contains hhc, Store.held_eq_nil_of_isLeaf hh]
    have hl₃ := hl₂.discard List.mem_cons_self hheld
    rw [List.erase_cons_head] at hl₃
    -- the new pane stays a pane through the unfolding, which only relinks and drops nodes
    have hQ := keptByTidying_pickable l.store.nextId
    have hpick : (s₂.discard holder).Pickable l.store.nextId :=
      hQ.thins (Store.thins_discard _ _) (hQ.thins (Store.thins_replaceChild h₂)
        (Store.pickable_of_form (by rw [Store.form?_alloc, if_pos rfl]; rfl) (.inr ⟨pane, rfl⟩)))
    simp only [ends_bind, ends_alloc, ends_onError, ends_edit, h₂, ends_onStore]
    exact ((ends_unfoldAbove_planted hl₃ _).and (hQ.keeps_unfoldAbove _ _ hpick)).mono
      (fun _ _ h => ends_select_planted h.1 h.2) fun _ _ h => h.1.elim
  · next hnone => exact ⟨hl, Option.eq_none_iff_forall_ne_some.mpr fun p h => hnone p h⟩

/-- The workbook of the editor area: the first folder below the marked node, or a new folder
at the marked node's end. The nodes of the table keep their forms. -/
theorem ends_workbook_planted (hl : l.Planted E) {area : NodeId} (ha : l.editorArea = some area) :
    Ends (workbook area) l
      (fun _ l' => l'.Planted E ∧ ∀ x, l.store.contains x = true → l'.store.form? x = l.store.form? x)
      fun _ l' => l'.Planted E ∧ ∀ x, l.store.contains x = true → l'.store.form? x = l.store.form? x := by
  have hf := hl.rooted.forest
  rw [workbook, ends_bind, ends_store]
  split
  · exact ⟨hl, fun _ _ => rfl⟩
  · have hl₁ := hl.alloc "workbook" .emptyFolder rfl fun _ _ h => by cases h; rfl
    have hform₁ : ∀ x, l.store.contains x = true →
        (l.store.alloc "workbook" .emptyFolder).2.form? x = l.store.form? x :=
      fun x hx => Store.form?_alloc_of_contains hx _ _
    rw [ends_bind, ends_alloc, ends_bind, ends_edit]
    split
    · next s₂ h₂ =>
      -- the new folder is not the marked node, and lies above nothing
      have hl₂ := hl₁.pushChild h₂ List.mem_cons_self
        (hf.not_under_alloc_of_ne (hl.area_ne_nextId ha))
      rw [List.erase_cons_head] at hl₂
      exact ⟨hl₂, fun x hx => (Store.form?_pushChild h₂ x).trans (hform₁ x hx)⟩
    · exact ⟨hl₁.tail, hform₁⟩

/-- A pane at its default place: the workbook for an editor when there is an editor area, the
end of the root split otherwise. Only an editor can be refused. -/
theorem ends_placeDefault_planted (hl : l.Planted E) (pane : Pane) :
    Ends (placeDefault pane) l (fun _ l' => l'.Planted E)
      fun _ l' => l'.Planted E ∧ pane.kind = .editor := by
  have hl₁ := hl.alloc pane.part (.pane pane) rfl fun _ _ h => by cases h
  have hnform : (l.store.alloc pane.part (.pane pane)).2.form? l.store.nextId = some (.pane pane) := by
    rw [Store.form?_alloc, if_pos rfl]
    rfl
  have hnc : (l.store.alloc pane.part (.pane pane)).2.contains l.store.nextId = true :=
    (Store.contains_alloc _ _ _ _).mpr (.inl rfl)
  rw [placeDefault, ends_bind, ends_alloc, ends_bind, ends_get, ends_bind, ends_onError]
  split
  · next area ha hk =>
    rw [ends_bind]
    refine (ends_workbook_planted hl₁ ha).mono (fun f l' h => ?_) fun _ l' h => ?_
    · -- the new pane is a leaf: it goes into the workbook without a cycle
      have hform := (h.2 _ hnc).trans hnform
      rw [ends_edit]
      split
      · next s₃ h₃ =>
        have hl₃ := h.1.pushLeaf h₃ List.mem_cons_self ⟨_, hform, rfl⟩
        rw [List.erase_cons_head] at hl₃
        rw [ends_bind]
        exact ends_select_planted hl₃
          (Store.pickable_of_form ((Store.form?_pushChild h₃ _).trans hform) (.inr ⟨pane, rfl⟩))
      · rw [ends_bind, ends_onStore, ends_throw]
        have hl₃ := h.1.discard List.mem_cons_self (Store.held_eq_nil_of_isLeaf ⟨_, hform, rfl⟩)
        rw [List.erase_cons_head] at hl₃
        exact ⟨hl₃, hk⟩
    · rw [ends_bind, ends_onStore, ends_throw]
      have hl₃ := h.1.discard List.mem_cons_self
        (Store.held_eq_nil_of_isLeaf ⟨_, (h.2 _ hnc).trans hnform, rfl⟩)
      rw [List.erase_cons_head] at hl₃
      exact ⟨hl₃, hk⟩
  · -- the root split takes the pane at its end
    obtain ⟨s₃, h₃⟩ := Store.pushChild_ok
      ((hl.rooted.top_isContainer List.mem_cons_self).alloc pane.part (.pane pane)) hnc
    have hl₃ := hl₁.pushLeaf h₃ List.mem_cons_self ⟨_, hnform, rfl⟩
    rw [List.erase_cons_head] at hl₃
    rw [ends_edit_of_ok h₃, ends_bind]
    exact ends_select_planted hl₃
      (Store.pickable_of_form ((Store.form?_pushChild h₃ _).trans hnform) (.inr ⟨pane, rfl⟩))

/-- Showing a pane keeps a layout planted. Only an editor can be refused: a placeholder of the
part lies below a window's root, so it has a container whose slot the pane takes, and a
parked window reopens only on a folder holding a placeholder of the part. -/
theorem ends_addPane_planted (hl : l.Planted E) (pane : Pane) :
    Ends (addPane pane) l (fun _ l' => l'.Planted E)
      fun _ l' => l'.Planted E ∧ pane.kind = .editor := by
  have hl₀ : ({ { l with zoomed := none } with
      fastViews := l.fastViews.filter (· != pane.part) } : Layout).Planted E :=
    hl.of_frames rfl rfl rfl rfl rfl rfl
  rw [addPane, ends_bind, ends_zoomOut, ends_bind, ends_dropFast, ends_bind, ends_get]
  split
  · exact hl₀
  split
  · -- the part left a placeholder in a shown window, whose root is a container
    next holder hfind =>
    obtain ⟨r, hr, hrh⟩ := List.exists_of_findSome?_eq_some hfind
    have hform := Store.findPlaceholder_form hrh
    obtain ⟨p, hp⟩ := hl₀.rooted.linked_of_walk (List.mem_of_find?_eq_some hrh) fun he => by
      have hc := hl₀.rooted.top_isContainer (mem_tops_of_windowRoots hr)
      rw [← he] at hc
      rcases hc with hc | hc <;> rw [hform] at hc <;> cases hc
    exact (ends_replacePlaceholder_planted hl₀ ⟨_, hform, rfl⟩ pane).mono (fun _ _ h => h)
      fun _ _ h => by rw [h.2] at hp; cases hp
  split
  · exact ends_placeDefault_planted hl₀ pane
  next i hi =>
  split
  · exact ends_placeDefault_planted hl₀ pane
  next w hw =>
  -- a parked window holding a placeholder of the part reopens
  obtain ⟨hlt, hpi, -⟩ := List.findIdx?_eq_some_iff_getElem.mp hi
  obtain ⟨_, hwi⟩ := List.getElem?_eq_some_iff.mp hw
  subst hwi
  have hl₁ := hl₀.unpark hlt
  have hfold := hl₀.rooted.frames_folders _ (List.mem_append_right _ (List.mem_map_of_mem
    (List.getElem_mem hlt)))
  rw [ends_bind, ends_set, ends_bind]
  refine (ends_openWindow_planted hl₁ List.mem_cons_self hfold _).mono (fun r l' hr => ?_)
    fun _ _ h => h.elim
  obtain ⟨hst, hl'⟩ := hr
  have hfold' : l'.store.form? _ = some .folder := hst ▸ hfold
  rw [ends_bind, ends_store]
  cases r with
  | some wid =>
    rw [if_pos Option.isSome_some, List.erase_cons_head] at hl'
    -- the table did not change, so the placeholder is still there
    obtain ⟨holder, hholder⟩ := Option.isSome_iff_exists.mp hpi
    have hholder' : l'.store.findPlaceholder _ pane.part = some holder := hst ▸ hholder
    simp only [Option.isSome_some, if_true, hholder']
    have hform := Store.findPlaceholder_form hholder'
    obtain ⟨p, hp⟩ := hl'.rooted.linked_of_walk (List.mem_of_find?_eq_some hholder') fun he => by
      rw [he, hfold'] at hform
      cases hform
    exact (ends_replacePlaceholder_planted hl' ⟨_, hform, rfl⟩ pane).mono (fun _ _ h => h)
      fun _ _ h => by rw [h.2] at hp; cases hp
  | none =>
    rw [if_neg (c := (none : Option WindowId).isSome = true) Bool.false_ne_true] at hl'
    -- the host refused a surface: the folder goes and the pane takes its default place
    simp only [Option.isSome_none, Bool.false_eq_true, if_false]
    rw [ends_bind, ends_onStore]
    have hfree := hl'.free List.mem_cons_self
    rw [List.erase_cons_head] at hfree
    exact ends_placeDefault_planted hfree pane

/-- A view is shown without fail on every planted layout. -/
theorem ends_addPane_view (hl : l.Planted E) (part : PartId) :
    Ends (addPane ⟨part, .view⟩) l (fun _ l' => l'.Planted E) fun _ _ => False :=
  (ends_addPane_planted hl _).mono (fun _ _ h => h) fun _ _ h => by cases h.2

end LayoutM

end Docking
