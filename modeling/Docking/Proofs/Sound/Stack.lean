import Docking.Proofs.Sound.Move
/-!
# Stacking and detaching keep a layout sound

Stacking puts a pane, or the tabs of a folder, into a target folder: the reference node's
folder, or a new folder that takes the reference's slot (`targetFolder`). Detaching puts it
into the folder of a new detached window. Both end in `moveInto`, which needs the target to be
a folder that does not already hold the moving pane; a pane then leaves its container, and
the target survives the tidying behind it because a folder's tabs are panes and
placeholders, never the container of anything.
-/

namespace Docking

namespace Store

/-- A node is folded when its container is a collapsed node: it is what that node hides. -/
def Folded (s : Store) (n : NodeId) : Prop :=
  ∃ p, s.parent? n = some p ∧ s.form? p = some .collapsed

end Store

namespace Layout

variable {l : Layout} {E : List NodeId}

theorem Sound.not_folded_of_leaf (hs : l.Sound E) {n : NodeId} (hn : l.store.IsLeaf n) :
    ¬ l.store.Folded n := fun ⟨p, hp, hpc⟩ =>
  hn.not_isContainer (hs.fold_held p n hpc (hs.forest.mem_held_iff.mpr hp))

theorem Sound.not_folded_or_loose (hs : l.Sound E) {n : NodeId} (hw : (l.windowOf n).isSome)
    (hnf : ¬ l.store.Folded n) : ¬ (l.store.Folded n ∨ l.store.parent? n = none ∧ l.store.IsLeaf n) := by
  rintro (h | ⟨hnone, hleaf⟩)
  · exact hnf h
  · obtain ⟨p, hp⟩ := hs.linked_of_windowOf hw hleaf
    rw [hp] at hnone
    cases hnone

end Layout

namespace Store

theorem folded_or_loose_congr {s s' : Store} (hf : s.Forest) {n : NodeId}
    (hp : s'.parent? n = s.parent? n) (hform : ∀ x, s.contains x = true → s'.form? x = s.form? x)
    (hn : s.contains n = true) (h : s'.Folded n ∨ s'.parent? n = none ∧ s'.IsLeaf n) :
    s.Folded n ∨ s.parent? n = none ∧ s.IsLeaf n := by
  rcases h with ⟨q, hq, hqc⟩ | ⟨hnone, hleaf⟩
  · rw [hp] at hq
    rw [hform q (hf.contains_of_parent hq)] at hqc
    exact .inl ⟨q, hq, hqc⟩
  · exact .inr ⟨hp ▸ hnone, (IsLeaf.congr (hform n hn)).mp hleaf⟩

end Store

namespace LayoutM

open Layout

variable {l : Layout} {E : List NodeId}

/-- The folder to stack into beside a pane or a folder is refused only for a pane without a
container, before anything changes. It is the reference itself or the reference's folder, or
a new folder holding only the reference, in the reference's slot; the other nodes keep their
forms and their containers, and only the node table changes. -/
theorem ends_targetFolder (hs : l.Sound E) {reference : NodeId} (href : l.store.Movable reference) :
    Ends (targetFolder reference) l (fun f l' =>
      (l' = l ∧ l.store.form? f = some .folder ∧
        (f = reference ∨ l.store.parent? reference = some f)) ∨
      (l'.Sound E ∧ l'.store.form? f = some .folder ∧ l.store.contains f = false ∧
        (∀ x, l.store.contains x = true → l'.store.form? x = l.store.form? x) ∧
        (∀ x, l'.store.parent? x = some f → x = reference) ∧
        (∀ x, l.store.contains x = true → x ≠ reference → l'.store.parent? x = l.store.parent? x) ∧
        l'.store.children f = [reference] ∧
        (∀ x, l.store.contains x = true → l.store.parent? reference ≠ some x →
          l'.store.kindOf x = l.store.kindOf x) ∧
        l.store.isFolder reference = false ∧ l.folderOf reference = none ∧
        l' = { l with store := l'.store }))
      fun _ l' => l' = l := by
  have hf := hs.forest
  obtain ⟨rn, hrn⟩ := (Store.contains_iff _ _).mp href.contains
  rw [targetFolder, ends_bind, ends_node_of hrn]
  split
  · next hfold =>
    exact .inl ⟨rfl, Store.form?_of_isFolder (by simp [Store.isFolder, hrn, hfold]), .inl rfl⟩
  · next hnotfold =>
    rw [ends_bind, ends_get]
    split
    · next f hf' =>
      obtain ⟨hpar, hff⟩ := Option.filter_eq_some_iff.mp hf'
      exact .inl ⟨rfl, Store.form?_of_isFolder hff, .inr hpar⟩
    · next hnone =>
      split
      · next parent hpar =>
        -- the reference is a pane: a new folder takes its slot and holds it
        have hpane : ∃ p, l.store.form? reference = some (.pane p) := by
          rcases href with h | h
          · rw [Store.form?_of_get? hrn] at h
            cases hk : rn.kind <;> simp_all [NodeKind.form, NodeKind.isFolder]
          · exact h
        obtain ⟨pane, hpane⟩ := hpane
        have hleaf : l.store.IsLeaf reference := ⟨_, hpane, rfl⟩
        have hpf : l.store.form? parent ≠ some .folder := fun h => hnone parent (by
          rw [folderOf, hpar, Option.filter_some, if_pos (Store.isFolder_of_form? h)])
        have hpc : l.store.contains parent = true := hf.contains_of_parent hpar
        obtain ⟨ident, hid⟩ := Store.allocContainer_eq l.store .emptyFolder
        have hs₁ : ({ l with store := (l.store.alloc ident .emptyFolder).2 } : Layout).Sound
            (l.store.nextId :: E) := hs.alloc _ _ rfl rfl
        have hfold₁ : (l.store.alloc ident .emptyFolder).2.form? l.store.nextId = some .folder := by
          rw [Store.form?_alloc, if_pos rfl]
          rfl
        have hpar₁ : (l.store.alloc ident .emptyFolder).2.parent? reference = some parent := by
          rw [Store.parent?_alloc, if_neg (Store.ne_nextId_of_contains href.contains)]
          exact hpar
        rw [ends_bind, ends_allocContainer, hid, ends_bind, ends_onError]
        -- the reference is held by its container, which the new folder then holds instead
        have hheld₁ : reference ∈ (l.store.alloc ident .emptyFolder).2.held parent := by
          rw [Store.held_alloc_of_contains hpc]
          exact hf.mem_held_iff.mpr hpar
        obtain ⟨s₂, h₂⟩ := Store.replaceChild_ok_of_held hheld₁
          ((Store.contains_alloc _ _ _ _).mpr (.inr href.contains))
          ((Store.contains_alloc _ _ _ _).mpr (.inl rfl))
        have hs₂ := hs₁.replaceChild h₂ List.mem_cons_self (hf.not_under_alloc hpc)
          (fun h => absurd ((Store.form?_alloc_of_contains hpc _ _).symm.trans h) hpf)
          (fun _ => .inl hfold₁)
          (fun a ha hu => absurd hu (hf.not_under_alloc
            (Store.IsContainer.contains (.inr (hs.area a ha).1))))
        rw [List.erase_cons_head] at hs₂
        have hfold₂ : s₂.form? l.store.nextId = some .folder := by
          rw [Store.form?_replaceChild h₂, hfold₁]
        have hleaf₂ : s₂.IsLeaf reference := (Store.IsLeaf.congr ((Store.form?_replaceChild h₂ _).trans
          (Store.form?_alloc_of_contains href.contains _ _))).mpr hleaf
        obtain ⟨s₃, h₃⟩ := Store.pushChild_ok (.inl hfold₂)
          (by rw [Store.contains_replaceChild h₂]
              exact (Store.contains_alloc _ _ _ _).mpr (.inr href.contains))
        -- the reference is a leaf out of the tree: it goes into the new folder without a cycle
        have hs₃ := hs₂.pushChild h₃ List.mem_cons_self
          (by
            rw [hs₂.forest.under_leaf_iff hleaf₂]
            exact Store.ne_nextId_of_contains href.contains)
          (fun _ => hleaf₂)
          (fun a ha hu => by
            rw [hs₂.forest.under_leaf_iff hleaf₂] at hu
            have hsplit := (hs₂.area a ha).1
            rw [← hu] at hsplit
            exact absurd (.inr hsplit) hleaf₂.not_isContainer)
        rw [List.erase_cons_head] at hs₃
        rw [ends_edit_of_ok h₂, ends_bind, ends_edit_of_ok h₃, ends_pure]
        refine .inr ⟨hs₃, by rw [Store.form?_pushChild h₃]; exact hfold₂,
          Store.contains_nextId _, fun x hx => ?_, fun x hx => ?_, fun x hx hxr => ?_, ?_,
          fun x hx hxp => ?_, by simp [Store.isFolder, hrn, hnotfold], ?_, rfl⟩
        · rw [Store.form?_pushChild h₃, Store.form?_replaceChild h₂,
            Store.form?_alloc_of_contains hx]
        · rw [Store.parent?_pushChild h₃] at hx
          by_cases hxr : x = reference
          · exact hxr
          · rw [if_neg hxr, Store.parent?_replaceChild h₂] at hx
            split at hx
            · cases hx
              exact absurd rfl (Store.ne_nextId_of_contains hpc)
            · rw [Store.parent?_alloc] at hx
              split at hx
              · cases hx
              · exact absurd rfl (Store.ne_nextId_of_contains (hf.contains_of_parent hx))
        · have hxn : x ≠ l.store.nextId := Store.ne_nextId_of_contains hx
          rw [Store.parent?_pushChild h₃, if_neg hxr, Store.parent?_replaceChild h₂, if_neg hxn,
            if_neg hxr, Store.parent?_alloc, if_neg hxn]
        · -- the new folder holds the reference only
          rw [← Store.held_eq_children (.inl (by rw [Store.form?_pushChild h₃]; exact hfold₂)),
            Store.held_pushChild h₃, if_pos rfl, Store.held_replaceChild h₂,
            if_neg (Store.ne_nextId_of_contains hpc).symm, Store.held_alloc, if_pos rfl]
          rfl
        · -- only the reference's container and the new folder change their kinds
          have hxn : x ≠ l.store.nextId := Store.ne_nextId_of_contains hx
          have hxp' : parent ≠ x := fun h => hxp (by rw [← h]; exact hpar)
          rw [Store.kindOf_pushChild h₃ hxn.symm, Store.kindOf_replaceChild h₂ hxp',
            Store.kindOf_alloc_of_ne _ _ _ hxn]
        · cases h : l.folderOf reference with
          | none => rfl
          | some f => exact absurd h (hnone f)
      · rw [ends_throw]

/-- Moving a pane, or the tabs of a folder, into a folder that does not hold the pane yet
keeps a layout sound. It is refused only when `source` is folded, or is a pane without a
container; the layout then stays sound. -/
theorem ends_moveInto (hs : l.Sound E) {source f : NodeId} (hsrc : l.store.Movable source)
    (hf : l.store.form? f = some .folder) (hne : source ≠ f)
    (hnot : l.store.parent? source ≠ some f) :
    Ends (moveInto source f) l (fun _ l' => l'.Sound E) fun _ l' => l'.Sound E ∧
      (l.store.Folded source ∨ l.store.parent? source = none ∧ l.store.IsLeaf source) := by
  have hfo := hs.forest
  obtain ⟨sn, hsn⟩ := (Store.contains_iff _ _).mp hsrc.contains
  rw [moveInto, ends_bind, ends_node_of hsn]
  split
  · -- a folder hands its tabs over, then goes
    next hfold =>
    rw [ends_bind]
    refine (ends_transferTabs hs hsrc hf hne).mono (fun _ l₂ h => ?_) fun _ _ h => h.elim
    obtain ⟨s₂, rfl, hs₂, hform₂, hheld₂, -⟩ := h
    have hempty : s₂.held source = [] := by rw [hheld₂, if_pos rfl]
    have hsf₂ : s₂.form? source = some .folder := by
      rw [hform₂]
      exact Store.form?_of_isFolder (by simp [Store.isFolder, hsn, hfold])
    -- the folder keeps its container: it was no tab of `f`, and holds nothing now
    have hpar₂ : ∀ p, s₂.parent? source = some p → l.store.parent? source = some p := by
      intro p hp
      have hmem := hs₂.forest.mem_held_iff.mpr hp
      rw [hheld₂] at hmem
      by_cases hps : p = source
      · rw [if_pos hps] at hmem
        cases hmem
      rw [if_neg hps] at hmem
      by_cases hpf : p = f
      · rw [if_pos hpf] at hmem
        rcases List.mem_append.mp hmem with h | h
        · exact absurd (hfo.held_parent h) hnot
        · exact absurd (hfo.held_parent h) (fun h' => hfo.ne_of_parent h' rfl)
      · rw [if_neg hpf] at hmem
        exact hfo.held_parent hmem
    rw [ends_bind, ends_store]
    split
    · next hsome =>
      obtain ⟨p, hp⟩ := Option.isSome_iff_exists.mp hsome
      rw [ends_bind]
      refine ((ends_takeNode hs₂ source).and (ends_takeNode_refused hs₂ source)).mono
        (fun _ l₃ h => ?_) fun _ l₃ h => ?_
      · obtain ⟨hs₃, p, hp, hsp⟩ := h.1
        obtain ⟨-, hform₃, hheld₃⟩ := hsp.kept source (Store.contains_of_parent? hp)
          (hs₂.forest.not_under_of_parent hp)
        rw [ends_onStore]
        have hdrop := hs₃.discard List.mem_cons_self (by rw [hheld₃, hempty]) fun ha => by
          have hsplit := (hs₃.area _ ha).1
          rw [hform₃, hsf₂] at hsplit
          cases hsplit
        rwa [List.erase_cons_head] at hdrop
      · -- refused: the folder's container is a collapsed node
        rw [h.1]
        exact ⟨hs₂, .inl ⟨p, hpar₂ p hp, by rw [← hform₂]; exact h.2 p hp⟩⟩
    · exact (ends_tidy hs₂ source).mono (fun _ _ h => h.1) fun _ _ h => h.elim
  · -- a pane leaves its container for the folder
    next hnotfold =>
    have hleaf : l.store.IsLeaf source := by
      rcases hsrc with h | ⟨p, h⟩
      · rw [Store.form?_of_get? hsn] at h
        cases hk : sn.kind <;> simp_all [NodeKind.form, NodeKind.isFolder]
      · exact ⟨_, h, rfl⟩
    rw [ends_bind]
    refine ((ends_takeNode hs source).and (ends_takeNode_refused hs source)).mono
      (fun _ l₃ h => ?_) fun _ l₃ h => ?_
    · obtain ⟨hs₃, p, hp, hsp⟩ := h.1
      -- the folder is neither the pane's container nor above it: its tabs hold nothing
      have hfp : ¬ Under l.store.parent? f p := by
        rintro (h | h)
        · exact hnot (h ▸ hp)
        · obtain ⟨c, hc, hcp⟩ := h.exists_child_under
          have hcleaf := hs.tabs_leaves f c hf (hfo.mem_held_iff.mpr hc)
          rw [hfo.under_leaf_iff hcleaf] at hcp
          have hmem := hfo.mem_held_iff.mpr hp
          rw [← hcp, Store.held_eq_nil_of_isLeaf hcleaf] at hmem
          cases hmem
      obtain ⟨-, hff₃, -⟩ := hsp.kept f (Store.IsContainer.contains (.inl hf)) hfp
      obtain ⟨-, hsf₃, -⟩ := hsp.kept source hsrc.contains (hfo.not_under_of_parent hp)
      have hleaf₃ : l₃.store.IsLeaf source := (Store.IsLeaf.congr hsf₃).mpr hleaf
      obtain ⟨s₄, h₄⟩ := Store.pushChild_ok (.inl (hff₃.trans hf))
        (hs₃.top_of_mem (hs₃.extra_mem List.mem_cons_self)).1
      have hs₄ := hs₃.pushChild h₄ List.mem_cons_self
        (by
          rw [hs₃.forest.under_leaf_iff hleaf₃]
          exact hne)
        (fun _ => hleaf₃)
        (fun a ha hu => by
          rw [hs₃.forest.under_leaf_iff hleaf₃] at hu
          have hsplit := (hs₃.area a ha).1
          rw [← hu] at hsplit
          exact absurd (.inr hsplit) hleaf₃.not_isContainer)
      rw [List.erase_cons_head] at hs₄
      rw [ends_bind, ends_edit_of_ok h₄, ends_bind, ends_select, ends_pure]
      exact hs₄.sameShape (Store.sameShape_select _ _) (hs₄.aligned.select _)
    · -- refused: the pane has no container, or a collapsed one
      rw [h.1]
      refine ⟨hs, ?_⟩
      cases hp : l.store.parent? source with
      | none => exact .inr ⟨rfl, hleaf⟩
      | some p => exact .inl ⟨p, hp, h.2 p hp⟩

/-- Stacking a node into the folder of another keeps a layout sound. Unless the node is a
folded pane or folder, a refusal comes from the checks only, after ending the zoom: a pane of a
shown window has a container, and the folder found to stack into keeps it. -/
theorem ends_stackNode_atomic (hs : l.Sound E) (source reference : NodeId) :
    Ends (stackNode source reference) l (fun _ l' => l'.Sound E)
      fun _ l' => l'.Sound E ∧
        ((l.store.Movable source → ¬ l.store.Folded source) → l' = { l with zoomed := none }) := by
  have hs₀ : ({ l with zoomed := none } : Layout).Sound E := hs.of_frames rfl rfl rfl rfl rfl rfl
  rw [stackNode, ends_bind, ends_zoomOut]
  generalize hl₀ : ({ l with zoomed := none } : Layout) = l₀ at hs₀ ⊢
  have hst : l₀.store = l.store := by rw [← hl₀]
  rw [← hst]
  clear hst hl₀
  have hf := hs₀.forest
  have hkeep₀ : l₀.Sound E ∧ ((l₀.store.Movable source → ¬ l₀.store.Folded source) → l₀ = l₀) :=
    ⟨hs₀, fun _ => rfl⟩
  rw [ends_bind]
  refine (ends_ensureMovable source).mono (fun _ l₁ h => ?_) fun _ l₁ h => by rw [h]; exact hkeep₀
  obtain ⟨rfl, -, hsrc, hwin⟩ := h
  rw [ends_bind, ends_get]
  refine ends_guard (fun _ => hkeep₀) fun hc₁ => ?_
  have hsr : source ≠ reference := fun h => hc₁ (by simp [h])
  have hnab : ¬ Above l₁.store.parent? source reference := fun h =>
    hc₁ (by simp [hf.isAncestor_iff.mpr h])
  rw [ends_bind, ends_node]
  split
  · next target hrn =>
    refine ends_guard (fun _ => hkeep₀) fun hc₂ => ?_
    have href : l₁.store.Movable reference :=
      Store.movable_of_get? hrn (by cases hp : target.kind.isPane <;> simp_all)
    -- stacking through a target folder: it does not hold `source` yet when `source` was
    -- no tab of the reference's folder
    have hstack : (∀ f', l₁.store.form? f' = some .folder →
        (f' = reference ∨ l₁.store.parent? reference = some f') →
        l₁.store.parent? source ≠ some f') →
        Ends (do let f ← targetFolder reference; moveInto source f) l₁
          (fun _ l' => l'.Sound E) fun _ l' => l'.Sound E ∧
            ((l₁.store.Movable source → ¬ l₁.store.Folded source) → l' = l₁) := by
      intro hA
      rw [ends_bind]
      refine (ends_targetFolder hs₀ href).mono (fun f' l₂ h => ?_) fun _ _ h => by
        rw [h]
        exact hkeep₀
      rcases h with ⟨rfl, hff, hwhere⟩ | ⟨hs₂, hff, hnew, hkeep, hpar₂, hsame, -⟩
      · refine (ends_moveInto hs₀ hsrc hff ?_ (hA f' hff hwhere)).mono (fun _ _ h => h)
          fun _ _ h => ⟨h.1, fun hm => absurd h.2 (hs₀.not_folded_or_loose hwin (hm hsrc))⟩
        rintro rfl
        rcases hwhere with h | h
        · exact hsr h
        · exact hnab (.parent h)
      · -- `source` kept its container, which kept its form
        refine (ends_moveInto hs₂ ((Store.Movable.congr (hkeep source hsrc.contains)).mpr hsrc) hff
          (fun h => ?_) fun h => hsr (hpar₂ source h)).mono (fun _ _ h => h)
          fun _ _ h => ⟨h.1, fun hm => absurd (Store.folded_or_loose_congr hf
            (hsame source hsrc.contains hsr) hkeep hsrc.contains h.2)
            (hs₀.not_folded_or_loose hwin (hm hsrc))⟩
        have hc := hsrc.contains
        rw [h, hnew] at hc
        cases hc
    obtain ⟨sn, hsn⟩ := (Store.contains_iff _ _).mp hsrc.contains
    rw [ends_bind, ends_node_of hsn]
    dsimp only
    split
    · next f hrf =>
      -- the folder the reference is in, or is
      have hff : l₁.store.form? f = some .folder := by
        split at hrf
        · next hfold =>
          cases hrf
          exact (Store.form?_eq_folder_iff hrn).mpr hfold
        · exact (folderOf_eq_some_iff.mp hrf).2
      split
      · -- a tab moves to the end of its own folder
        next hre =>
        refine ends_guard (fun _ => hkeep₀) fun _ => ?_
        simp only [Bool.and_eq_true, Bool.not_eq_true', beq_iff_eq] at hre
        obtain ⟨hnf, hfs⟩ := hre
        obtain ⟨hsp, -⟩ := folderOf_eq_some_iff.mp hfs
        have hleaf : l₁.store.IsLeaf source := hs₀.tabs_leaves f source hff (hf.mem_held_iff.mpr hsp)
        obtain ⟨w, s₁, h₁⟩ := Store.removeChild_ok (.inl hff) (hf.mem_held_iff.mpr hsp)
          hsrc.contains
        have hs₁ := hs₀.removeChild h₁
        have hleaf₁ : s₁.IsLeaf source := (Store.IsLeaf.congr (Store.form?_removeChild h₁ _)).mpr hleaf
        have hff₁ : s₁.form? f = some .folder := by rw [Store.form?_removeChild h₁, hff]
        obtain ⟨s₂, h₂⟩ := Store.pushChild_ok (.inl hff₁)
          ((Store.contains_removeChild h₁ _).trans hsrc.contains)
        have hs₂ := hs₁.pushChild h₂ List.mem_cons_self
          (by
            rw [hs₁.forest.under_leaf_iff hleaf₁]
            rintro rfl
            exact hleaf₁.not_isContainer (.inl hff₁))
          (fun _ => hleaf₁)
          (fun a ha hu => by
            rw [hs₁.forest.under_leaf_iff hleaf₁] at hu
            have hsplit := (hs₁.area a ha).1
            rw [← hu] at hsplit
            exact absurd (.inr hsplit) hleaf₁.not_isContainer)
        rw [List.erase_cons_head] at hs₂
        rw [ends_bind, ends_editWith_of_ok h₁, ends_bind, ends_edit_of_ok h₂, ends_bind,
          ends_select, ends_pure]
        exact hs₂.sameShape (Store.sameShape_select _ _) (hs₂.aligned.select _)
      · next hre =>
        refine hstack fun f' hff' hwhere hps => hre ?_
        -- `source` would be a tab of `f'`, which is the reference's folder
        have hleaf : l₁.store.IsLeaf source := hs₀.tabs_leaves f' source hff' (hf.mem_held_iff.mpr hps)
        have hnf : sn.kind.isFolder = false := by
          cases h : sn.kind.isFolder
          · rfl
          · exact absurd (.inl ((Store.form?_eq_folder_iff hsn).mpr h)) hleaf.not_isContainer
        have hf' : f' = f := by
          split at hrf
          · next hfold =>
            cases hrf
            rcases hwhere with h | h
            · exact h
            · have hrleaf := hs₀.tabs_leaves f' reference hff' (hf.mem_held_iff.mpr h)
              exact absurd (.inl ((Store.form?_eq_folder_iff hrn).mpr hfold)) hrleaf.not_isContainer
          · rcases hwhere with h | h
            · have hrleaf := hs₀.tabs_leaves f reference hff
                (hf.mem_held_iff.mpr (folderOf_eq_some_iff.mp hrf).1)
              rw [h] at hff'
              exact absurd (.inl hff') hrleaf.not_isContainer
            · exact Option.some.inj (h.symm.trans (folderOf_eq_some_iff.mp hrf).1)
        subst hf'
        simp [hnf, folderOf_eq_some_iff.mpr ⟨hps, hff'⟩]
    · next hrf =>
      refine hstack fun f' hff' hwhere _ => ?_
      -- the reference is a pane without a folder
      split at hrf
      · cases hrf
      · next hnotfold =>
        rcases hwhere with h | h
        · rw [h] at hff'
          exact hnotfold ((Store.form?_eq_folder_iff hrn).mp hff')
        · rw [folderOf_eq_some_iff.mpr ⟨h, hff'⟩] at hrf
          cases hrf
  · exact hkeep₀

theorem ends_stackNode (hs : l.Sound E) (source reference : NodeId) :
    Ends (stackNode source reference) l (fun _ l' => l'.Sound E) fun _ l' => l'.Sound E :=
  (ends_stackNode_atomic hs source reference).mono (fun _ _ h => h) fun _ _ h => h.1

/-- Stacking a part's pane into the folder of another's keeps a layout sound; a refusal
leaves the layout as it was, or only ends the zoom. -/
theorem ends_stack_atomic (hs : l.Sound E) (part reference : PartId) :
    Ends (stack part reference) l (fun _ l' => l'.Sound E)
      fun _ l' => l'.Sound E ∧ (l' = l ∨ l' = { l with zoomed := none }) := by
  rw [stack, ends_bind, ends_get]
  split
  · next source hsrc =>
    split
    · obtain ⟨_, -, hform⟩ := findPane_form hsrc
      exact (ends_stackNode_atomic hs _ _).mono (fun _ _ h => h) fun _ _ h =>
        ⟨h.1, .inr (h.2 fun _ => hs.not_folded_of_leaf ⟨_, hform, rfl⟩)⟩
    · exact ⟨hs, .inl rfl⟩
  · exact ⟨hs, .inl rfl⟩

theorem ends_stack (hs : l.Sound E) (part reference : PartId) :
    Ends (stack part reference) l (fun _ l' => l'.Sound E) fun _ l' => l'.Sound E :=
  (ends_stack_atomic hs part reference).mono (fun _ _ h => h) fun _ _ h => h.1

/-- Floating a node in a detached window keeps a layout sound. Unless the node is a folded pane
or folder, a refusal comes from the checks only, after ending the zoom. -/
theorem ends_detachNode_atomic (hs : l.Sound E) (source : NodeId) (bounds : FloatRect) :
    Ends (detachNode source bounds) l (fun _ l' => l'.Sound E)
      fun _ l' => l'.Sound E ∧
        ((l.store.Movable source → ¬ l.store.Folded source) → l' = { l with zoomed := none }) := by
  rw [detachNode, ends_bind, ends_get]
  split
  · exact hs
  have hs₀ : ({ l with zoomed := none } : Layout).Sound E := hs.of_frames rfl rfl rfl rfl rfl rfl
  rw [ends_bind, ends_zoomOut]
  generalize hl₀ : ({ l with zoomed := none } : Layout) = l₀ at hs₀ ⊢
  have hst : l₀.store = l.store := by rw [← hl₀]
  rw [← hst]
  clear hst hl₀
  have hf := hs₀.forest
  have hkeep₀ : l₀.Sound E ∧ ((l₀.store.Movable source → ¬ l₀.store.Folded source) → l₀ = l₀) :=
    ⟨hs₀, fun _ => rfl⟩
  rw [ends_bind]
  refine (ends_ensureMovable source).mono (fun _ l₁ h => ?_) fun _ l₁ h => by rw [h]; exact hkeep₀
  obtain ⟨rfl, -, hsrc, hwin⟩ := h
  rw [ends_bind, ends_get]
  extract_lets toNewWindow
  -- a new folder in a new window takes `source`
  have hnew : Ends (toNewWindow ()) l₁ (fun _ l' => l'.Sound E)
      fun _ l' => l'.Sound E ∧
        ((l₁.store.Movable source → ¬ l₁.store.Folded source) → l' = l₁) := by
    dsimp only [toNewWindow]
    obtain ⟨ident, hid⟩ := Store.allocContainer_eq l₁.store .emptyFolder
    have hs₁ : ({ l₁ with store := (l₁.store.alloc ident .emptyFolder).2 } : Layout).Sound
        (l₁.store.nextId :: E) := hs₀.alloc _ _ rfl rfl
    have hfold₁ : (l₁.store.alloc ident .emptyFolder).2.form? l₁.store.nextId = some .folder := by
      rw [Store.form?_alloc, if_pos rfl]
      rfl
    rw [ends_bind, ends_allocContainer, hid, ends_bind]
    refine (ends_openWindow hs₁ List.mem_cons_self hfold₁ bounds).mono (fun r l₂ h => ?_)
      fun _ _ h => h.elim
    obtain ⟨hst, -, harea₂, hs₂⟩ := h
    cases r with
    | none =>
      -- the host refused a surface: the new folder goes
      rw [if_neg (c := (none : Option WindowId).isSome = true) Bool.false_ne_true] at hs₂
      rw [ends_bind, ends_onStore, ends_pure]
      have hdrop := hs₂.discard List.mem_cons_self
        (by rw [hst, Store.held_alloc, if_pos rfl]; rfl)
        (fun ha => Store.ne_nextId_of_contains
          (Store.IsContainer.contains (.inr (hs₀.area _ (harea₂.symm.trans ha)).1)) rfl)
      rwa [List.erase_cons_head] at hdrop
    | some w =>
      rw [if_pos Option.isSome_some, List.erase_cons_head] at hs₂
      have hsc : l₁.store.contains source = true := hsrc.contains
      have hsn : source ≠ l₁.store.nextId := Store.ne_nextId_of_contains hsc
      rw [ends_bind]
      have hform : ∀ x, l₁.store.contains x = true → l₂.store.form? x = l₁.store.form? x :=
        fun x hx => by
          rw [hst]
          exact Store.form?_alloc_of_contains hx _ _
      have hpar : l₂.store.parent? source = l₁.store.parent? source := by
        rw [hst, Store.parent?_alloc, if_neg hsn]
      refine (ends_moveInto hs₂ ((Store.Movable.congr (hform source hsc)).mpr hsrc) (hst ▸ hfold₁)
        hsn ?_).mono (fun _ _ h => h) fun _ _ h => ⟨h.1, fun hm => absurd
          (Store.folded_or_loose_congr hf hpar hform hsc h.2) (hs₀.not_folded_or_loose hwin (hm hsrc))⟩
      rw [hpar]
      exact fun h => Store.ne_nextId_of_contains (hf.contains_of_parent h) rfl
  split
  · -- a window showing only `source` just moves
    next w hw =>
    dsimp only
    split
    · split
      · rw [ends_bind]
        exact (ends_moveWindow hs₀ w bounds).of_unchanged hkeep₀
      · exact hnew
    · exact hnew
  · exact hnew

theorem ends_detachNode (hs : l.Sound E) (source : NodeId) (bounds : FloatRect) :
    Ends (detachNode source bounds) l (fun _ l' => l'.Sound E) fun _ l' => l'.Sound E :=
  (ends_detachNode_atomic hs source bounds).mono (fun _ _ h => h) fun _ _ h => h.1

/-- Floating a part's pane keeps a layout sound; a refusal leaves the layout as it was, or
only ends the zoom. -/
theorem ends_detach_atomic (hs : l.Sound E) (part : PartId) (bounds : FloatRect) :
    Ends (detach part bounds) l (fun _ l' => l'.Sound E)
      fun _ l' => l'.Sound E ∧ (l' = l ∨ l' = { l with zoomed := none }) := by
  rw [detach, ends_bind, ends_get]
  split
  · next source hsrc =>
    obtain ⟨_, -, hform⟩ := findPane_form hsrc
    exact (ends_detachNode_atomic hs _ bounds).mono (fun _ _ h => h) fun _ _ h =>
      ⟨h.1, .inr (h.2 fun _ => hs.not_folded_of_leaf ⟨_, hform, rfl⟩)⟩
  · exact ⟨hs, .inl rfl⟩

theorem ends_detach (hs : l.Sound E) (part : PartId) (bounds : FloatRect) :
    Ends (detach part bounds) l (fun _ l' => l'.Sound E) fun _ l' => l'.Sound E :=
  (ends_detach_atomic hs part bounds).mono (fun _ _ h => h) fun _ _ h => h.1

end LayoutM

end Docking
