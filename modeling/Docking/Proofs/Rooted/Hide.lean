import Docking.Proofs.Rooted.Basic
import Docking.Layout.Hide
/-!
# Hiding keeps a layout planted

The upward loops behind hiding, `collapseFrom` and `tidyFrom`, keep a layout planted with the
same held-out nodes, carried out or refused: every edit they make is a fold, a flattening, the
removal of an emptied container or the retiring of a window (`Layout.Planted.fold`,
`Layout.Planted.flatten`, ...). On a planted layout a refused edit is no threat: it changes
nothing, and what an earlier edit held out is let go.

A request that takes a node out to put it back elsewhere must not put it below itself. The
loops never hang anything new below a held-out node that does not hold the node they start
from (`Store.SealedOff`), so the node `takeNode` takes out keeps the subtree it had
(`Store.Sealed`).
-/

namespace Docking

namespace Store

variable {s s₁ s₂ s' : Store} {E : List NodeId} {cur : NodeId}

/-- Edits that climb from `cur` keep sealed the subtree of every node of `E` not holding `cur`. -/
def SealedOff (E : List NodeId) (cur : NodeId) (s s' : Store) : Prop :=
  ∀ m ∈ E, ¬ Under s.parent? m cur → s.Sealed m s'

theorem SealedOff.refl (E : List NodeId) (cur : NodeId) (s : Store) : s.SealedOff E cur s :=
  fun m _ _ => .refl m s

theorem SealedOff.of_sealed (h : ∀ m, s.Sealed m s') : s.SealedOff E cur s' :=
  fun m _ _ => h m

/-- What a pass at `cur` seals, then what the rest of the loop seals from a node above `cur`. -/
theorem SealedOff.trans {next : NodeId} (h₁ : s.SealedOff E cur s₁)
    (hnext : Under s.parent? next cur) (h₂ : s₁.SealedOff E next s₂) : s.SealedOff E cur s₂ :=
  fun m hm hu => (h₁ m hm hu).trans
    (h₂ m hm fun hu' => hu (((h₁ m hm hu).under hu').trans hnext))

end Store

namespace LayoutM

open Layout

variable {l : Layout} {E : List NodeId}

/-! ### Windows -/

section Windows

/-- Opening a window on a held-out folder keeps the table; the folder leaves the held-out
nodes when the host gives a surface. -/
theorem ends_openWindow_planted (hl : l.Planted E) {f : NodeId} (hf : f ∈ E)
    (hfold : l.store.form? f = some .folder) (b : FloatRect) :
    Ends (openWindow f b) l (fun r l' => l'.store = l.store ∧
      l'.Planted (if r.isSome then E.erase f else E)) fun _ _ => False := by
  rw [openWindow, ends_bind, ends_get]
  dsimp only
  split
  · rw [ends_bind, ends_set, ends_pure]
    exact ⟨rfl, hl.of_frames rfl rfl rfl rfl rfl rfl⟩
  · rw [ends_bind, ends_set, ends_pure]
    exact ⟨rfl, hl.open hf hfold _ _ _⟩

/-- Closing an emptied window never fails: its folder is freed or parked, which seals every
subtree. -/
theorem ends_retireIfEmpty_planted (hl : l.Planted E) (w : WindowId) :
    Ends (retireIfEmpty w) l (fun _ l' => l'.Planted E ∧ ∀ m, l.store.Sealed m l'.store)
      fun _ _ => False := by
  rw [retireIfEmpty, ends_bind, ends_get]
  cases hw : l.window? w with
  | none => exact ⟨hl, fun m => .refl m _⟩
  | some win =>
    have hwin : win ∈ l.windows := List.mem_of_find?_eq_some hw
    have hid : win.id = w := by simpa using List.find?_some hw
    subst hid
    dsimp only
    split
    · exact ⟨hl, fun m => .refl m _⟩
    · split
      · rw [← List.erase_cons_head win.folder E]
        exact ⟨(hl.close hwin _).free List.mem_cons_self,
          Store.sealed_of_cut (hl.rooted.forest.cut_free win.folder)⟩
      · exact ⟨hl.park hwin _, fun m => .refl m _⟩

/-- Moving a window changes its bounds only. -/
theorem ends_moveWindow_planted (hl : l.Planted E) (w : WindowId) (b : FloatRect) :
    Ends (moveWindow w b) l (fun _ l' => l'.Planted E) fun _ l' => l'.Planted E := by
  rw [moveWindow, ends_bind, ends_get]
  cases l.window? w with
  | none => exact hl
  | some win =>
    refine hl.of_frames rfl rfl rfl ?_ rfl rfl
    rw [List.map_map]
    refine List.map_congr_left fun x _ => ?_
    dsimp only [Function.comp]
    split <;> rfl

theorem ends_closeWindows_planted (hl : l.Planted E) :
    Ends closeWindows l (fun _ l' => l'.Planted E) fun _ _ => False := by
  rw [closeWindows, ends_modify]
  refine hl.of_frames rfl rfl rfl ?_ rfl rfl
  rw [List.map_map]
  rfl

end Windows

/-! ### Folding -/

/-- One pass of folding keeps a layout planted and seals the held-out subtrees off `cur`; it
goes on, if at all, from the container of `cur`. -/
theorem ends_collapsePass_planted (hl : l.Planted E) (cur : NodeId) :
    Ends (collapsePass cur) l (fun r l' => l'.Planted E ∧ l.store.SealedOff E cur l'.store ∧
      ∀ next, r = some next → Above l.store.parent? next cur) fun _ l' => l'.Planted E := by
  have hf := hl.rooted.forest
  rw [collapsePass, ends_bind, ends_get]
  split
  · exact ⟨hl, .refl _ _ _, fun _ h => by cases h⟩
  rw [ends_bind, ends_node]
  split
  · next n hn =>
    split
    · exact ⟨hl, .refl _ _ _, fun _ h => by cases h⟩
    split
    · exact ⟨hl, .refl _ _ _, fun _ h => by cases h⟩
    next parent hpar =>
    obtain ⟨pn, hpn⟩ := (Store.contains_iff _ _).mp (hf.contains_of_parent hpar)
    rw [ends_bind, ends_node_of hpn]
    split
    · exact ⟨hl, .refl _ _ _, fun _ h => by cases h⟩
    next hpc =>
    -- `cur` goes behind a new collapsed node in its slot, and the fold goes on from `parent`
    obtain ⟨s₂, s₃, h₂, h₃⟩ := hf.fold_ok hpar
      (hf.holder_isContainer hpar (Store.form?_ne_collapsed hpn (Bool.eq_false_iff.mpr hpc))) n.ident
    simp only [ends_bind, ends_alloc, ends_edit, h₂, h₃]
    refine ⟨hl.fold hpar h₂ h₃, fun m hm hu => ?_, fun _ h => by cases h; exact .parent hpar⟩
    exact Store.sealed_fold hpar h₂ h₃ (hl.rooted.extra_top hm).1 fun hp => hu (hp.trans (.inr (.parent hpar)))
  · exact hl

theorem ends_collapseFrom_planted (k : Nat) : ∀ (cur : NodeId) {l : Layout}, l.Planted E →
    Ends (collapseFrom k cur) l (fun _ l' => l'.Planted E ∧ l.store.SealedOff E cur l'.store)
      fun _ l' => l'.Planted E := by
  induction k with
  | zero => exact fun cur l hl => ⟨hl, .refl _ _ _⟩
  | succ k ih =>
    intro cur l hl
    rw [collapseFrom, ends_climbFrom_succ]
    refine (ends_collapsePass_planted hl cur).mono (fun r l' h => ?_) fun _ _ h => h
    cases r with
    | none => exact ⟨h.1, h.2.1⟩
    | some next =>
      exact (ih next h.1).mono (fun _ _ h' => ⟨h'.1, h.2.1.trans (.inr (h.2.2 next rfl)) h'.2⟩)
        fun _ _ h => h

theorem ends_collapseEmpty_planted (hl : l.Planted E) (cur : NodeId) :
    Ends (collapseEmpty cur) l (fun _ l' => l'.Planted E ∧ l.store.SealedOff E cur l'.store)
      fun _ l' => l'.Planted E := by
  rw [collapseEmpty, ends_bind, ends_store]
  exact ends_collapseFrom_planted _ cur hl

/-! ### Tidying -/

/-- One pass of tidying keeps a layout planted and seals the held-out subtrees off `cur`; it
goes on, if at all, from a node above `cur`. -/
theorem ends_tidyPass_planted (hl : l.Planted E) (cur : NodeId) :
    Ends (tidyPass cur) l (fun r l' => l'.Planted E ∧ l.store.SealedOff E cur l'.store ∧
      ∀ next, r = some next → Above l.store.parent? next cur) fun _ l' => l'.Planted E := by
  have hf := hl.rooted.forest
  -- where the pass changes nothing and climbs no further
  have hstay : l.Planted E ∧ l.store.SealedOff E cur l.store ∧
      ∀ next, (none : Option NodeId) = some next → Above l.store.parent? next cur :=
    ⟨hl, .refl _ _ _, fun _ h => by cases h⟩
  rw [tidyPass, ends_bind, ends_get]
  split
  · exact hstay
  next hcur =>
  have hcon : l.store.contains cur = true := by
    cases h : l.store.contains cur <;> simp [h] at hcur ⊢
  split
  · -- the folder of a window retires the window
    rw [ends_bind]
    exact (ends_retireIfEmpty_planted hl _).mono
      (fun _ _ h => ⟨h.1, .of_sealed h.2, fun _ h => by cases h⟩) fun _ _ h => h.elim
  split
  · -- the folder of a parked window goes with it when it is empty
    next i hi =>
    obtain ⟨hlt, hp, -⟩ := List.findIdx?_eq_some_iff_getElem.mp hi
    have hfi : l.parked[i].folder = cur := by simpa using hp
    split
    · have hr₁ := hl.unpark hlt
      rw [hfi] at hr₁
      have hr₂ := hr₁.free List.mem_cons_self
      rw [List.erase_cons_head] at hr₂
      exact ⟨hr₂, .of_sealed (Store.sealed_of_cut (hf.cut_free cur)), fun _ h => by cases h⟩
    · exact hstay
  split
  · exact hstay
  next parent hpar =>
  obtain ⟨n, hn⟩ := (Store.contains_iff _ _).mp hcon
  obtain ⟨pn, hpn⟩ := (Store.contains_iff _ _).mp (hf.contains_of_parent hpar)
  rw [ends_bind, ends_node_of hn, ends_bind, ends_node_of hpn]
  split
  · -- the container is a collapsed node: it goes with its emptied inner container
    split
    · exact hstay
    split
    · exact hstay
    next grand hg =>
    rw [ends_bind, ends_editWith]
    split
    · next w s₁ h₁ =>
      have hr₁ := hl.removeChild h₁
      have hr₂ := hr₁.free List.mem_cons_self
      rw [List.erase_cons_head] at hr₂
      refine ⟨hr₂, .of_sealed fun m => (Store.sealed_of_cut (Store.cut_removeChild h₁) m).trans
        (Store.sealed_of_cut (hr₁.rooted.forest.cut_free parent) m), fun _ h => ?_⟩
      cases h
      exact .up hpar (.parent hg)
    · exact hl
  split
  · -- an emptied container goes
    next hce =>
    obtain ⟨hcont, hnil⟩ : n.kind.isContainer = true ∧ n.kind.children.isEmpty = true := by
      simpa using hce
    rw [ends_bind, ends_editWith]
    split
    · next w s₁ h₁ =>
      have hheld : s₁.held cur = [] := by
        rw [Store.held_removeChild h₁, if_neg (hf.ne_of_parent hpar),
          Store.held_eq_children (Store.isContainer_of_get? hn hcont), Store.children, hn]
        exact List.isEmpty_iff.mp hnil
      have hr₂ := (hl.removeChild h₁).discard List.mem_cons_self hheld
      rw [List.erase_cons_head] at hr₂
      refine ⟨hr₂, .of_sealed fun m => (Store.sealed_of_cut (Store.cut_removeChild h₁) m).trans
        (Store.sealed_of_cut (Store.cut_discard cur) m), fun _ h => ?_⟩
      cases h
      exact .parent hpar
    · exact hl
  split
  · -- a split with one child gives its slot to the child
    next o cs ws only hk hch =>
    have hheld : l.store.held cur = [only] := by
      rw [Store.held_of_get? hn, hk]
      rw [hk] at hch
      exact hch
    have hsplit : l.store.form? cur = some .split := by rw [Store.form?_of_get? hn, hk]; rfl
    rw [ends_bind, ends_editWith]
    split
    · next w s₁ h₁ =>
      rw [ends_bind, ends_edit]
      split
      · next s₂ h₂ =>
        refine ⟨hl.flatten hpar hsplit hheld h₁ h₂, fun m hm hu => ?_, fun _ h => ?_⟩
        · -- `parent` lies above `cur`, so off the held-out subtrees that miss `cur`
          have hnp : ¬ Under s₁.parent? m parent := fun h =>
            hu ((under_of_cut (Store.cut_removeChild h₁) h).trans (.inr (.parent hpar)))
          exact ((Store.sealed_of_cut (Store.cut_removeChild h₁) m).trans
            (Store.sealed_replaceChild h₂ hnp)).trans (Store.sealed_of_cut (Store.cut_discard cur) m)
        · cases h
          exact .parent hpar
      · exact (hl.removeChild h₁).tail
    · exact hl
  · -- anything else in the main window is folded when it holds only placeholders
    rw [ends_bind, ends_get]
    split
    · rw [ends_bind]
      exact (ends_collapseEmpty_planted hl cur).mono
        (fun _ _ h => ⟨h.1, h.2, fun _ h => by cases h⟩) fun _ _ h => h
    · exact hstay

theorem ends_tidyFrom_planted (k : Nat) : ∀ (cur : NodeId) {l : Layout}, l.Planted E →
    Ends (tidyFrom k cur) l (fun _ l' => l'.Planted E ∧ l.store.SealedOff E cur l'.store)
      fun _ l' => l'.Planted E := by
  induction k with
  | zero => exact fun cur l hl => ⟨hl, .refl _ _ _⟩
  | succ k ih =>
    intro cur l hl
    rw [tidyFrom, ends_climbFrom_succ]
    refine (ends_tidyPass_planted hl cur).mono (fun r l' h => ?_) fun _ _ h => h
    cases r with
    | none => exact ⟨h.1, h.2.1⟩
    | some next =>
      exact (ih next h.1).mono (fun _ _ h' => ⟨h'.1, h.2.1.trans (.inr (h.2.2 next rfl)) h'.2⟩)
        fun _ _ h => h

theorem ends_tidy_planted (hl : l.Planted E) (cur : NodeId) :
    Ends (tidy cur) l (fun _ l' => l'.Planted E ∧ l.store.SealedOff E cur l'.store)
      fun _ l' => l'.Planted E := by
  rw [tidy, ends_bind, ends_store]
  exact ends_tidyFrom_planted _ cur hl

/-! ### Taking nodes out -/

/-- Taking a node out: it joins the held-out nodes with the subtree it had. -/
theorem ends_takeNode_planted (hl : l.Planted E) (n : NodeId) :
    Ends (takeNode n) l (fun _ l' => l'.Planted (n :: E) ∧ l.store.Sealed n l'.store)
      fun _ l' => l'.Planted E := by
  rw [takeNode, ends_bind, ends_store]
  split
  · exact hl
  next p hp =>
  rw [ends_bind, ends_editWith]
  split
  · next w s₁ h₁ =>
    -- `n` holds its old container no more than before
    have hnp : ¬ Under s₁.parent? n p := fun h =>
      hl.rooted.forest.not_under_of_parent hp (under_of_cut (Store.cut_removeChild h₁) h)
    rw [ends_bind]
    refine (ends_tidy_planted (hl.removeChild h₁) p).mono (fun _ _ h => ⟨h.1, ?_⟩) fun _ _ h => h.tail
    exact (Store.sealed_of_cut (Store.cut_removeChild h₁) n).trans (h.2 n List.mem_cons_self hnp)
  · exact hl

/-- Hiding a pane keeps a layout planted, carried out or refused. -/
theorem ends_removePane_planted (hl : l.Planted E) (part : PartId) :
    Ends (removePane part) l (fun _ l' => l'.Planted E) fun _ l' => l'.Planted E := by
  have hr₀ : ({ l with zoomed := none } : Layout).Planted E := hl.of_frames rfl rfl rfl rfl rfl rfl
  rw [removePane, ends_bind, ends_zoomOut, ends_bind, ends_get]
  split
  · next n hfind =>
    split
    · next parent hpar =>
      -- a new placeholder takes the slot of `n`, which then goes
      have hr₁ := hr₀.alloc part (.placeholder part) rfl fun _ _ h => by cases h
      have hfresh : ¬ Under (l.store.alloc part (.placeholder part)).2.parent? l.store.nextId parent :=
        hl.rooted.forest.not_under_alloc (hl.rooted.forest.contains_of_parent hpar)
      rw [ends_bind, ends_alloc, ends_bind, ends_onError, ends_edit]
      split
      · next s₂ h₂ =>
        have hr₂ := hr₁.replaceChild h₂ List.mem_cons_self hfresh
        rw [List.erase_cons_head] at hr₂
        have hr₃ := hr₂.free List.mem_cons_self
        rw [List.erase_cons_head] at hr₃
        rw [ends_bind, ends_onStore]
        split
        · rw [ends_bind]
          exact (ends_collapseEmpty_planted hr₃ _).mono (fun _ _ h => h.1) fun _ _ h => h
        · rw [ends_bind]
          exact (ends_retireIfEmpty_planted hr₃ _).mono (fun _ _ h => h.1) fun _ _ h => h.elim
        · exact hr₃
      · have hheld : (l.store.alloc part (.placeholder part)).2.held l.store.nextId = [] := by
          rw [Store.held_alloc, if_pos rfl]
          rfl
        have hr₂ := hr₁.discard List.mem_cons_self hheld
        rw [List.erase_cons_head] at hr₂
        exact hr₂
    · exact hr₀
  · exact hr₀

/-- Disposing of a part keeps a layout planted, carried out or refused. -/
theorem ends_disposePane_planted (hl : l.Planted E) (part : PartId) :
    Ends (disposePane part) l (fun _ l' => l'.Planted E) fun _ l' => l'.Planted E := by
  have hr₀ : ({ { l with zoomed := none } with fastViews := l.fastViews.filter (· != part) } :
      Layout).Planted E := hl.of_frames rfl rfl rfl rfl rfl rfl
  rw [disposePane, ends_bind, ends_zoomOut, ends_bind, ends_dropFast, ends_bind, ends_get]
  split
  · rw [ends_bind]
    refine (ends_takeNode_planted hr₀ _).mono (fun _ _ h => ?_) fun _ _ h => h
    have hfree := h.1.free List.mem_cons_self
    rw [List.erase_cons_head] at hfree
    exact hfree
  · exact hr₀

end LayoutM

end Docking
