import Docking.Proofs.Rooted.Show
import Docking.Proofs.Tidying
import Docking.Proofs.Sound.Move
import Docking.Proofs.WindowFrame
/-!
# Moving keeps a layout planted

Docking, stacking and floating take a node out (`lift`, `takeNode`) and put it back into a
container that must not lie below it. On a planted layout the checks a move makes before it
edits say as much: the reference node is neither the moved node nor below it. What is left to
show is that the edits in between keep it so: taking the node out only cuts links, tidying
behind it seals its subtree (`Store.Sealed`), and a new container that takes the slot of a
node lies below no node of the table that did not hold that slot (`Store.not_under_wrap`).

A refused move is no threat: whatever an edit took out before the refusal is let go, and the
layout stays planted. So every move keeps a layout planted, carried out or refused.
-/

namespace Docking

theorem above_of_frame_children {par par' : NodeId → Option NodeId} {c : NodeId}
    (hpar : ∀ x, par x ≠ some c → par' x = par x) {a n : NodeId} (hc : ¬ Under par c n)
    (ha : Above par' a n) : Above par a n :=
  above_of_frame (fun x (_ : True) hx => hpar x fun h => hx (.inr (.parent h)))
    (fun _ _ _ _ => trivial) trivial hc ha

namespace Store

variable {s s₂ s' : Store} {m : NodeId}

theorem Sealed.held_eq_nil (h : s.Sealed m s') (hf : s.Forest) (hf' : s'.Forest)
    (hm : s.held m = []) : s'.held m = [] := by
  rcases hc : s'.held m with _ | ⟨c, cs⟩
  · rfl
  · have hpar : s'.parent? c = some m := hf'.held_parent (by rw [hc]; exact List.mem_cons_self)
    obtain ⟨x, hx⟩ := (h c (.parent hpar)).exists_child
    rw [← hf.mem_held_iff, hm] at hx
    cases hx

/-- A new node that takes the slot of a child of `p` lies below no node of the table that did
not hold `p`. -/
theorem not_under_wrap {ident : String} {kind : NodeKind} {p old : NodeId}
    (h : (s.alloc ident kind).2.replaceChild p old s.nextId = .ok s₂) {x : NodeId}
    (hx : s.contains x = true) (hxp : ¬ Under s.parent? x p) : ¬ Under s₂.parent? x s.nextId := by
  have hseal := sealed_replaceChild h fun hu => hxp (under_of_cut (cut_alloc ident kind) hu)
  intro hu
  exact ne_nextId_of_contains hx
    ((hseal.under hu).eq_of_top (by rw [parent?_alloc, if_pos rfl]))

theorem Forest.not_under_of_checked (hf : s.Forest) {a n : NodeId}
    (hc : ¬ (a == n || s.isAncestor a n) = true) : ¬ Under s.parent? a n := by
  rintro (h | h)
  · exact hc (by simp [h])
  · exact hc (by simp [hf.isAncestor_iff.mpr h])

end Store

namespace Layout

variable {l : Layout} {E : List NodeId}

theorem Rooted.top_ne_extra (hr : l.Rooted E) {t x : NodeId} (ht : t ∈ l.tops) (hx : x ∈ E) :
    t ≠ x := by
  rintro rfl
  exact (List.nodup_append.mp hr.tops_nodup).2.2 t ht t hx rfl

theorem Rooted.head_ne_extra {y x : NodeId} (hr : l.Rooted (y :: E)) (hx : x ∈ E) : y ≠ x := by
  rintro rfl
  exact (List.nodup_cons.mp (hr.tops_nodup.sublist (List.sublist_append_right _ _))).1 hx

theorem Planted.not_under_extra (hp : l.Planted E) {x y : NodeId} (hy : y ∈ E) (hne : x ≠ y) :
    ¬ Under l.store.parent? x y :=
  not_under_of_top (hp.rooted.extra_top hy).2 hne

theorem Planted.not_under_root (hp : l.Planted E) {x : NodeId} (hx : x ∈ E) :
    ¬ Under l.store.parent? x l.root :=
  not_under_of_top (hp.rooted.tops_top _ (List.mem_append_left _ List.mem_cons_self)).2
    (hp.rooted.top_ne_extra List.mem_cons_self hx).symm

theorem Planted.setKind (hp : l.Planted E) {x : NodeId} {k : NodeKind} (hkf : k.isFolder = false)
    (hk : ∀ n, l.store.get? x = some n →
      Store.walkChildren true k = Store.walkChildren true n.kind ∧ k.form = n.kind.form) :
    ({ l with store := l.store.setKind x k } : Layout).Planted E :=
  hp.sameShape (Store.sameShape_setKind hk) (Store.size_setKind _ _ _)
    (hp.picked.of_refolds (Store.refolds_setKind hkf fun n hn => (hk n hn).2))

theorem Planted.turnSplit (hp : l.Planted E) {x : NodeId} {n : Node} (hn : l.store.get? x = some n)
    {o o' : Orientation} {cs : List NodeId} {ws ws' : List Float32} (hk : n.kind = .split o cs ws) :
    ({ l with store := l.store.setKind x (.split o' cs ws') } : Layout).Planted E :=
  hp.setKind rfl fun n' hn' => by
    rw [hn] at hn'
    cases hn'
    rw [hk]
    exact ⟨rfl, rfl⟩

theorem Planted.moveToHeld {inner p c : NodeId} {i : Nat} {w w' : Float32} {s₁ s₂ : Store}
    (hl : l.Planted (inner :: E)) (h₁ : l.store.removeChild p c = .ok (w', s₁))
    (h₂ : s₁.insertChild inner i c w = .ok s₂) :
    ({ l with store := s₂ } : Layout).Planted (inner :: E) := by
  have hl₁ := hl.removeChild h₁
  have hl₂ := hl₁.insertChild h₂ List.mem_cons_self
    (hl₁.not_under_extra (List.mem_cons_of_mem _ List.mem_cons_self)
      (hl₁.rooted.head_ne_extra List.mem_cons_self))
  rwa [List.erase_cons_head] at hl₂

end Layout

namespace LayoutM

open Layout

variable {l : Layout} {E : List NodeId}

/-! ### Taking a node out -/

/-- Moving the tabs of `src` to the end of `dst`, which does not lie below `src`, keeps a
layout planted. Only the tabs of `src` change containers, and `src` ends holding nothing when
it is a folder or a split. -/
theorem ends_transferTabs_planted (hl : l.Planted E) {src dst : NodeId}
    (hnd : ¬ Under l.store.parent? src dst) :
    Ends (transferTabs src dst) l (fun _ l' => l'.Planted E ∧
      (∀ x, l.store.parent? x ≠ some src → l'.store.parent? x = l.store.parent? x) ∧
      (l.store.IsContainer src → l'.store.held src = []))
      fun _ l' => l'.Planted E := by
  have hne : src ≠ dst := fun h => hnd (.inl h)
  rw [transferTabs, ends_bind, ends_node]
  split
  · next from_ hfrom =>
    rw [ends_bind, ends_store, ends_bind]
    -- the loop takes the tabs of `src` from the front: `rest` is what `src` still holds; it
    -- only relinks nodes, so a pane or a folder stays one
    refine (ends_forIn _ _ _ (fun rest _ l' => l'.Planted E ∧
        (∀ x, l.store.parent? x ≠ some src → l'.store.parent? x = l.store.parent? x) ∧
        (l.store.IsContainer src → l'.store.held src = rest) ∧
        ∀ x, l.store.Pickable x → l'.store.Pickable x)
      (fun child rest _ l' hinv => ?_) ⟨hl, fun _ _ => rfl, Store.held_eq_children, fun _ h => h⟩).mono
      (fun _ l' hinv => ?_) fun _ _ h => h
    · obtain ⟨hl', hframe, hheld, hpick⟩ := hinv
      rw [ends_bind, ends_editWith]
      split
      · next w s₁ h₁ =>
        have hl₁ := hl'.removeChild h₁
        -- a tab taken out was a tab of `src` from the start
        have hcp : l.store.parent? child = some src := by
          by_contra hcs
          have h := hframe child hcs
          rw [hl'.rooted.forest.held_parent (Store.removeChild_mem h₁)] at h
          exact hcs h.symm
        have hframe₁ : ∀ x, l.store.parent? x ≠ some src → s₁.parent? x = l.store.parent? x := by
          intro x hx
          rw [Store.parent?_removeChild h₁, if_neg (by rintro rfl; exact hx hcp)]
          exact hframe x hx
        -- `dst` lies outside the subtree of `src`, so outside that of the tab
        have hcd : ¬ Under s₁.parent? child dst := by
          rintro (rfl | ha)
          · exact hnd (.inr (.parent hcp))
          · exact hnd (.inr ((Above.parent hcp).trans (above_of_frame_children hframe₁ hnd ha)))
        rw [ends_bind, ends_edit]
        split
        · next s₂ h₂ =>
          have hl₂ := hl₁.pushChild h₂ List.mem_cons_self hcd
          rw [List.erase_cons_head] at hl₂
          refine ⟨_, rfl, hl₂, fun x hx => ?_, fun hc => ?_, fun x hx => ?_⟩
          · rw [Store.parent?_pushChild h₂, if_neg (by rintro rfl; exact hx hcp)]
            exact hframe₁ x hx
          · rw [Store.held_pushChild h₂, if_neg hne, Store.held_removeChild h₁, if_pos rfl,
              hheld hc, List.erase_cons_head]
          · exact (keptByTidying_pickable x).thins (Store.thins_pushChild h₂)
              ((keptByTidying_pickable x).thins (Store.thins_removeChild h₁) (hpick x hx))
        · exact hl₁.tail
      · exact hl'
    · -- the selection moves with its tab, which changes no link; the tab is a pane or a
      -- folder, as the selection of `src` was picked
      obtain ⟨hl', hframe, hheld, hpick⟩ := hinv
      split
      · next sel hsel =>
        have htab : l.store.Pickable sel :=
          hl.picked.pickable_of_selectedTab hl.rooted.forest ((Store.selectedTab_of_get? hfrom).trans hsel)
        rw [ends_bind, ends_select, ends_pure]
        have hsame := Store.sameShape_select l'.store sel
        exact ⟨hl'.sameShape hsame (Store.size_select _ _) (hl'.picked.select (hpick sel htab)),
          fun x hx => (hsame x).1.trans (hframe x hx), fun hc => (hsame src).2.1.trans (hheld hc)⟩
      · exact ⟨hl', hframe, hheld⟩
  · exact hl

/-- Taking a node out to move it keeps a layout planted, with the moving node held out: the
node itself when it has a container, else a new folder that takes its tabs. A node of the
table outside the subtree of `source` lies outside that of the moving node. -/
theorem ends_lift_planted (hl : l.Planted E) {source : NodeId}
    (hsc : l.store.contains source = true) :
    Ends (lift source) l (fun moving l' => l'.Planted (moving :: E) ∧
      ∀ a, l.store.contains a = true → ¬ Under l.store.parent? source a →
        ¬ Under l'.store.parent? moving a)
      fun _ l' => l'.Planted E := by
  have hf := hl.rooted.forest
  rw [lift, ends_bind, ends_store]
  split
  · rw [ends_bind]
    refine (ends_takeNode_planted hl source).mono (fun _ l' h => ?_) fun _ _ h => h
    exact ⟨h.1, fun a _ ha hu => ha (h.2.under hu)⟩
  · next hnone =>
    have hpar : l.store.parent? source = none := Option.not_isSome_iff_eq_none.mp hnone
    obtain ⟨ident, hid⟩ := Store.allocContainer_eq l.store .emptyFolder
    have hsf : source ≠ l.store.nextId := Store.ne_nextId_of_contains hsc
    have hl₁ := hl.alloc ident .emptyFolder rfl fun _ _ h => by cases h; rfl
    have hpar₁ : (l.store.alloc ident .emptyFolder).2.parent? source = none := by
      rw [Store.parent?_alloc, if_neg hsf, hpar]
    rw [ends_bind, ends_allocContainer, hid, ends_bind]
    refine (ends_transferTabs_planted hl₁
      (not_under_of_top (by rw [Store.parent?_alloc, if_pos rfl]) hsf)).mono
      (fun _ l₂ h₂ => ?_) fun _ _ h => h.tail
    obtain ⟨hl₂, hframe, -⟩ := h₂
    -- `source` keeps no container, so the new folder does not hold it
    have hpar₂ : l₂.store.parent? source = none :=
      (hframe source (by rw [hpar₁]; exact (Option.some_ne_none _).symm)).trans hpar₁
    rw [ends_bind]
    refine (ends_tidy_planted hl₂ source).mono (fun _ l₃ h₃ => ?_) fun _ _ h => h.tail
    have hseal := h₃.2 _ List.mem_cons_self (not_under_of_top hpar₂ hsf.symm)
    refine ⟨h₃.1, fun a ha hsa hu => ?_⟩
    -- below the new folder are the old tabs of `source` only
    rcases hseal.under hu with he | hab
    · exact Store.ne_nextId_of_contains ha he.symm
    · have hsa₁ : ¬ Under (l.store.alloc ident .emptyFolder).2.parent? source a := fun h =>
        hsa (under_of_cut (Store.cut_alloc ident .emptyFolder) h)
      exact hf.not_under_alloc_of_ne (Store.ne_nextId_of_contains ha)
        (.inr (above_of_frame_children hframe hsa₁ hab))

/-! ### Putting a node back -/

/-- Inserting a held-out node into a container that does not lie below it; a refusal leaves
the node held out. -/
theorem ends_insertChild_planted {x p : NodeId} (hl : l.Planted (x :: E))
    (hxp : ¬ Under l.store.parent? x p) (i : Nat) (w : Float32) :
    Ends (edit (·.insertChild p i x w)) l (fun _ l' => l'.Planted E)
      fun _ l' => l'.Planted (x :: E) := by
  rw [ends_edit]
  split
  · next s h =>
    have hl' := hl.insertChild h List.mem_cons_self hxp
    rwa [List.erase_cons_head] at hl'
  · exact hl

theorem ends_pushChild_planted {x p : NodeId} (hl : l.Planted (x :: E))
    (hxp : ¬ Under l.store.parent? x p) :
    Ends (edit (·.pushChild p x)) l (fun _ l' => l'.Planted E)
      fun _ l' => l'.Planted (x :: E) := by
  rw [ends_edit]
  split
  · next s h =>
    have hl' := hl.pushChild h List.mem_cons_self hxp
    rwa [List.erase_cons_head] at hl'
  · exact hl

theorem ends_placeRoot {moving r : NodeId} (hl : l.Planted (moving :: E)) (hr : l.root = r)
    (f : Node → Nat) (g : Node → Float32) :
    Ends (node r >>= fun n => edit (·.insertChild r (f n) moving (g n))) l
      (fun _ l' => l'.Planted E) fun _ l' => l'.Planted (moving :: E) := by
  rw [ends_bind, ends_node]
  split
  · exact ends_insertChild_planted hl (hr ▸ hl.not_under_root List.mem_cons_self) _ _
  · exact hl

/-- Two held-out nodes go into a container that lies below neither, the first at the front
and the second after it. Neither insertion can fail. -/
theorem ends_insertTwo (hl : l.Planted E) {sp a b : NodeId} (hsp : l.store.IsContainer sp)
    (ha : a ∈ E) (hb : b ∈ E.erase a) (hua : ¬ Under l.store.parent? a sp)
    (hub : ¬ Under l.store.parent? b sp) (w₁ w₂ : Float32) :
    Ends (edit (·.insertChild sp 0 a w₁)) l (fun _ l₁ =>
      Ends (edit (·.insertChild sp 1 b w₂)) l₁ (fun _ l' => l'.Planted ((E.erase a).erase b))
        fun _ _ => False) fun _ _ => False := by
  obtain ⟨s₁, h₁⟩ := Store.insertChild_ok 0 w₁ hsp (hl.rooted.extra_top ha).1
  have hl₁ := hl.insertChild h₁ ha hua
  have hsp₁ : s₁.IsContainer sp := by
    rw [Store.IsContainer, Store.form?_insertChild h₁]
    exact hsp
  obtain ⟨s₂, h₂⟩ := Store.insertChild_ok 1 w₂ hsp₁ (hl₁.rooted.extra_top hb).1
  rw [ends_edit_of_ok h₁, ends_edit_of_ok h₂]
  -- the first insertion hangs nothing below `b`
  exact hl₁.insertChild h₂ hb fun hu => hub ((Store.sealed_insertChild h₁ hub).under hu)

/-- Each child of `r`, with its weight, moves to the end of the held-out split `inner`; the
main root stays. -/
theorem ends_gather_planted {r inner : NodeId} (hl : l.Planted (inner :: E))
    (ps : List (NodeId × Float32)) :
    Ends (forIn ps PUnit.unit fun x _ => do
      let _ ← editWith (·.removeChild r x.1)
      edit fun s => s.insertChild inner (s.children inner).length x.1 x.2
      pure (ForInStep.yield PUnit.unit)) l
      (fun _ l' => l'.Planted (inner :: E) ∧ l'.root = l.root) fun _ l' => l'.Planted E := by
  refine ends_forIn ps _ _ (fun _ _ l' => l'.Planted (inner :: E) ∧ l'.root = l.root)
    (fun x rest _ l' hinv => ?_) ⟨hl, rfl⟩
  obtain ⟨hl', hroot'⟩ := hinv
  rw [ends_bind, ends_editWith]
  split
  · next w' s₁ h₁ =>
    rw [ends_bind, ends_edit]
    split
    · next s₂ h₂ => exact ⟨_, rfl, hl'.moveToHeld h₁ h₂, hroot'⟩
    · exact (hl'.removeChild h₁).tail.tail
  · exact hl'.tail

/-- The main root turns to the orientation `o`, keeping its children, then takes the moving
node at the front or at the end. -/
theorem ends_turnPlace_planted {moving r : NodeId} (hl : l.Planted (moving :: E))
    (hr : l.root = r) (o : Orientation) (leading : Bool) :
    Ends (do
      let n ← node r
      match n.kind with
      | .split _ cs ws => onStore (·.setKind r (.split o cs ws))
      | _ => pure ()
      let n ← node r
      let w := meanWeight n.kind.weights
      let index := if leading then 0 else n.kind.children.length
      edit (·.insertChild r index moving w)) l
      (fun _ l' => l'.Planted E) fun _ l' => l'.Planted (moving :: E) := by
  rw [ends_bind, ends_node]
  split
  · next n hn =>
    dsimp only
    split
    · next o' cs ws hk =>
      rw [ends_bind, ends_onStore]
      exact ends_placeRoot (hl.turnSplit hn hk) hr _ _
    · exact ends_placeRoot hl hr _ _
  · exact hl

/-- A new split of orientation `o` takes the slot of `anchor` in its container and holds
`anchor` and the moving node, in the order the side asks. -/
theorem ends_wrap_planted {moving anchor parent : NodeId} (hl : l.Planted (moving :: E))
    (hpar : l.store.parent? anchor = some parent) (hanc : ¬ Under l.store.parent? moving anchor)
    (o : Orientation) (leading : Bool) :
    Ends (do
      let split ← allocContainer (.emptySplit o)
      onError (edit (·.replaceChild parent anchor split)) fun e => do
        onStore (·.discard split)
        throw e
      let (first, second) := if leading then (moving, anchor) else (anchor, moving)
      edit (·.insertChild split 0 first defaultWeight)
      edit (·.insertChild split 1 second defaultWeight)) l
      (fun _ l' => l'.Planted E) fun _ l' => l'.Planted (moving :: E) := by
  have hf := hl.rooted.forest
  have hmp : ¬ Under l.store.parent? moving parent := fun hu => hanc (.inr (hu.of_parent hpar))
  obtain ⟨ident, hid⟩ := Store.allocContainer_eq l.store (.emptySplit o)
  have hl₁ := hl.alloc ident (.emptySplit o) rfl fun _ _ h => by cases h
  rw [ends_bind, ends_allocContainer, hid, ends_bind, ends_onError, ends_edit]
  split
  · next s₂ h₂ =>
    have hl₂ := hl₁.replaceChild h₂ List.mem_cons_self
      (hf.not_under_alloc (hf.contains_of_parent hpar))
    rw [List.erase_cons_head] at hl₂
    have hsp : s₂.IsContainer l.store.nextId := by
      refine .inr ?_
      rw [Store.form?_replaceChild h₂, Store.form?_alloc, if_pos rfl]
      rfl
    -- neither node held out lies above the new split
    have hum := Store.not_under_wrap h₂ (hl.rooted.extra_top List.mem_cons_self).1 hmp
    have hua := Store.not_under_wrap h₂ (Store.contains_of_parent? hpar)
      (hf.not_under_of_parent hpar)
    have hne : anchor ≠ moving := fun h => hanc (.inl h.symm)
    cases leading
    · rw [if_neg Bool.false_ne_true, ends_bind]
      refine (ends_insertTwo hl₂ hsp List.mem_cons_self (by simp) hua hum _ _).mono
        (fun _ _ h => h.mono (fun _ _ h => ?_) fun _ _ h => h.elim) fun _ _ h => h.elim
      simpa [hne] using h
    · rw [if_pos rfl, ends_bind]
      refine (ends_insertTwo hl₂ hsp (List.mem_cons_of_mem _ List.mem_cons_self)
        (by simp [hne]) hum hua _ _).mono
        (fun _ _ h => h.mono (fun _ _ h => ?_) fun _ _ h => h.elim) fun _ _ h => h.elim
      simpa [hne] using h
  · rw [ends_bind, ends_onStore, ends_throw]
    have hl₂ := hl₁.discard List.mem_cons_self (by rw [Store.held_alloc, if_pos rfl]; rfl)
    rwa [List.erase_cons_head] at hl₂

/-! ### Docking -/

/-- Within the split `parent` that holds both, `source` moves to the side of `anchor` that
`leading` names. -/
theorem ends_reorder_planted {parent source anchor : NodeId} (hl : l.Planted E)
    (leading : Bool) :
    Ends (do
      let w ← editWith (·.removeChild parent source)
      let index ← match (← store).childIndex parent anchor with
        | .ok i => pure i
        | .error e => throw e
      let index := if leading then index else index + 1
      edit (·.insertChild parent index source w)) l
      (fun _ l' => l'.Planted E) fun _ l' => l'.Planted E := by
  have hf := hl.rooted.forest
  rw [ends_bind, ends_editWith]
  split
  · next w s₁ h₁ =>
    have hl₁ := hl.removeChild h₁
    -- `source` was a child of `parent`, so once cut out it lies below no node of `parent`'s
    have hsp : l.store.parent? source = some parent := hf.held_parent (Store.removeChild_mem h₁)
    have hsp₁ : ¬ Under s₁.parent? source parent := fun hu =>
      hf.not_under_of_parent hsp (under_of_cut (Store.cut_removeChild h₁) hu)
    rw [ends_bind, ends_store]
    dsimp only
    split
    · rw [ends_bind, ends_pure]
      exact (ends_insertChild_planted hl₁ hsp₁ _ _).mono (fun _ _ h => h) fun _ _ h => h.tail
    · rw [ends_bind, ends_throw]
      exact hl₁.tail
  · exact hl


/-- Putting a held-out node against a side of `anchor`, which does not lie below it, keeps a
layout planted; a refusal leaves the node held out. -/
theorem ends_insertBeside_planted {moving anchor : NodeId} (hl : l.Planted (moving :: E))
    (side : Side) (hanc : ¬ Under l.store.parent? moving anchor) :
    Ends (insertBeside moving side anchor) l (fun _ l' => l'.Planted E)
      fun _ l' => l'.Planted (moving :: E) := by
  rw [insertBeside, ends_bind, ends_get]
  dsimp only
  split
  · next hroot =>
    obtain rfl : anchor = l.root := beq_iff_eq.mp hroot
    obtain ⟨rn, hrn⟩ := (Store.contains_iff _ _).mp
      (hl.rooted.tops_top _ (List.mem_append_left _ List.mem_cons_self)).1
    rw [ends_bind, ends_node_of hrn]
    split
    · -- the root's children first go, in order, into a new split of the old orientation,
      -- which then goes into the emptied root
      obtain ⟨ident, hid⟩ := Store.allocContainer_eq l.store
        (.emptySplit (rn.kind.orientation?.getD side.orientation))
      have hl₁ := hl.alloc ident (.emptySplit (rn.kind.orientation?.getD side.orientation)) rfl
        fun _ _ h => by cases h
      rw [ends_bind, ends_allocContainer, hid, ends_bind, ends_store, ends_bind]
      refine (ends_gather_planted hl₁ _).mono (fun _ l' hinv => ?_) fun _ _ h => h
      obtain ⟨hl', hroot'⟩ := hinv
      rw [ends_bind, ends_edit]
      split
      · next s₃ h₃ =>
        have hl₃ := hl'.pushChild h₃ List.mem_cons_self
          (hroot' ▸ hl'.not_under_root List.mem_cons_self)
        rw [List.erase_cons_head] at hl₃
        exact ends_turnPlace_planted hl₃ hroot' _ _
      · exact hl'.tail
    · exact ends_turnPlace_planted hl rfl _ _
  · next hroot =>
    split
    · next parent hpar =>
      have hmp : ¬ Under l.store.parent? moving parent := fun hu => hanc (.inr (hu.of_parent hpar))
      split
      · rw [ends_bind, ends_pure, ends_bind, ends_node]
        split
        · next pn hpn =>
          split
          · -- a split of the side's orientation: `moving` goes next to `anchor`
            next hor =>
            obtain ⟨o₀, cs₀, ws₀, hk₀⟩ : ∃ o₀ cs₀ ws₀, pn.kind = .split o₀ cs₀ ws₀ := by
              cases hk : pn.kind <;> simp_all [NodeKind.orientation?]
            rw [ends_bind, ends_onStore]
            refine ends_insertChild_planted
              (hl.setKind (by rw [hk₀]; dsimp only; split <;> rfl) fun n hn => ?_)
              (by rw [show (l.store.setKind _ _).parent? = l.store.parent? from
                funext fun x => Store.parent?_setKind _ _ _ _]; exact hmp) _ _
            rw [hpn] at hn
            cases hn
            split
            · next o' cs ws hk =>
              split <;> simp [hk, Store.walkChildren, NodeKind.form]
            · exact ⟨rfl, rfl⟩
          · -- otherwise a new split of the side's orientation takes the slot of `anchor`
            exact ends_wrap_planted hl hpar hanc _ _
        · exact hl
      · rw [ends_bind, ends_throw]
        exact hl
    · exact hl

/-- Docking a node against a side of another keeps a layout planted, carried out or refused. -/
theorem ends_moveNode_planted (hl : l.Planted E) (source : NodeId) (side : Side)
    (reference : NodeId) :
    Ends (moveNode source side reference) l (fun _ l' => l'.Planted E)
      fun _ l' => l'.Planted E := by
  have hl₀ : ({ l with zoomed := none } : Layout).Planted E := hl.of_frames rfl rfl rfl rfl rfl rfl
  rw [moveNode, ends_bind, ends_zoomOut]
  generalize ({ l with zoomed := none } : Layout) = l₀ at hl₀ ⊢
  rw [ends_bind]
  refine (ends_ensureMovable source).mono (fun _ l₁ h => ?_) fun _ l₁ h => h ▸ hl₀
  obtain ⟨h₁, -, hsrc, -⟩ := h
  rw [h₁]
  have hf := hl₀.rooted.forest
  rw [ends_bind, ends_get, ends_bind, ends_node]
  generalize (l₀.folderOf reference).getD reference = anchor
  split
  · next anchorNode hanchor =>
    extract_lets shared move findLine checkCount checkSelf checkParent
    have hac : l₀.store.contains anchor = true := (Store.contains_iff _ _).mpr ⟨_, hanchor⟩
    -- the move itself, once `anchor` is known to lie outside the subtree of `source`
    have hmove : ¬ Under l₀.store.parent? source anchor → ∀ line,
        Ends (move line) l₀ (fun _ l' => l'.Planted E) fun _ l' => l'.Planted E := by
      intro hanc line
      dsimp only [move]
      split
      · -- `source` moves within the split that holds both
        exact ends_reorder_planted hl₀ _
      · -- `source` is taken out and put against `anchor`
        rw [ends_bind]
        refine (ends_lift_planted hl₀ hsrc.contains).mono (fun moving l₂ h => ?_) fun _ _ h => h
        obtain ⟨hl₂, hout⟩ := h
        rw [ends_onError]
        refine (ends_insertBeside_planted hl₂ side (hout anchor hac hanc)).mono
          (fun _ _ h => h) fun _ l₃ h₃ => ?_
        -- refused: the moving node goes to the end of the root split
        rw [ends_bind, ends_get, ends_bind]
        exact (ends_pushChild_planted h₃ (h₃.not_under_root List.mem_cons_self)).mono
          (fun _ _ h => h) fun _ _ h => h.tail
    have hline : ¬ Under l₀.store.parent? source anchor → ∀ u,
        Ends (findLine u) l₀ (fun _ l' => l'.Planted E) fun _ l' => l'.Planted E := by
      intro hanc _
      dsimp only [findLine, shared]
      split
      · rw [ends_bind, ends_node]
        split
        · rw [ends_bind, ends_pure]
          exact hmove hanc _
        · exact hl₀
      · rw [ends_bind, ends_pure]
        exact hmove hanc none
    have hcount : ¬ Under l₀.store.parent? source anchor → ∀ u,
        Ends (checkCount u) l₀ (fun _ l' => l'.Planted E) fun _ l' => l'.Planted E := by
      intro hanc _
      dsimp only [checkCount]
      split
      · rw [ends_bind, ends_throw]
        exact hl₀
      · exact hline hanc ()
    -- past the check on itself, `anchor` lies outside the subtree of `source`
    have hself : ∀ u,
        Ends (checkSelf u) l₀ (fun _ l' => l'.Planted E) fun _ l' => l'.Planted E := by
      intro _
      dsimp only [checkSelf]
      split
      · rw [ends_bind, ends_throw]
        exact hl₀
      · next hc => exact hcount (hf.not_under_of_checked hc) ()
    have hparent : ∀ u,
        Ends (checkParent u) l₀ (fun _ l' => l'.Planted E) fun _ l' => l'.Planted E := by
      intro _
      dsimp only [checkParent]
      split
      · rw [ends_bind, ends_node]
        split
        · split
          · rw [ends_bind, ends_throw]
            exact hl₀
          · exact hself ()
        · exact hl₀
      · rw [ends_bind, ends_throw]
        exact hl₀
    split
    · split
      · rw [ends_bind, ends_throw]
        exact hl₀
      · exact hparent ()
    · exact hself ()
  · exact hl₀

theorem ends_movePane_planted (hl : l.Planted E) (part : PartId) (side : Side)
    (reference : PartId) :
    Ends (movePane part side reference) l (fun _ l' => l'.Planted E)
      fun _ l' => l'.Planted E := by
  rw [movePane, ends_bind, ends_get]
  split
  · split
    · exact ends_moveNode_planted hl _ _ _
    · exact hl
  · exact hl

/-! ### Stacking -/

/-- The folder to stack into keeps a layout planted: the reference itself, its folder, or a new
folder in its slot. It lies below no node of the table that did not hold the reference. -/
theorem ends_targetFolder_planted (hl : l.Planted E) (reference : NodeId) :
    Ends (targetFolder reference) l (fun f l' => l'.Planted E ∧
      ∀ x, l.store.contains x = true → ¬ Under l.store.parent? x reference →
        ¬ Under l'.store.parent? x f)
      fun _ l' => l'.Planted E := by
  have hf := hl.rooted.forest
  rw [targetFolder, ends_bind, ends_node]
  split
  · split
    · exact ⟨hl, fun _ _ h => h⟩
    rw [ends_bind, ends_get]
    split
    · next f hfo =>
      -- the folder of the reference lies above it
      have hpar := (folderOf_eq_some_iff.mp hfo).1
      exact ⟨hl, fun x _ hx hu => hx (.inr (hu.of_parent hpar))⟩
    split
    · next parent hpar =>
      obtain ⟨ident, hid⟩ := Store.allocContainer_eq l.store .emptyFolder
      have hl₁ := hl.alloc ident .emptyFolder rfl fun _ _ h => by cases h; rfl
      rw [ends_bind, ends_allocContainer, hid, ends_bind, ends_onError, ends_edit]
      split
      · next s₂ h₂ =>
        have hl₂ := hl₁.replaceChild h₂ List.mem_cons_self
          (hf.not_under_alloc (hf.contains_of_parent hpar))
        rw [List.erase_cons_head] at hl₂
        -- a node that did not hold the reference did not hold its container either
        have hout : ∀ x, l.store.contains x = true → ¬ Under l.store.parent? x reference →
            ¬ Under s₂.parent? x l.store.nextId := fun x hx hxr =>
          Store.not_under_wrap h₂ hx fun hu => hxr (.inr (hu.of_parent hpar))
        have hrf := Store.not_under_wrap h₂ (Store.contains_of_parent? hpar)
          (hf.not_under_of_parent hpar)
        rw [ends_bind, ends_edit]
        split
        · next s₃ h₃ =>
          have hl₃ := hl₂.pushChild h₃ List.mem_cons_self hrf
          rw [List.erase_cons_head] at hl₃
          exact ⟨hl₃, fun x hx hxr hu =>
            hout x hx hxr ((Store.sealed_pushChild h₃ (hout x hx hxr)).under hu)⟩
        · exact hl₂.tail
      · rw [ends_bind, ends_onStore, ends_throw]
        have hl₂ := hl₁.discard List.mem_cons_self (by rw [Store.held_alloc, if_pos rfl]; rfl)
        rwa [List.erase_cons_head] at hl₂
    · rw [ends_throw]
      exact hl
  · exact hl

/-- Moving a folder's tabs, or a pane, into a folder that does not lie below it keeps a layout
planted; an emptied folder goes. -/
theorem ends_moveInto_planted (hl : l.Planted E) {source f : NodeId}
    (hsf : ¬ Under l.store.parent? source f) (hsrc : l.store.Pickable source) :
    Ends (moveInto source f) l (fun _ l' => l'.Planted E) fun _ l' => l'.Planted E := by
  rw [moveInto, ends_bind, ends_node]
  split
  · next s hs =>
    split
    · next hfold =>
      have hcont : l.store.IsContainer source := .inl ((Store.form?_eq_folder_iff hs).mpr hfold)
      rw [ends_bind]
      refine (ends_transferTabs_planted hl hsf).mono (fun _ l₂ h₂ => ?_) fun _ _ h => h
      obtain ⟨hl₂, -, hheld⟩ := h₂
      rw [ends_bind, ends_store]
      split
      · -- the emptied folder leaves its container and goes
        rw [ends_bind]
        refine (ends_takeNode_planted hl₂ source).mono (fun _ l₃ h₃ => ?_) fun _ _ h => h
        rw [ends_onStore]
        have hl₄ := h₃.1.discard List.mem_cons_self
          (h₃.2.held_eq_nil hl₂.rooted.forest h₃.1.rooted.forest (hheld hcont))
        rwa [List.erase_cons_head] at hl₄
      · exact (ends_tidy_planted hl₂ source).mono (fun _ _ h => h.1) fun _ _ h => h
    · -- a pane leaves its container for the folder, and stays a pane to be selected there
      have hQ := keptByTidying_pickable source
      rw [ends_bind]
      refine ((ends_takeNode_planted hl source).and (hQ.keeps_takeNode source l hsrc)).mono
        (fun _ l₃ h₃ => ?_) fun _ _ h => h.1
      rw [ends_bind]
      refine ((ends_pushChild_planted h₃.1.1 fun hu => hsf (h₃.1.2.under hu)).and
        (hQ.keeps_edit (fun _ _ h => Store.thins_pushChild h) l₃ h₃.2)).mono
        (fun _ l₄ h₄ => ?_) fun _ _ h => h.1.tail
      rw [ends_bind]
      exact (ends_select_planted h₄.1 h₄.2).mono (fun _ _ h => h) fun _ _ h => h
  · exact hl

/-- Stacking a node into the folder of another keeps a layout planted, carried out or
refused. -/
theorem ends_stackNode_planted (hl : l.Planted E) (source reference : NodeId) :
    Ends (stackNode source reference) l (fun _ l' => l'.Planted E)
      fun _ l' => l'.Planted E := by
  have hl₀ : ({ l with zoomed := none } : Layout).Planted E := hl.of_frames rfl rfl rfl rfl rfl rfl
  rw [stackNode, ends_bind, ends_zoomOut]
  generalize ({ l with zoomed := none } : Layout) = l₀ at hl₀ ⊢
  rw [ends_bind]
  refine (ends_ensureMovable source).mono (fun _ l₁ h => ?_) fun _ l₁ h => h ▸ hl₀
  obtain ⟨h₁, -, hsrc, -⟩ := h
  rw [h₁]
  have hf := hl₀.rooted.forest
  -- `source` is a pane or a folder, and stays one through the edits before it is selected
  have hQ := keptByTidying_pickable source
  rw [ends_bind, ends_get]
  extract_lets checkTarget
  -- past the first check, the reference lies outside the subtree of `source`
  have htarget : ¬ Under l₀.store.parent? source reference → ∀ u,
      Ends (checkTarget u) l₀ (fun _ l' => l'.Planted E) fun _ l' => l'.Planted E := by
    intro hsr _
    refine (ends_bind _ _).mpr ?_
    cases hg : l₀.store.get? reference with
    | none =>
      rw [ends_node, hg]
      exact hl₀
    | some target =>
      refine (ends_node_of hg).mpr ?_
      extract_lets referenceFolder stackInto
      have hnew : Ends (targetFolder reference >>= fun f => moveInto source f) l₀
          (fun _ l' => l'.Planted E) fun _ l' => l'.Planted E := by
        rw [ends_bind]
        exact ((ends_targetFolder_planted hl₀ reference).and
          (hQ.keeps_targetFolder reference l₀ hsrc.pickable)).mono
          (fun _ _ h => ends_moveInto_planted h.1.1 (h.1.2 source hsrc.contains hsr) h.2)
          fun _ _ h => h.1
      have hinto : ∀ u, Ends (stackInto u) l₀ (fun _ l' => l'.Planted E)
          fun _ l' => l'.Planted E := by
        intro _
        refine (ends_bind _ _).mpr ?_
        cases hs : l₀.store.get? source with
        | none =>
          rw [ends_node, hs]
          exact hl₀
        | some s =>
          refine (ends_node_of hs).mpr ?_
          clear_value referenceFolder
          split
          · split
            · -- a tab of the folder goes to its end
              extract_lets reorder
              have hreorder : ∀ u, Ends (reorder u) l₀ (fun _ l' => l'.Planted E)
                  fun _ l' => l'.Planted E := by
                intro _
                dsimp only [reorder]
                rw [ends_bind, ends_editWith]
                split
                · next w s₁ h₁ =>
                  have hl₁ := hl₀.removeChild h₁
                  have hsp := hf.held_parent (Store.removeChild_mem h₁)
                  have hpick₁ := hQ.thins (Store.thins_removeChild h₁) hsrc.pickable
                  rw [ends_bind]
                  refine ((ends_pushChild_planted hl₁ fun hu => hf.not_under_of_parent hsp
                    (under_of_cut (Store.cut_removeChild h₁) hu)).and
                    (hQ.keeps_edit (fun _ _ h => Store.thins_pushChild h) _ hpick₁)).mono
                    (fun _ l₂ h₂ => ?_) fun _ _ h => h.1.tail
                  rw [ends_bind]
                  exact (ends_select_planted h₂.1 h₂.2).mono (fun _ _ h => h) fun _ _ h => h
                · exact hl₀
              split
              · rw [ends_bind, ends_throw]
                exact hl₀
              · exact hreorder ()
            · exact hnew
          · exact hnew
      split
      · rw [ends_bind, ends_throw]
        exact hl₀
      · exact hinto ()
  split
  · rw [ends_bind, ends_throw]
    exact hl₀
  · next hc => exact htarget (hf.not_under_of_checked hc) ()

theorem ends_stack_planted (hl : l.Planted E) (part reference : PartId) :
    Ends (stack part reference) l (fun _ l' => l'.Planted E) fun _ l' => l'.Planted E := by
  rw [stack, ends_bind, ends_get]
  split
  · split
    · exact ends_stackNode_planted hl _ _
    · exact hl
  · exact hl

/-! ### Floating -/

/-- Floating a node keeps a layout planted, carried out or refused: the node moves into a new
folder that a new window shows, or moves its own window. -/
theorem ends_detachNode_planted (hl : l.Planted E) (source : NodeId) (bounds : FloatRect) :
    Ends (detachNode source bounds) l (fun _ l' => l'.Planted E) fun _ l' => l'.Planted E := by
  rw [detachNode, ends_bind, ends_get]
  extract_lets float
  -- a new folder in a new window takes the node, which lies below no new node
  have hfloat : ∀ u {l' : Layout}, l'.Planted E → l'.store.contains source = true →
      l'.store.Pickable source →
      Ends (float u) l' (fun _ l'' => l''.Planted E) fun _ l'' => l''.Planted E := by
    intro _ l' hl' hsc hpick
    dsimp only [float]
    obtain ⟨ident, hid⟩ := Store.allocContainer_eq l'.store .emptyFolder
    have hl₁ := hl'.alloc ident .emptyFolder rfl fun _ _ h => by cases h; rfl
    have hform : (l'.store.alloc ident .emptyFolder).2.form? l'.store.nextId = some .folder := by
      rw [Store.form?_alloc, if_pos rfl]
      rfl
    rw [ends_bind, ends_allocContainer, hid, ends_bind]
    refine (ends_openWindow_planted hl₁ List.mem_cons_self hform bounds).mono
      (fun r l₂ h₂ => ?_) fun _ _ h => h.elim
    obtain ⟨hst, hl₂⟩ := h₂
    split
    · -- the host gives no surface: the new folder goes
      rw [Option.isSome_none, if_neg Bool.false_ne_true] at hl₂
      rw [ends_bind, ends_onStore, ends_pure]
      have hl₃ := hl₂.discard List.mem_cons_self (by rw [hst, Store.held_alloc, if_pos rfl]; rfl)
      rwa [List.erase_cons_head] at hl₃
    · rw [if_pos Option.isSome_some, List.erase_cons_head] at hl₂
      rw [ends_bind]
      refine (ends_moveInto_planted hl₂ (not_under_of_top ?_ ?_) ?_).mono (fun _ _ h => h)
        fun _ _ h => h
      · rw [hst, Store.parent?_alloc, if_pos rfl]
      · exact Store.ne_nextId_of_contains hsc
      · rw [hst]
        exact (keptByTidying_pickable source).alloc ident rfl hpick
  split
  · exact hl
  have hl₀ : ({ l with zoomed := none } : Layout).Planted E := hl.of_frames rfl rfl rfl rfl rfl rfl
  rw [ends_bind, ends_zoomOut, ends_bind]
  generalize ({ l with zoomed := none } : Layout) = l₀ at hl₀ ⊢
  refine (ends_ensureMovable source).mono (fun _ l₁ h => ?_) fun _ l₁ h => h ▸ hl₀
  obtain ⟨h₁, -, hsrc, -⟩ := h
  rw [h₁]
  rw [ends_bind, ends_get]
  split
  · -- a node that is all its window shows moves the window
    extract_lets lone
    split
    · rw [ends_bind]
      exact (ends_moveWindow_planted hl₀ _ _).mono (fun _ _ h => h) fun _ _ h => h
    · exact hfloat () hl₀ hsrc.contains hsrc.pickable
  · exact hfloat () hl₀ hsrc.contains hsrc.pickable

theorem ends_detach_planted (hl : l.Planted E) (part : PartId) (bounds : FloatRect) :
    Ends (detach part bounds) l (fun _ l' => l'.Planted E) fun _ l' => l'.Planted E := by
  rw [detach, ends_bind, ends_get]
  split
  · exact ends_detachNode_planted hl _ _
  · exact hl

end LayoutM

end Docking
