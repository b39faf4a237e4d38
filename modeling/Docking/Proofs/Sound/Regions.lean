import Docking.Proofs.Sound.Basic
import Docking.Layout.Regions
/-!
# Layout passes and sash drags keep a layout sound

A layout pass only sets bounds, and a sash drag only sets a split's weights: neither changes
the shape of the table, so both keep a layout sound, and a pass never fails.
-/

namespace Docking

namespace LayoutM

open Layout

variable {l : Layout} {E : List NodeId}

/-- A layout pass from a node never fails and keeps a layout sound. The induction is on the
depth left; each level sets one node's bounds and passes its children on, one by one. -/
theorem ends_assignFrom (fuel : Nat) :
    ∀ {l : Layout} (id : NodeId) (area : Rect) (shown : Bool), l.Sound E →
      Ends (assignFrom fuel id area shown) l (fun _ l' => l'.Sound E) fun _ _ => False := by
  induction fuel with
  | zero => intro l _ _ _ hs; exact hs
  | succ fuel ih =>
    intro l id area shown hs
    rw [assignFrom, ends_bind, ends_store]
    split
    · exact hs
    · next n hn =>
      split
      · exact hs
      · rw [ends_bind, ends_onStore]
        have hs₁ := hs.sameShape (Store.sameShape_setBounds l.store id area)
          (hs.aligned.setBounds id area)
        generalize ({ l with store := l.store.setBounds id area } : Layout) = l₁ at hs₁ ⊢
        -- a pane is a leaf; a folder's tabs and a split's shown children each get a pass
        split
        · exact hs₁
        · dsimp only
          rw [ends_bind]
          refine (ends_forIn _ _ _ (fun _ _ l' => l'.Sound E) (fun x _ _ l₂ hs₂ => ?_) hs₁).mono
            (fun _ _ h => h) fun _ _ h => h
          obtain ⟨child, i⟩ := x
          dsimp only
          rw [ends_bind]
          exact (ih _ _ _ hs₂).mono (fun _ _ h => ⟨_, rfl, h⟩) fun _ _ h => h
        · dsimp only
          rw [ends_bind]
          refine (ends_forIn _ _ _ (fun _ _ l' => l'.Sound E) (fun x _ _ l₂ hs₂ => ?_) hs₁).mono
            (fun _ _ h => h) fun _ _ h => h
          obtain ⟨⟨child, _⟩, r⟩ := x
          dsimp only
          rw [ends_bind]
          exact (ih _ _ _ hs₂).mono (fun _ _ h => ⟨_, rfl, h⟩) fun _ _ h => h
        · exact hs₁

/-- A pass over a window never fails and keeps a layout sound: the window's nodes are cleared
first, and the pass starts from the window's root or from its zoomed unit. -/
theorem ends_regions (hs : l.Sound E) (window : WindowRef) (area : Option Rect) :
    Ends (regions window area) l (fun _ l' => l'.Sound E) fun _ _ => False := by
  rw [regions, ends_bind, ends_get]
  split
  · exact hs
  · dsimp only
    rw [ends_bind]
    refine (ends_forIn _ _ _ (fun _ _ l' => l'.Sound E) (fun id _ _ l₁ hs₁ => ?_) hs).mono
      (fun _ l₂ hs₂ => ?_) fun _ _ h => h
    · rw [ends_bind, ends_onStore, ends_pure]
      exact ⟨_, rfl, hs₁.sameShape (Store.sameShape_setBounds _ _ _) (hs₁.aligned.setBounds _ _)⟩
    · rw [ends_bind, ends_get, ends_bind, ends_store]
      exact ends_assignFrom _ _ _ _ hs₂

theorem ends_layoutMain (hs : l.Sound E) (area : Rect) :
    Ends (layoutMain area) l (fun _ l' => l'.Sound E) fun _ _ => False :=
  ends_regions hs _ _

/-- A sash drag sets weights in place: the split keeps as many weights as it had. -/
theorem length_sashWeights {s : Store} {o : Orientation} {cs : List NodeId} {ws ws' : List Float32}
    {index : Nat} {delta : Int} (h : sashWeights s o cs ws index delta = .ok (some ws')) :
    ws'.length = ws.length := by
  -- each step of the fold sets one weight, if it is there
  have hfold : ∀ (ps : List (Nat × Int)) (acc : List Float32) (g : Nat × Int → Float32),
      (ps.foldl (fun acc (q : Nat × Int) => if q.1 < acc.length then acc.set q.1 (g q) else acc)
        acc).length = acc.length := by
    intro ps
    induction ps with
    | nil => exact fun _ _ => rfl
    | cons q ps ih =>
      intro acc g
      rw [List.foldl_cons, ih]
      split <;> simp
  unfold sashWeights at h
  dsimp only at h
  split at h
  · cases h
  split at h
  · cases h
  unfold Except.map at h
  split at h
  · cases h
  · cases h
    exact hfold _ _ _

/-- A sash drag keeps a layout sound: the new weights go to the same split, over the same
children. It is refused only when the node is no split, before anything changes. -/
theorem ends_resizeSash_atomic (hs : l.Sound E) (split : NodeId) (index : Nat) (delta : Int) :
    Ends (resizeSash split index delta) l (fun _ l' => l'.Sound E) fun _ l' => l' = l := by
  rw [resizeSash, ends_bind, ends_node]
  split
  · next n hn =>
    split
    · next o cs ws hk =>
      split
      · exact hs
      · rw [ends_bind, ends_store]
        split
        · exact hs
        · exact hs
        · next updated hup =>
          rw [ends_bind, ends_onStore, ends_pure]
          refine hs.sameShape (Store.sameShape_setKind fun m hm => ?_)
            (hs.aligned.setWeights (by rw [Store.kindOf, hn, ← hk]; rfl) _ (length_sashWeights hup))
          rw [hn] at hm
          cases hm
          rw [hk]
          exact ⟨rfl, rfl⟩
    · rw [ends_throw]
  · rfl

theorem ends_resizeSash (hs : l.Sound E) (split : NodeId) (index : Nat) (delta : Int) :
    Ends (resizeSash split index delta) l (fun _ l' => l'.Sound E) fun _ l' => l'.Sound E :=
  (ends_resizeSash_atomic hs split index delta).of_unchanged hs

end LayoutM

end Docking
