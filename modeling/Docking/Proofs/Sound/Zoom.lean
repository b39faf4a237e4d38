import Docking.Proofs.Sound.Stack
import Docking.Layout.Zoom
/-!
# Zooming, selecting tabs and fast views keep a layout sound

Zooming and bringing a tab to the top only select tabs and set the zoom, which leave the shape
of the table alone. Fast views are hidden with `removePane` and shown again with `addPane`, and
the list of them is no part of the shape either; `retainPanes` is a loop of hidings.
-/

namespace Docking

namespace LayoutM

open Layout

variable {l : Layout} {E : List NodeId}

/-- Zooming keeps a layout sound; it is refused only by its checks, before anything changes. -/
theorem ends_zoomNode_atomic (hs : l.Sound E) (n : NodeId) :
    Ends (zoomNode n) l (fun _ l' => l'.Sound E) fun _ l' => l' = l := by
  rw [zoomNode, ends_bind, ends_node]
  split
  · rw [ends_bind, ends_get]
    refine ends_guard (fun _ => rfl) fun _ => ends_guard (fun _ => rfl) fun _ => ?_
    have hs₁ := hs.sameShape (Store.sameShape_select l.store n) (hs.aligned.select n)
    rw [ends_bind, ends_select, ends_bind, ends_get]
    split
    · exact hs₁
    · rw [ends_bind, ends_modify, ends_pure]
      exact hs₁.of_frames rfl rfl rfl rfl rfl rfl
  · rfl

theorem ends_zoomNode (hs : l.Sound E) (n : NodeId) :
    Ends (zoomNode n) l (fun _ l' => l'.Sound E) fun _ l' => l'.Sound E :=
  (ends_zoomNode_atomic hs n).of_unchanged hs

theorem ends_zoomIn_atomic (hs : l.Sound E) (part : PartId) :
    Ends (zoomIn part) l (fun _ l' => l'.Sound E) fun _ l' => l' = l := by
  rw [zoomIn, ends_bind, ends_get]
  split
  · exact ends_zoomNode_atomic hs _
  · rfl

theorem ends_zoomIn (hs : l.Sound E) (part : PartId) :
    Ends (zoomIn part) l (fun _ l' => l'.Sound E) fun _ l' => l'.Sound E :=
  (ends_zoomIn_atomic hs part).of_unchanged hs

theorem ends_bringToTop_atomic (hs : l.Sound E) (part : PartId) :
    Ends (bringToTop part) l (fun _ l' => l'.Sound E) fun _ l' => l' = l := by
  rw [bringToTop, ends_bind, ends_get]
  split
  · rw [ends_select]
    exact hs.sameShape (Store.sameShape_select _ _) (hs.aligned.select _)
  · rfl

theorem ends_bringToTop (hs : l.Sound E) (part : PartId) :
    Ends (bringToTop part) l (fun _ l' => l'.Sound E) fun _ l' => l'.Sound E :=
  (ends_bringToTop_atomic hs part).of_unchanged hs

/-- Making a view fast is refused only by its checks, before anything changes: the view's
pane is then hidden, which is never refused for a pane that is found. -/
theorem ends_setFast_atomic (hs : l.Sound E) (part : PartId) :
    Ends (setFast part) l (fun _ l' => l'.Sound E) fun _ l' => l' = l := by
  rw [setFast, ends_bind, ends_get]
  split
  · next n hfind =>
    rw [ends_bind, ends_node]
    split
    · -- only a view can be made fast; the rest of the request follows the check
      dsimp only
      split
      · rw [ends_bind]
        refine (ends_removePane_atomic hs part).mono (fun _ l' hs' => ?_) fun _ _ h => ?_
        · rw [ends_modify]
          split
          · exact hs'
          · exact hs'.of_frames rfl rfl rfl rfl rfl rfl
        · rw [hfind] at h
          cases h.2
      · rw [ends_bind, ends_throw]
    · rfl
  · rfl

theorem ends_setFast (hs : l.Sound E) (part : PartId) :
    Ends (setFast part) l (fun _ l' => l'.Sound E) fun _ l' => l'.Sound E :=
  (ends_setFast_atomic hs part).of_unchanged hs

theorem ends_restoreFast_atomic (hs : l.Sound E) (part : PartId) :
    Ends (restoreFast part) l (fun _ l' => l'.Sound E) fun _ l' => l' = l := by
  rw [restoreFast, ends_bind, ends_get]
  exact ends_guard (fun _ => rfl) fun _ =>
    (ends_addPane_total hs _).mono (fun _ _ h => h) fun _ _ h => h.elim

theorem ends_restoreFast (hs : l.Sound E) (part : PartId) :
    Ends (restoreFast part) l (fun _ l' => l'.Sound E) fun _ l' => l'.Sound E :=
  (ends_restoreFast_atomic hs part).of_unchanged hs

theorem ends_clearFast (hs : l.Sound E) (part : PartId) :
    Ends (clearFast part) l (fun _ l' => l'.Sound E) fun _ l' => l'.Sound E := by
  rw [clearFast, ends_bind, ends_get, ends_bind, ends_set, ends_pure]
  exact hs.of_frames rfl rfl rfl rfl rfl rfl

theorem ends_retainPanes (hs : l.Sound E) (keep : PartId → Bool) :
    Ends (retainPanes keep) l (fun _ l' => l'.Sound E) fun _ l' => l'.Sound E := by
  rw [retainPanes, ends_bind, ends_get, ends_bind]
  refine (ends_forIn _ _ _ (fun _ _ l' => l'.Sound E) (fun part _ _ l₁ hs₁ => ?_) hs).mono
    (fun _ _ h => ?_) fun _ _ h => h
  · rw [ends_bind]
    exact (ends_removePane hs₁ part).mono (fun _ _ h => ⟨_, rfl, h⟩) fun _ _ h => h
  · exact h

end LayoutM

end Docking
