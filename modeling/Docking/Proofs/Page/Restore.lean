import Docking.Proofs.Page.Bookkeeping
import Docking.Page.Persist
/-!
# What restoring a page keeps

Restoring a saved page replaces the layout, merges the saved history into the owned parts, and
activates the saved active part. Whatever the document holds, the answer says exactly whether
its layout was read back and its history, when there is one, parsed; the controller keeps the
parts it owned; the history ends up listing exactly the owned parts; and every fast view is an
owned part (`restoreKeepsBookkeeping`).

The fast views come from the document, so the layout's own restore does not bound them: it is
installing the layout that does, by clearing the fast views of parts the page does not own
before it places the owned parts that are missing (`install_ends`). The history is rebuilt
from the owned parts alone (`mergeHistory_ends`). From there on the page tracks its owned
parts (`PageM.Tracks`), and catching up with the layout and activating keep that.
-/

namespace Docking

namespace PageM

open Layout

section Install

/-- What installing a layout on `p` leaves: `p`'s controller and history, and every fast view
among the parts `S`. -/
def Installs (p : Page) (S : List PartId) (q : Page) : Prop :=
  q.controller = p.controller ∧ q.history = p.history ∧ q.layout.FastWithin S

theorem keeps_placeOwned {p : Page} {S : List PartId} (id : PartId) :
    Keeps (Installs p S) (placeOwned id) := by
  refine keeps_get_bind fun _ _ => ?_
  split
  · exact keeps_pure ()
  · split
    · exact keeps_pure ()
    · exact keeps_bind (fun _ hq => ends_onLayout _ fun _ =>
        ⟨hq.1, hq.2.1, ((LayoutM.readsFast_fastWithin _).keeps_addPane (LayoutM.keeps_dropFast _)).leaves hq.2.2⟩) fun _ => keeps_pure ()

/-- Installing a layout bounds its fast views by the owned parts, whatever layout it is. -/
theorem install_ends (l : Layout) (p : Page) :
    Ends (install l) p fun _ q => Installs p p.controller.ownedIds q := by
  rw [install, ends_bind, ends_modify, ends_bind, ends_get, ends_bind]
  refine ends_onLayout _ fun _ => ?_
  rw [ends_bind, ends_get, ends_bind]
  -- the stale fast views are cleared one by one: each fast view is owned or still to go
  refine (ends_forM _ _ (fun rest q => Installs p (p.controller.ownedIds ++ rest) q) ?_ ?_).mono
    fun _ q hq => ?_
  · intro x rest q hq
    rw [ends_bind]
    refine ends_onLayout _ fun _ => (ends_pure _).mpr ⟨hq.1, hq.2.1, fun y hy => ?_⟩
    rw [LayoutM.fastViews_leaves_clearFast, List.mem_filter, bne_iff_ne] at hy
    have hy' := hq.2.2 y hy.1
    simp only [List.mem_append, List.mem_cons] at hy' ⊢
    exact hy'.imp_right (Or.resolve_left · hy.2)
  · refine ⟨rfl, rfl, fun y hy => ?_⟩
    by_cases ho : p.controller.ownedIds.contains y
    · exact List.mem_append_left _ (List.contains_iff_mem.mp ho)
    · exact List.mem_append_right _ (List.mem_filter.mpr ⟨hy, by simpa using ho⟩)
  · -- the owned parts that are not shown are placed, which adds no fast view
    refine (ends_forM _ _ (fun _ => Installs p p.controller.ownedIds)
      (fun x _ q hq => keeps_placeOwned x q hq) ?_).mono fun _ _ h => h
    simpa [Installs] using hq

theorem loadLayout_ends (saved : Except RestoreError Memento) (p : Page) :
    Ends (loadLayout saved) p fun b q =>
      b = (saved.bind (Layout.restore p.layout.host)).toBool ∧
        Installs p p.controller.ownedIds q := by
  rw [loadLayout, ends_bind, ends_get]
  split
  · rename_i l hr
    rw [ends_bind]
    refine (install_ends l p).mono fun _ q hq => ⟨?_, hq⟩
    rw [hr]
    rfl
  · rename_i hr
    rw [ends_bind]
    refine (install_ends _ p).mono fun _ q hq => ⟨?_, hq⟩
    rw [hr]
    rfl

end Install

/-- Merging a history lists exactly the owned parts, whatever the history held. -/
theorem mergeHistory_ends (h : History) (p : Page) :
    Ends (mergeHistory h) p fun _ q => q.controller = p.controller ∧ q.layout = p.layout ∧
      ∀ x, x ∈ q.history.parts ↔ x ∈ p.controller.ownedIds := by
  rw [mergeHistory, ends_bind, ends_get, onHistory, ends_modify]
  refine ⟨rfl, rfl, fun x => ?_⟩
  rw [History.mem_parts_foldl ?_, History.parts_retain]
  · exact or_iff_right_of_imp fun hx => List.contains_iff_mem.mp (List.mem_filter.mp hx).2
  · -- an owned part the history lacks is added with its kind
    intro h' id hid y
    split
    · rename_i hc
      exact (or_iff_left_of_imp fun hy => hy ▸ (h'.contains_iff_mem_parts id).mp hc).symm
    · split
      · exact h'.mem_parts_recordOpened id _ y
      · rename_i hk
        exact absurd ((p.controller.isSome_kindOf?_iff id).mpr hid) (by simp [hk])

/-- Restoring a page from any document answers whether the document's layout was read back
and its history, when it has one, parsed; afterwards the controller owns the parts it owned,
the history lists exactly those parts, and every fast view is one of them. -/
theorem restoreKeepsBookkeeping (m : Memento) (p : Page) :
    Ends (restore m) p fun complete q =>
      complete = (((m.requireChild "layout").bind (Layout.restore p.layout.host)).toBool &&
        ((m.child? "history").map fun h => (History.restore h).toBool).getD true) ∧
      Tracks p.controller.parts q := by
  have hsaved : ((m.child? "history").map fun h => (History.restore h).toBool) =
      ((m.child? "history").map History.restore).map Except.toBool := by
    rw [Option.map_map]
    rfl
  rw [restore, ends_bind, ends_zoomed, ends_bind, hsaved]
  refine (loadLayout_ends _ p).mono fun loaded q ⟨hloaded, hinst⟩ => ?_
  subst hloaded
  rw [ends_bind, ends_get]
  dsimp only
  -- the saved history is merged, or the page's own when it is missing or unreadable; the three
  -- cases differ only in the answer
  split <;> rename_i hs <;> rw [hs, ends_bind] <;>
    refine (mergeHistory_ends _ q).mono fun _ r ⟨hc, hl, hh⟩ => ?_
  all_goals
    have hr : Tracks p.controller.parts r :=
      ⟨by rw [hc, hinst.1], fun x => by rw [hh, hinst.1]; rfl, hl ▸ hinst.1 ▸ hinst.2.2⟩
    rw [ends_bind]
    refine (keeps_changed _ r hr).mono fun _ s hs => ?_
    rw [ends_bind, ends_get]
    split
    · rw [ends_bind]
      exact (keeps_activate _ s hs).mono fun _ _ h =>
        (ends_pure _).mpr ⟨by simp [Except.toBool], h⟩
    · exact (ends_pure _).mpr ⟨by simp [Except.toBool], hs⟩

end PageM

end Docking
