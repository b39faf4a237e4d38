import Docking.Proofs.Outcome
import Docking.Layout.Zoom
/-!
# Only minimizing makes fast views

A part becomes a fast view when a view is minimized (`LayoutM.setFast`) or when a document
that lists it is read back. The requests a page makes while it places its parts and while it
activates one (hiding and showing a pane, ending the zoom, raising a tab) leave the fast views
alone, and keep every property that reads only them (`LayoutM.ReadsFast`), but that showing a
pane drops its own part. So they never add one: they keep every fast view among the parts `S`
they found it among (`Layout.FastWithin S`).

`LayoutM.Keeps P x` says that `x` keeps a property `P` of layouts whether it is carried out
or refused. It composes along the `do` blocks of the requests (`keeps_bind`, `keeps_onError`),
and the loop that unfolds the tree above a placeholder keeps it level by level.
-/

namespace Docking

namespace Layout

/-- Every fast view of the layout is one of the parts `S`. -/
def FastWithin (S : List PartId) (l : Layout) : Prop := ∀ x ∈ l.fastViews, x ∈ S

end Layout

namespace LayoutM

/-- A request keeps a property of layouts: from a layout that has it, it ends in a layout that
has it, carried out or refused. -/
def Keeps {α : Type} (P : Layout → Prop) (x : LayoutM α) : Prop :=
  ∀ l, P l → Ends x l (fun _ l' => P l') fun _ l' => P l'

/-- The layout a request leaves, carried out or refused. -/
def leaves {α : Type} (x : LayoutM α) (l : Layout) : Layout :=
  match x.run l with
  | .ok _ l' => l'
  | .error _ l' => l'

section Rules

variable {α β : Type} {P : Layout → Prop}

theorem Keeps.leaves {x : LayoutM α} (h : Keeps P x) {l : Layout} (hl : P l) :
    P (x.leaves l) := by
  have hx := h l hl
  unfold Ends at hx
  unfold LayoutM.leaves
  exact match hr : x.run l, hx with
    | .ok _ _, hx => by rw [show x l = _ from hr] at hx; exact hx
    | .error _ _, hx => by rw [show x l = _ from hr] at hx; exact hx

theorem keeps_pure (b : β) : Keeps P (pure b : LayoutM β) := fun _ h => h

theorem keeps_bind {x : LayoutM α} {f : α → LayoutM β} (hx : Keeps P x)
    (hf : ∀ a, Keeps P (f a)) : Keeps P (x >>= f) := fun l hl => by
  rw [ends_bind]
  exact (hx l hl).mono (fun a l' h => hf a l' h) fun _ _ h => h

/-- What is read from the layout may steer the rest of the request, which then starts from
that same layout. -/
theorem keeps_get_bind {f : Layout → LayoutM β} (hf : ∀ l, P l → Keeps P (f l)) :
    Keeps P (get >>= f) := fun l hl => by
  rw [ends_bind, ends_get]
  exact hf l hl l hl

theorem keeps_throw (e : LayoutError) : Keeps P (throw e : LayoutM β) := fun _ h => h

theorem keeps_onError {x : LayoutM β} {h : LayoutError → LayoutM β} (hx : Keeps P x)
    (hh : ∀ e, Keeps P (h e)) : Keeps P (onError x h) := fun l hl => by
  rw [ends_onError]
  exact (hx l hl).mono (fun _ _ h => h) fun e l' h => hh e l' h

theorem keeps_store : Keeps P store := fun _ h => h

theorem keeps_node (id : NodeId) : Keeps P (node id) := fun l hl => by
  rw [ends_node]
  split <;> exact hl

theorem keeps_set {l' : Layout} (h : P l') : Keeps P (set l' : LayoutM Unit) :=
  fun _ _ => (ends_set l').mpr h

/-- A loop keeps a property when each pass keeps it, whether the pass goes on or stops. -/
theorem keeps_forIn {γ : Type} (xs : List γ) (b : β) {f : γ → β → LayoutM (ForInStep β)}
    (hf : ∀ x b, Keeps P (f x b)) : Keeps P (forIn xs b f) := by
  induction xs generalizing b with
  | nil => exact keeps_pure b
  | cons x rest ih =>
    rw [List.forIn_cons]
    refine keeps_bind (hf x b) fun r => ?_
    cases r with
    | done b' => exact keeps_pure b'
    | yield b' => exact ih b'

theorem keeps_climbFrom {pass : NodeId → LayoutM (Option NodeId)}
    (hpass : ∀ cur, Keeps P (pass cur)) : ∀ (k : Nat) (cur : NodeId), Keeps P (climbFrom pass k cur)
  | 0, _ => keeps_pure ()
  | k + 1, cur => by
    rw [climbFrom]
    refine keeps_bind (hpass cur) fun r => ?_
    cases r with
    | none => exact keeps_pure ()
    | some next => exact keeps_climbFrom hpass k next

end Rules

/-! ### Requests that leave the fast views alone -/

open Layout

/-- A property of layouts that reads only the fast views. -/
structure ReadsFast (P : Layout → Prop) : Prop where
  frame : ∀ {l l' : Layout}, P l → l'.fastViews = l.fastViews → P l'

theorem readsFast_fastWithin (S : List PartId) : ReadsFast (FastWithin S) :=
  ⟨fun hl h x hx => hl x (h ▸ hx)⟩

/-- Dropping a part from the fast views adds none. -/
theorem keeps_dropFast {S : List PartId} (part : PartId) : Keeps (FastWithin S) (dropFast part) :=
  fun _ hl x hx => hl x (List.mem_filter.mp hx).1

theorem fastViews_leaves_clearFast (part : PartId) (l : Layout) :
    ((clearFast part).leaves l).fastViews = l.fastViews.filter (· != part) := rfl

namespace ReadsFast

variable {P : Layout → Prop} (hP : ReadsFast P)
include hP

theorem keeps_onStore (f : Store → Store) : Keeps P (onStore f) := fun _ hl => hP.frame hl rfl

theorem keeps_edit (f : Store → Except LayoutError Store) : Keeps P (edit f) := fun l hl => by
  rw [ends_edit]
  split
  · exact hP.frame hl rfl
  · exact hl

theorem keeps_alloc (ident : String) (kind : NodeKind) : Keeps P (alloc ident kind) :=
  fun _ hl => hP.frame hl rfl

theorem keeps_select (id : NodeId) : Keeps P (select id) := fun _ hl => hP.frame hl rfl

theorem keeps_zoomOut : Keeps P zoomOut := fun _ hl => hP.frame hl rfl

theorem keeps_openWindow (folder : NodeId) (bounds : FloatRect) :
    Keeps P (openWindow folder bounds) := by
  refine keeps_get_bind fun l hl => ?_
  dsimp only
  split <;> exact fun _ _ => hP.frame hl rfl

theorem keeps_retireIfEmpty (w : WindowId) : Keeps P (retireIfEmpty w) := by
  refine keeps_get_bind fun l hl => ?_
  split
  · exact keeps_pure ()
  dsimp only
  split
  · exact keeps_pure ()
  split
  · exact keeps_set (hP.frame hl rfl)
  · exact keeps_set (hP.frame hl rfl)

theorem keeps_collapsePass (cur : NodeId) : Keeps P (collapsePass cur) := by
  refine keeps_get_bind fun _ _ => ?_
  split
  · exact keeps_pure _
  refine keeps_bind (keeps_node _) fun _ => ?_
  split
  · exact keeps_pure _
  split
  · exact keeps_pure _
  refine keeps_bind (keeps_node _) fun _ => ?_
  split
  · exact keeps_pure _
  exact keeps_bind (hP.keeps_alloc _ _) fun _ => keeps_bind (hP.keeps_edit _) fun _ =>
    keeps_bind (hP.keeps_edit _) fun _ => keeps_pure _

theorem keeps_collapseEmpty (start : NodeId) : Keeps P (collapseEmpty start) :=
  keeps_bind keeps_store fun _ => keeps_climbFrom hP.keeps_collapsePass _ _

/-- Hiding a pane leaves a placeholder and tidies the window; no fast view changes. -/
theorem keeps_removePane (part : PartId) : Keeps P (removePane part) := by
  refine keeps_bind hP.keeps_zoomOut fun _ => keeps_get_bind fun l _ => ?_
  split
  · split
    · refine keeps_bind (hP.keeps_alloc _ _) fun _ => ?_
      refine keeps_bind (keeps_onError (hP.keeps_edit _) fun _ =>
        keeps_bind (hP.keeps_onStore _) fun _ => keeps_throw _) fun _ => ?_
      refine keeps_bind (hP.keeps_onStore _) fun _ => ?_
      extract_lets finish
      have hfinish : ∀ u, Keeps P (finish u) := fun _ => keeps_pure _
      split
      · exact keeps_bind (hP.keeps_collapseEmpty _) hfinish
      · exact keeps_bind (hP.keeps_retireIfEmpty _) hfinish
      · exact hfinish ()
    · exact keeps_throw _
  · exact keeps_throw _

theorem keeps_retainPanes (keep : PartId → Bool) : Keeps P (retainPanes keep) :=
  keeps_get_bind fun _ _ => keeps_bind (keeps_forIn _ _ fun _ _ =>
    keeps_bind (hP.keeps_removePane _) fun _ => keeps_pure _) fun _ => keeps_pure ()

theorem keeps_unfoldPass (cur : NodeId) : Keeps P (unfoldPass cur) := by
  refine keeps_bind keeps_store fun s => ?_
  split
  · exact keeps_pure _
  refine keeps_bind (keeps_node _) fun p => ?_
  split
  · split
    · split
      · exact keeps_pure _
      · exact keeps_bind (hP.keeps_edit _) fun _ =>
          keeps_bind (hP.keeps_onStore _) fun _ => keeps_pure _
    · exact keeps_pure _
  · exact keeps_pure _

theorem keeps_unfoldFrom (k : Nat) (cur : NodeId) : Keeps P (unfoldFrom k cur) :=
  keeps_climbFrom hP.keeps_unfoldPass k cur

theorem keeps_replacePlaceholder (holder : NodeId) (pane : Pane) :
    Keeps P (replacePlaceholder holder pane) := by
  refine keeps_bind keeps_store fun s => ?_
  split
  · refine keeps_bind (hP.keeps_alloc _ _) fun n => ?_
    refine keeps_bind (keeps_onError (hP.keeps_edit _) fun _ =>
      keeps_bind (hP.keeps_onStore _) fun _ => keeps_throw _) fun _ => ?_
    exact keeps_bind (hP.keeps_onStore _) fun _ =>
      keeps_bind (keeps_bind keeps_store fun _ => hP.keeps_unfoldFrom _ _) fun _ =>
        keeps_bind (hP.keeps_select _) fun _ => keeps_pure n
  · exact keeps_throw _

theorem keeps_workbook (area : NodeId) : Keeps P (workbook area) := by
  refine keeps_bind keeps_store fun s => ?_
  split
  · exact keeps_pure _
  · exact keeps_bind (hP.keeps_alloc _ _) fun f => keeps_bind (hP.keeps_edit _) fun _ =>
      keeps_pure f

theorem keeps_placeDefault (pane : Pane) : Keeps P (placeDefault pane) := by
  refine keeps_bind (hP.keeps_alloc _ _) fun n => keeps_get_bind fun l _ => ?_
  dsimp only
  refine keeps_bind (keeps_onError ?_ fun _ => keeps_bind (hP.keeps_onStore _) fun _ =>
    keeps_throw _) fun _ => keeps_bind (hP.keeps_select _) fun _ => keeps_pure n
  split
  · exact keeps_bind (hP.keeps_workbook _) fun _ => hP.keeps_edit _
  · exact hP.keeps_edit _

/-- Showing a pane drops its part from the fast views and changes no other. -/
theorem keeps_addPane {pane : Pane} (hdrop : Keeps P (dropFast pane.part)) :
    Keeps P (addPane pane) := by
  refine keeps_bind hP.keeps_zoomOut fun _ => keeps_bind hdrop fun _ =>
    keeps_get_bind fun l hl => ?_
  split
  · exact keeps_pure _
  split
  · exact hP.keeps_replacePlaceholder _ _
  split
  · exact hP.keeps_placeDefault _
  split
  · exact hP.keeps_placeDefault _
  refine keeps_bind (fun _ _ => hP.frame hl rfl) fun _ =>
    keeps_bind (hP.keeps_openWindow _ _) fun opened => keeps_bind keeps_store fun _ => ?_
  dsimp only
  split
  · exact hP.keeps_replacePlaceholder _ _
  · exact keeps_bind (hP.keeps_onStore _) fun _ => hP.keeps_placeDefault _

theorem keeps_restoreFast {part : PartId} (hdrop : Keeps P (dropFast part)) :
    Keeps P (restoreFast part) := by
  refine keeps_get_bind fun _ _ => ?_
  split
  · exact keeps_bind (keeps_throw _) fun _ => hP.keeps_addPane hdrop
  · exact hP.keeps_addPane hdrop

theorem keeps_bringToTop (part : PartId) : Keeps P (bringToTop part) := by
  refine keeps_get_bind fun _ _ => ?_
  split
  · exact hP.keeps_select _
  · exact keeps_throw _

end ReadsFast

end LayoutM

end Docking
