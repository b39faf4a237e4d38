import Docking.Proofs.FastViews
import Docking.Drop.Gesture
import Docking.Layout.Regions
import Docking.Proofs.Reachable
/-!
# Requests touch the windows only by opening, retiring and moving them

Most requests edit the node table, the zoom and the fast views, and leave the detached
windows and the host alone. The few that change them do it through three requests of their
own: `openWindow` gives a folder a new window on a new surface, `retireIfEmpty` closes a
window whose panes are all hidden, and `moveWindow` moves a window.

`LayoutM.WindowSafe P` says that a property `P` of layouts reads only the detached windows,
the next window number and the host, and that these three requests keep it. Every request
but `closeWindows` then keeps `P` (`WindowSafe.keeps_addPane`, ...,
`WindowSafe.keeps_applyDrop`), and so does every command of a script but closing the windows,
a restore and a change of host (`Script.layoutStep_keeps`). The proofs follow the `do` blocks of the requests with
`keeps_bind`; the loops that climb the tree go by induction on their fuel, and the loops over
lists by `keeps_forIn`.
-/

namespace Docking

namespace LayoutM

open Layout

section Loops

variable {P : Layout → Prop}

/-- The checks before a move change nothing. -/
theorem keeps_ensureMovable (n : NodeId) : Keeps P (ensureMovable n) := by
  refine keeps_get_bind fun _ _ => ?_
  -- each check throws or goes on to the next one, the last one being on the window
  extract_lets checkWindow checkKind
  have hwindow : ∀ u, Keeps P (checkWindow u) := fun _ => by
    dsimp only [checkWindow]
    split
    · exact keeps_throw _
    · exact keeps_pure ()
  have hkind : ∀ u, Keeps P (checkKind u) := fun _ => by
    refine keeps_bind (keeps_node _) fun _ => ?_
    split
    · exact keeps_bind (keeps_throw _) hwindow
    · exact hwindow ()
  split
  · exact keeps_bind (keeps_throw _) hkind
  · exact hkind ()

end Loops

/-! ### Requests that only select, zoom and lay out

The zoom, the raising of a tab and the layout passes change no link and no form: a property
that selecting, zooming and setting bounds keep, one at a time, they keep too. -/

section Passes

variable {P : Layout → Prop}

theorem keeps_zoomNode_of (hsel : ∀ id l, P l → l.store.Movable id →
      Ends (select id) l (fun _ l' => P l') fun _ l' => P l')
    (hzoom : ∀ u, Keeps P (modify fun l => { l with zoomed := some u })) (n : NodeId) :
    Keeps P (zoomNode n) := by
  intro l hl
  rw [zoomNode, ends_bind, ends_node]
  split
  · next found hfound =>
    rw [ends_bind, ends_get]
    extract_lets unit zoom checkWindow
    -- the zoom selects `n`, which the first check found to be a pane or a folder
    have hz : l.store.Movable n → ∀ u, Ends (zoom u) l (fun _ l' => P l') fun _ l' => P l' :=
      fun hm _ => by
        refine (ends_bind _ _).mpr ((hsel n l hl hm).mono (fun _ l' h => ?_) fun _ _ h => h)
        refine keeps_get_bind (fun _ _ => ?_) l' h
        split
        · exact keeps_pure false
        · exact keeps_bind (hzoom _) fun _ => keeps_pure true
    split
    · rw [ends_bind, ends_throw]
      exact hl
    · next hcheck =>
      have hm : l.store.Movable n := Store.movable_of_get? hfound (by
        cases hk : (found.kind.isPane || found.kind.isFolder) <;> simp_all)
      dsimp only [checkWindow]
      split
      · rw [ends_bind, ends_throw]
        exact hl
      · exact hz hm ()
  · exact hl

theorem keeps_zoomIn_of (hsel : ∀ id l, P l → l.store.Movable id →
      Ends (select id) l (fun _ l' => P l') fun _ l' => P l')
    (hzoom : ∀ u, Keeps P (modify fun l => { l with zoomed := some u })) (part : PartId) :
    Keeps P (zoomIn part) := by
  refine keeps_get_bind fun _ _ => ?_
  split
  · exact keeps_zoomNode_of hsel hzoom _
  · exact keeps_throw _

/-- Raising a tab selects the pane that shows the part. -/
theorem keeps_bringToTop_of (hsel : ∀ id l, P l → l.store.Movable id →
      Ends (select id) l (fun _ l' => P l') fun _ l' => P l') (part : PartId) :
    Keeps P (bringToTop part) := by
  intro l hl
  rw [bringToTop, ends_bind, ends_get]
  split
  · next n hfind =>
    obtain ⟨p, -, hp⟩ := findPane_form hfind
    exact hsel n l hl (.inr ⟨p, hp⟩)
  · rw [ends_throw]
    exact hl

theorem keeps_assignFrom_of (hb : ∀ id r, Keeps P (onStore (·.setBounds id r))) (fuel : Nat) :
    ∀ id area shown, Keeps P (assignFrom fuel id area shown) := by
  induction fuel with
  | zero => exact fun _ _ _ => keeps_pure []
  | succ fuel ih =>
    intro id area shown
    rw [assignFrom]
    refine keeps_bind keeps_store fun _ => ?_
    split
    · exact keeps_pure []
    split
    · exact keeps_pure []
    refine keeps_bind (hb _ _) fun _ => ?_
    -- each tab of a folder, and each child of a split that takes space, gets its own pass
    split
    · exact keeps_pure _
    · dsimp only
      refine keeps_bind (keeps_forIn _ _ fun x _ => ?_) fun _ => keeps_pure _
      obtain ⟨child, i⟩ := x
      exact keeps_bind (ih _ _ _) fun _ => keeps_pure _
    · dsimp only
      refine keeps_bind (keeps_forIn _ _ fun x _ => ?_) fun _ => keeps_pure _
      obtain ⟨⟨child, _⟩, r⟩ := x
      exact keeps_bind (ih _ _ _) fun _ => keeps_pure _
    · exact keeps_pure []

theorem keeps_regions_of (hb : ∀ id r, Keeps P (onStore (·.setBounds id r))) (window : WindowRef)
    (area : Option Rect) : Keeps P (regions window area) := by
  refine keeps_get_bind fun _ _ => ?_
  split
  · exact keeps_pure []
  · dsimp only
    refine keeps_bind (keeps_forIn _ _ fun _ _ =>
      keeps_bind (hb _ _) fun _ => keeps_pure _) fun _ => keeps_get_bind fun _ _ => ?_
    exact keeps_bind keeps_store fun _ => keeps_assignFrom_of hb _ _ _ _

end Passes

/-- A property of layouts that reads only their detached windows, their next window number
and their host, and that opening, retiring and moving a window keep. -/
structure WindowSafe (P : Layout → Prop) : Prop where
  frame : ∀ {l l' : Layout}, P l → l'.windows = l.windows → l'.nextWindow = l.nextWindow →
    l'.host = l.host → P l'
  openWindow : ∀ f b, Keeps P (openWindow f b)
  retireIfEmpty : ∀ w, Keeps P (retireIfEmpty w)
  moveWindow : ∀ w b, Keeps P (moveWindow w b)

namespace WindowSafe

variable {P : Layout → Prop}

/-! ### The primitives: none of them touches a window -/

theorem keeps_onStore (hP : WindowSafe P) (f : Store → Store) : Keeps P (onStore f) :=
  fun _ hl => (ends_onStore f).mpr (hP.frame hl rfl rfl rfl)

theorem keeps_edit (hP : WindowSafe P) (f : Store → Except LayoutError Store) :
    Keeps P (edit f) := fun l hl => by
  rw [ends_edit]
  split
  · exact hP.frame hl rfl rfl rfl
  · exact hl

theorem keeps_editWith {α : Type} (hP : WindowSafe P)
    (f : Store → Except LayoutError (α × Store)) : Keeps P (editWith f) := fun l hl => by
  rw [ends_editWith]
  split
  · exact hP.frame hl rfl rfl rfl
  · exact hl

theorem keeps_alloc (hP : WindowSafe P) (ident : String) (kind : NodeKind) :
    Keeps P (alloc ident kind) :=
  fun _ hl => (ends_alloc ident kind).mpr (hP.frame hl rfl rfl rfl)

theorem keeps_allocContainer (hP : WindowSafe P) (kind : NodeKind) :
    Keeps P (allocContainer kind) :=
  fun _ hl => (ends_allocContainer kind).mpr (hP.frame hl rfl rfl rfl)

theorem keeps_select (hP : WindowSafe P) (id : NodeId) : Keeps P (select id) :=
  fun _ hl => (ends_select id).mpr (hP.frame hl rfl rfl rfl)

theorem keeps_zoomOut (hP : WindowSafe P) : Keeps P zoomOut :=
  fun _ hl => ends_zoomOut.mpr (hP.frame hl rfl rfl rfl)

theorem keeps_dropFast (hP : WindowSafe P) (part : PartId) : Keeps P (dropFast part) :=
  fun _ hl => (ends_dropFast part).mpr (hP.frame hl rfl rfl rfl)

theorem keeps_modify (hP : WindowSafe P) {f : Layout → Layout}
    (hf : ∀ l, (f l).windows = l.windows ∧ (f l).nextWindow = l.nextWindow ∧ (f l).host = l.host) :
    Keeps P (modify f) := fun l hl => by
  obtain ⟨hw, hn, hh⟩ := hf l
  exact (ends_modify f).mpr (hP.frame hl hw hn hh)

/-! ### Hiding and tidying -/

theorem keeps_collapsePass (hP : WindowSafe P) (cur : NodeId) : Keeps P (collapsePass cur) := by
  refine keeps_get_bind fun _ _ => ?_
  split
  · exact keeps_pure _
  refine keeps_bind (keeps_node _) fun _ => ?_
  split
  · exact keeps_pure _
  split
  · exact keeps_pure _
  refine keeps_bind (keeps_node _) fun _ => ?_
  split
  · exact keeps_pure _
  exact keeps_bind (hP.keeps_alloc _ _) fun _ => keeps_bind (hP.keeps_edit _) fun _ =>
    keeps_bind (hP.keeps_edit _) fun _ => keeps_pure _

theorem keeps_collapseFrom (hP : WindowSafe P) (k : Nat) : ∀ cur, Keeps P (collapseFrom k cur) :=
  keeps_climbFrom hP.keeps_collapsePass k

theorem keeps_collapseEmpty (hP : WindowSafe P) (start : NodeId) :
    Keeps P (collapseEmpty start) :=
  keeps_bind keeps_store fun _ => hP.keeps_collapseFrom _ _

/-- A pass of tidying changes the windows only by retiring the window whose folder it
reaches. -/
theorem keeps_tidyPass (hP : WindowSafe P) (cur : NodeId) : Keeps P (tidyPass cur) := by
  refine keeps_get_bind fun l hl => ?_
  split
  · exact keeps_pure _
  split
  · exact keeps_bind (hP.retireIfEmpty _) fun _ => keeps_pure _
  split
  · split
    · exact keeps_bind (keeps_set (hP.frame hl rfl rfl rfl)) fun _ => keeps_pure _
    · exact keeps_pure _
  split
  · exact keeps_pure _
  refine keeps_bind (keeps_node _) fun _ => keeps_bind (keeps_node _) fun _ => ?_
  split
  · split
    · exact keeps_pure _
    split
    · exact keeps_pure _
    exact keeps_bind (hP.keeps_editWith _) fun _ => keeps_bind (hP.keeps_onStore _) fun _ =>
      keeps_pure _
  split
  · exact keeps_bind (hP.keeps_editWith _) fun _ => keeps_bind (hP.keeps_onStore _) fun _ =>
      keeps_pure _
  split
  · exact keeps_bind (hP.keeps_editWith _) fun _ => keeps_bind (hP.keeps_edit _) fun _ =>
      keeps_bind (hP.keeps_onStore _) fun _ => keeps_pure _
  refine keeps_get_bind fun _ _ => ?_
  dsimp only
  split
  · exact keeps_bind (hP.keeps_collapseEmpty _) fun _ => keeps_pure _
  · exact keeps_pure _

theorem keeps_tidyFrom (hP : WindowSafe P) (k : Nat) : ∀ cur, Keeps P (tidyFrom k cur) :=
  keeps_climbFrom hP.keeps_tidyPass k

theorem keeps_tidy (hP : WindowSafe P) (start : NodeId) : Keeps P (tidy start) :=
  keeps_bind keeps_store fun _ => hP.keeps_tidyFrom _ _

theorem keeps_takeNode (hP : WindowSafe P) (n : NodeId) : Keeps P (takeNode n) := by
  refine keeps_bind keeps_store fun _ => ?_
  split
  · exact keeps_throw _
  · exact keeps_bind (hP.keeps_editWith _) fun _ => keeps_bind (hP.keeps_tidy _) fun _ =>
      keeps_pure _

theorem keeps_removePane (hP : WindowSafe P) (part : PartId) : Keeps P (removePane part) := by
  refine keeps_bind hP.keeps_zoomOut fun _ => keeps_get_bind fun l _ => ?_
  split
  · split
    · refine keeps_bind (hP.keeps_alloc _ _) fun _ => ?_
      refine keeps_bind (keeps_onError (hP.keeps_edit _) fun _ =>
        keeps_bind (hP.keeps_onStore _) fun _ => keeps_throw _) fun _ => ?_
      refine keeps_bind (hP.keeps_onStore _) fun _ => ?_
      -- the tidying of the window the pane was in, then the join point answering the holder
      extract_lets finish
      have hfinish : ∀ u, Keeps P (finish u) := fun _ => keeps_pure _
      split
      · exact keeps_bind (hP.keeps_collapseEmpty _) hfinish
      · exact keeps_bind (hP.retireIfEmpty _) hfinish
      · exact hfinish ()
    · exact keeps_throw _
  · exact keeps_throw _

theorem keeps_disposePane (hP : WindowSafe P) (part : PartId) : Keeps P (disposePane part) := by
  refine keeps_bind hP.keeps_zoomOut fun _ => keeps_bind (hP.keeps_dropFast _) fun _ =>
    keeps_get_bind fun _ _ => ?_
  split
  · exact keeps_bind (hP.keeps_takeNode _) fun _ => hP.keeps_onStore _
  · exact keeps_throw _

/-! ### Showing -/

theorem keeps_unfoldPass (hP : WindowSafe P) (cur : NodeId) : Keeps P (unfoldPass cur) := by
  refine keeps_bind keeps_store fun _ => ?_
  split
  · exact keeps_pure _
  refine keeps_bind (keeps_node _) fun _ => ?_
  split
  · split
    · split
      · exact keeps_pure _
      · exact keeps_bind (hP.keeps_edit _) fun _ => keeps_bind (hP.keeps_onStore _) fun _ =>
          keeps_pure _
    · exact keeps_pure _
  · exact keeps_pure _

theorem keeps_unfoldFrom (hP : WindowSafe P) (k : Nat) : ∀ cur, Keeps P (unfoldFrom k cur) :=
  keeps_climbFrom hP.keeps_unfoldPass k

theorem keeps_replacePlaceholder (hP : WindowSafe P) (holder : NodeId) (pane : Pane) :
    Keeps P (replacePlaceholder holder pane) := by
  refine keeps_bind keeps_store fun _ => ?_
  split
  · refine keeps_bind (hP.keeps_alloc _ _) fun n => ?_
    refine keeps_bind (keeps_onError (hP.keeps_edit _) fun _ =>
      keeps_bind (hP.keeps_onStore _) fun _ => keeps_throw _) fun _ => ?_
    exact keeps_bind (hP.keeps_onStore _) fun _ =>
      keeps_bind (keeps_bind keeps_store fun _ => hP.keeps_unfoldFrom _ _) fun _ =>
        keeps_bind (hP.keeps_select _) fun _ => keeps_pure n
  · exact keeps_throw _

theorem keeps_workbook (hP : WindowSafe P) (area : NodeId) : Keeps P (workbook area) := by
  refine keeps_bind keeps_store fun _ => ?_
  split
  · exact keeps_pure _
  · exact keeps_bind (hP.keeps_alloc _ _) fun f => keeps_bind (hP.keeps_edit _) fun _ =>
      keeps_pure f

theorem keeps_placeDefault (hP : WindowSafe P) (pane : Pane) : Keeps P (placeDefault pane) := by
  refine keeps_bind (hP.keeps_alloc _ _) fun n => keeps_get_bind fun _ _ => ?_
  dsimp only
  refine keeps_bind (keeps_onError ?_ fun _ => keeps_bind (hP.keeps_onStore _) fun _ =>
    keeps_throw _) fun _ => keeps_bind (hP.keeps_select _) fun _ => keeps_pure n
  split
  · exact keeps_bind (hP.keeps_workbook _) fun _ => hP.keeps_edit _
  · exact hP.keeps_edit _

/-- Showing a pane changes the windows only by reopening the parked window of its
placeholder. -/
theorem keeps_addPane (hP : WindowSafe P) (pane : Pane) : Keeps P (addPane pane) := by
  refine keeps_bind hP.keeps_zoomOut fun _ => keeps_bind (hP.keeps_dropFast _) fun _ =>
    keeps_get_bind fun l hl => ?_
  split
  · exact keeps_pure _
  split
  · exact hP.keeps_replacePlaceholder _ _
  split
  · exact hP.keeps_placeDefault _
  split
  · exact hP.keeps_placeDefault _
  refine keeps_bind (keeps_set (hP.frame hl rfl rfl rfl)) fun _ =>
    keeps_bind (hP.openWindow _ _) fun _ => keeps_bind keeps_store fun _ => ?_
  dsimp only
  split
  · exact hP.keeps_replacePlaceholder _ _
  · exact keeps_bind (hP.keeps_onStore _) fun _ => hP.keeps_placeDefault _

/-! ### Moving -/

theorem keeps_transferTabs (hP : WindowSafe P) (src dst : NodeId) :
    Keeps P (transferTabs src dst) := by
  refine keeps_bind (keeps_node _) fun _ => keeps_bind keeps_store fun _ => ?_
  refine keeps_bind (keeps_forIn _ _ fun _ _ =>
    keeps_bind (hP.keeps_editWith _) fun _ => keeps_bind (hP.keeps_edit _) fun _ =>
      keeps_pure _) fun _ => ?_
  split
  · exact keeps_bind (hP.keeps_select _) fun _ => keeps_pure ()
  · exact keeps_pure ()

theorem keeps_lift (hP : WindowSafe P) (source : NodeId) : Keeps P (lift source) := by
  refine keeps_bind keeps_store fun _ => ?_
  split
  · exact keeps_bind (hP.keeps_takeNode _) fun _ => keeps_pure _
  · exact keeps_bind (hP.keeps_allocContainer _) fun f =>
      keeps_bind (hP.keeps_transferTabs _ _) fun _ => keeps_bind (hP.keeps_tidy _) fun _ =>
        keeps_pure f

theorem keeps_insertBeside (hP : WindowSafe P) (moving : NodeId) (side : Side) (anchor : NodeId) :
    Keeps P (insertBeside moving side anchor) := by
  refine keeps_get_bind fun _ _ => ?_
  split
  · -- against the root: its children may move into an inner split first, then it turns
    refine keeps_bind (keeps_node _) fun _ => ?_
    extract_lets current place turn weights
    have hplace : ∀ u, Keeps P (place u) := fun _ =>
      keeps_bind (keeps_node _) fun _ => hP.keeps_edit _
    have hturn : ∀ u, Keeps P (turn u) := fun _ => by
      refine keeps_bind (keeps_node _) fun _ => ?_
      split
      · exact keeps_bind (hP.keeps_onStore _) hplace
      · exact hplace ()
    split
    · refine keeps_bind (hP.keeps_allocContainer _) fun _ => keeps_bind keeps_store fun _ => ?_
      refine keeps_bind (keeps_forIn _ _ fun _ _ =>
        keeps_bind (hP.keeps_editWith _) fun _ => keeps_bind (hP.keeps_edit _) fun _ =>
          keeps_pure _) fun _ => ?_
      exact keeps_bind (hP.keeps_edit _) hturn
    · exact hturn ()
  · split
    · -- beside a node of a split: the split takes it, or a new split takes the node's slot
      extract_lets place
      have hplace : ∀ index, Keeps P (place index) := fun _ => by
        refine keeps_bind (keeps_node _) fun _ => ?_
        dsimp only
        split
        · split <;> exact keeps_bind (hP.keeps_onStore _) fun _ => hP.keeps_edit _
        · refine keeps_bind (hP.keeps_allocContainer _) fun _ => ?_
          refine keeps_bind (keeps_onError (hP.keeps_edit _) fun _ =>
            keeps_bind (hP.keeps_onStore _) fun _ => keeps_throw _) fun _ => ?_
          split <;> exact keeps_bind (hP.keeps_edit _) fun _ => hP.keeps_edit _
      split
      · exact keeps_bind (keeps_pure _) hplace
      · exact keeps_bind (keeps_throw _) hplace
    · exact keeps_throw _

/-- Docking changes the windows only by the tidying behind the node it takes out. -/
theorem keeps_moveNode (hP : WindowSafe P) (source : NodeId) (side : Side) (reference : NodeId) :
    Keeps P (moveNode source side reference) := by
  refine keeps_bind hP.keeps_zoomOut fun _ => keeps_bind (keeps_ensureMovable _) fun _ =>
    keeps_get_bind fun _ _ => ?_
  -- the checks on the anchor, each throwing or going on to the next, then the move itself
  extract_lets anchor shared move findLine checkCount checkSelf checkParent
  have hmove : ∀ line, Keeps P (move line) := fun line => by
    dsimp only [move]
    split
    · refine keeps_bind (hP.keeps_editWith _) fun _ => keeps_bind keeps_store fun _ => ?_
      split
      · exact keeps_bind (keeps_pure _) fun _ => hP.keeps_edit _
      · exact keeps_bind (keeps_throw _) fun _ => hP.keeps_edit _
    · exact keeps_bind (hP.keeps_lift _) fun _ => keeps_onError (hP.keeps_insertBeside _ _ _)
        fun _ => keeps_get_bind fun _ _ => keeps_bind (hP.keeps_edit _) fun _ => keeps_throw _
  have hline : ∀ u, Keeps P (findLine u) := fun _ => by
    dsimp only [findLine, shared]
    split
    · exact keeps_bind (keeps_node _) fun _ => keeps_bind (keeps_pure _) hmove
    · exact keeps_bind (keeps_pure _) hmove
  have hcount : ∀ u, Keeps P (checkCount u) := fun _ => by
    dsimp only [checkCount]
    split
    · exact keeps_bind (keeps_throw _) hline
    · exact hline ()
  have hself : ∀ u, Keeps P (checkSelf u) := fun _ => by
    dsimp only [checkSelf]
    split
    · exact keeps_bind (keeps_throw _) hcount
    · exact hcount ()
  have hparent : ∀ u, Keeps P (checkParent u) := fun _ => by
    dsimp only [checkParent]
    split
    · refine keeps_bind (keeps_node _) fun _ => ?_
      split
      · exact keeps_bind (keeps_throw _) hself
      · exact hself ()
    · exact keeps_bind (keeps_throw _) hself
  refine keeps_bind (keeps_node _) fun _ => ?_
  split
  · split
    · exact keeps_bind (keeps_throw _) hparent
    · exact hparent ()
  · exact hself ()

theorem keeps_movePane (hP : WindowSafe P) (part : PartId) (side : Side) (reference : PartId) :
    Keeps P (movePane part side reference) := by
  refine keeps_get_bind fun _ _ => ?_
  split
  · split
    · exact hP.keeps_moveNode _ _ _
    · exact keeps_throw _
  · exact keeps_throw _

theorem keeps_targetFolder (hP : WindowSafe P) (reference : NodeId) :
    Keeps P (targetFolder reference) := by
  refine keeps_bind (keeps_node _) fun _ => ?_
  split
  · exact keeps_pure _
  refine keeps_get_bind fun _ _ => ?_
  split
  · exact keeps_pure _
  split
  · refine keeps_bind (hP.keeps_allocContainer _) fun f => ?_
    refine keeps_bind (keeps_onError (hP.keeps_edit _) fun _ =>
      keeps_bind (hP.keeps_onStore _) fun _ => keeps_throw _) fun _ => ?_
    exact keeps_bind (hP.keeps_edit _) fun _ => keeps_pure f
  · exact keeps_throw _

theorem keeps_moveInto (hP : WindowSafe P) (source f : NodeId) : Keeps P (moveInto source f) := by
  refine keeps_bind (keeps_node _) fun _ => ?_
  split
  · refine keeps_bind (hP.keeps_transferTabs _ _) fun _ => keeps_bind keeps_store fun _ => ?_
    split
    · exact keeps_bind (hP.keeps_takeNode _) fun _ => hP.keeps_onStore _
    · exact hP.keeps_tidy _
  · exact keeps_bind (hP.keeps_takeNode _) fun _ => keeps_bind (hP.keeps_edit _) fun _ =>
      keeps_bind (hP.keeps_select _) fun _ => keeps_pure ()

theorem keeps_stackNode (hP : WindowSafe P) (source reference : NodeId) :
    Keeps P (stackNode source reference) := by
  refine keeps_bind hP.keeps_zoomOut fun _ => keeps_bind (keeps_ensureMovable _) fun _ =>
    keeps_get_bind fun _ _ => ?_
  extract_lets checkTarget
  have htarget : ∀ u, Keeps P (checkTarget u) := fun _ => by
    refine keeps_bind (keeps_node _) fun _ => ?_
    extract_lets referenceFolder stackInto
    have hinto : ∀ u, Keeps P (stackInto u) := fun _ => by
      refine keeps_bind (keeps_node _) fun _ => ?_
      clear_value referenceFolder
      have hnew : Keeps P (targetFolder reference >>= fun f => moveInto source f) :=
        keeps_bind (hP.keeps_targetFolder _) fun _ => hP.keeps_moveInto _ _
      split
      · split
        · -- a tab of the folder goes to its end
          extract_lets reorder
          have hreorder : ∀ u, Keeps P (reorder u) := fun _ =>
            keeps_bind (hP.keeps_editWith _) fun _ => keeps_bind (hP.keeps_edit _) fun _ =>
              keeps_bind (hP.keeps_select _) fun _ => keeps_pure ()
          split
          · exact keeps_bind (keeps_throw _) hreorder
          · exact hreorder ()
        · exact hnew
      · exact hnew
    split
    · exact keeps_bind (keeps_throw _) hinto
    · exact hinto ()
  split
  · exact keeps_bind (keeps_throw _) htarget
  · exact htarget ()

theorem keeps_stack (hP : WindowSafe P) (part reference : PartId) :
    Keeps P (stack part reference) := by
  refine keeps_get_bind fun _ _ => ?_
  split
  · split
    · exact hP.keeps_stackNode _ _
    · exact keeps_throw _
  · exact keeps_throw _

/-- Floating a node opens a window for it, or moves the window it is all of. -/
theorem keeps_detachNode (hP : WindowSafe P) (source : NodeId) (bounds : FloatRect) :
    Keeps P (detachNode source bounds) := by
  refine keeps_get_bind fun _ _ => ?_
  extract_lets float
  have hfloat : ∀ u, Keeps P (float u) := fun _ => by
    refine keeps_bind (hP.keeps_allocContainer _) fun _ =>
      keeps_bind (hP.openWindow _ _) fun _ => ?_
    split
    · exact keeps_bind (hP.keeps_onStore _) fun _ => keeps_pure none
    · exact keeps_bind (hP.keeps_moveInto _ _) fun _ => keeps_pure _
  split
  · exact keeps_pure none
  refine keeps_bind hP.keeps_zoomOut fun _ => keeps_bind (keeps_ensureMovable _) fun _ =>
    keeps_get_bind fun _ _ => ?_
  split
  · -- a node that is all its window shows moves the window
    extract_lets lone
    split
    · exact keeps_bind (hP.moveWindow _ _) fun _ => keeps_pure _
    · exact hfloat ()
  · exact hfloat ()

theorem keeps_detach (hP : WindowSafe P) (part : PartId) (bounds : FloatRect) :
    Keeps P (detach part bounds) := by
  refine keeps_get_bind fun _ _ => ?_
  split
  · exact hP.keeps_detachNode _ _
  · exact keeps_throw _

/-! ### Zoom, tabs and fast views -/

theorem keeps_zoomNode (hP : WindowSafe P) (n : NodeId) : Keeps P (zoomNode n) :=
  keeps_zoomNode_of (fun _ l hl _ => hP.keeps_select _ l hl)
    (fun _ => hP.keeps_modify fun _ => ⟨rfl, rfl, rfl⟩) n

theorem keeps_zoomIn (hP : WindowSafe P) (part : PartId) : Keeps P (zoomIn part) :=
  keeps_zoomIn_of (fun _ l hl _ => hP.keeps_select _ l hl)
    (fun _ => hP.keeps_modify fun _ => ⟨rfl, rfl, rfl⟩) part

theorem keeps_bringToTop (hP : WindowSafe P) (part : PartId) : Keeps P (bringToTop part) :=
  keeps_bringToTop_of (fun _ l hl _ => hP.keeps_select _ l hl) part

theorem keeps_setFast (hP : WindowSafe P) (part : PartId) : Keeps P (setFast part) := by
  refine keeps_get_bind fun _ _ => ?_
  split
  · refine keeps_bind (keeps_node _) fun _ => ?_
    extract_lets hide
    have hhide : ∀ u, Keeps P (hide u) := fun _ =>
      keeps_bind (hP.keeps_removePane _) fun _ =>
        hP.keeps_modify fun _ => by split <;> exact ⟨rfl, rfl, rfl⟩
    split
    · exact hhide ()
    · exact keeps_bind (keeps_throw _) hhide
  · exact keeps_throw _

theorem keeps_restoreFast (hP : WindowSafe P) (part : PartId) : Keeps P (restoreFast part) := by
  refine keeps_get_bind fun _ _ => ?_
  split
  · exact keeps_bind (keeps_throw _) fun _ => hP.keeps_addPane _
  · exact hP.keeps_addPane _

theorem keeps_clearFast (hP : WindowSafe P) (part : PartId) : Keeps P (clearFast part) :=
  keeps_get_bind fun _ hl => keeps_bind (keeps_set (hP.frame hl rfl rfl rfl)) fun _ =>
    keeps_pure _

theorem keeps_retainPanes (hP : WindowSafe P) (keep : PartId → Bool) :
    Keeps P (retainPanes keep) :=
  keeps_get_bind fun _ _ => keeps_bind (keeps_forIn _ _ fun _ _ =>
    keeps_bind (hP.keeps_removePane _) fun _ => keeps_pure _) fun _ => keeps_pure ()

/-! ### Layout passes and sashes -/

theorem keeps_regions (hP : WindowSafe P) (window : WindowRef) (area : Option Rect) :
    Keeps P (regions window area) :=
  keeps_regions_of (fun _ _ => hP.keeps_onStore _) window area

theorem keeps_layoutMain (hP : WindowSafe P) (area : Rect) : Keeps P (layoutMain area) :=
  hP.keeps_regions _ _

theorem keeps_resizeSash (hP : WindowSafe P) (split : NodeId) (index : Nat) (delta : Int) :
    Keeps P (resizeSash split index delta) := by
  refine keeps_bind (keeps_node _) fun _ => ?_
  split
  · split
    · exact keeps_pure _
    · refine keeps_bind keeps_store fun _ => ?_
      split
      · exact keeps_pure _
      · exact keeps_pure _
      · exact keeps_bind (hP.keeps_onStore _) fun _ => keeps_pure _
  · exact keeps_throw _

/-- A drop is carried out by the request its decision names. -/
theorem keeps_applyDrop (hP : WindowSafe P) (d : DropDecision) : Keeps P (applyDrop d) := by
  unfold applyDrop
  split
  · exact keeps_pure false
  · exact keeps_bind (hP.keeps_moveNode _ _ _) fun _ => keeps_pure true
  · exact keeps_bind (hP.keeps_stackNode _ _) fun _ => keeps_pure true
  · exact keeps_bind (hP.keeps_detachNode _ _) fun _ => keeps_pure _
  · exact keeps_bind (hP.moveWindow _ _) fun _ => keeps_pure true
  · refine keeps_bind keeps_store fun _ => ?_
    dsimp only
    split
    · exact keeps_bind (keeps_throw _) fun _ => keeps_bind (keeps_forIn _ _ fun _ _ =>
        keeps_bind (hP.keeps_setFast _) fun _ => keeps_pure _) fun _ => keeps_pure true
    · exact keeps_bind (keeps_forIn _ _ fun _ _ =>
        keeps_bind (hP.keeps_setFast _) fun _ => keeps_pure _) fun _ => keeps_pure true

end WindowSafe

end LayoutM

namespace Script

open LayoutM

variable {P : Layout → Prop}

theorem request_ends {α : Type} {x : LayoutM α} {l : Layout}
    (hx : Ends x l (fun _ l' => P l') fun _ l' => P l') (f : α → Reply) : P (request x f l).2 := by
  unfold request
  split
  · next heq => exact hx.run_ok heq
  · next heq => exact hx.run_error heq

theorem request_keeps {α : Type} {x : LayoutM α} (hx : Keeps P x) {l : Layout} (hl : P l)
    (f : α → Reply) : P (request x f l).2 :=
  request_ends (hx l hl) f

/-- A property that the window requests keep is kept by every command of a script, carried out
or refused, but closing the windows, a restore and a change of host. -/
theorem layoutStep_keeps (hP : WindowSafe P) {s : LayoutSession} (hs : P s.layout)
    (c : LayoutCommand) (hclose : c ≠ .closeWindows) (hrestore : ∀ m, c ≠ .restoreState m)
    (hfloat : ∀ b, c ≠ .setFloating b) : P (layoutStep s c).2.layout := by
  cases c with
  | addPane p => exact request_keeps (hP.keeps_addPane p) hs _
  | removePane part => exact request_keeps (hP.keeps_removePane part) hs _
  | disposePane part => exact request_keeps (hP.keeps_disposePane part) hs _
  | movePane part side ref => exact request_keeps (hP.keeps_movePane part side ref) hs _
  | moveNode src side ref => exact request_keeps (hP.keeps_moveNode src side ref) hs _
  | stack part ref => exact request_keeps (hP.keeps_stack part ref) hs _
  | stackNode src ref => exact request_keeps (hP.keeps_stackNode src ref) hs _
  | detach part b => exact request_keeps (hP.keeps_detach part b) hs _
  | detachNode src b => exact request_keeps (hP.keeps_detachNode src b) hs _
  | moveWindow w b => exact request_keeps (hP.moveWindow w b) hs _
  | zoomIn part => exact request_keeps (hP.keeps_zoomIn part) hs .flag
  | zoomNode n => exact request_keeps (hP.keeps_zoomNode n) hs .flag
  | zoomOut => exact request_keeps hP.keeps_zoomOut hs .flag
  | bringToTop part => exact request_keeps (hP.keeps_bringToTop part) hs .flag
  | setFast part => exact request_keeps (hP.keeps_setFast part) hs _
  | restoreFast part => exact request_keeps (hP.keeps_restoreFast part) hs _
  | clearFast part => exact request_keeps (hP.keeps_clearFast part) hs .flag
  | retainPanes keep => exact request_keeps (hP.keeps_retainPanes _) hs _
  | resizeSash n index delta =>
    have h := hP.keeps_resizeSash n index delta _ hs
    dsimp only [layoutStep]
    split
    · next heq => exact h.run_ok heq
    · next heq => exact h.run_ok heq
    · next heq => exact h.run_error heq
  | layoutMain area => exact request_keeps (hP.keeps_layoutMain area) hs _
  | regions w area => exact request_keeps (hP.keeps_regions w area) hs _
  | evaluateDrop src t pointer =>
    dsimp only [layoutStep]
    split
    · exact hs
    · split <;> exact hs
  | drop src t pointer =>
    dsimp only [layoutStep]
    split
    · exact hs
    · split
      · next heq => exact (hP.keeps_applyDrop _ _ hs).run_ok heq
      · next heq => exact (hP.keeps_applyDrop _ _ hs).run_error heq
  | applyDrop d => exact request_keeps (hP.keeps_applyDrop d) hs .flag
  | closeWindows => exact absurd rfl hclose
  | saveState name => exact hs
  | restoreState m => exact absurd rfl (hrestore m)
  | setFloating b => exact absurd rfl (hfloat b)
  | node n => exact hs
  | findPane part => exact hs
  | findPlaceholder part => exact hs
  | windowOf n => exact hs
  | windowOfPart part => exact hs
  | isWithinZoom n => exact hs
  | panes => exact hs
  | isFast part => exact hs
  | windows => exact hs

end Script

end Docking
