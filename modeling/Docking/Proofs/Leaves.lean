import Docking.Proofs.Tidying
import Mathlib.Data.Multiset.Basic
/-!
# Rearranging keeps the panes and the placeholders

Moving, stacking, floating and zooming panes rebuild the tree around them, but the nodes that
carry parts, the panes and the placeholders, are never made, dropped or changed by these
requests. A request keeps the content when it leaves `Store.leafOf` as it was, and then the
multisets of the parts that the panes and the placeholders carry (`Store.paneParts`,
`Store.placeholderParts`) stay as they were. Every command that rearranges a reachable layout
keeps both, carried out or refused (`Layout.Reachable.rearranging_keeps_parts`).

Tidying frees the containers it empties, and what it frees carries no part only because the
layout is sound. There the content is kept in two halves: tidying adds no part-carrying node
(`LeavesWithin`, kept by the walks of `Proofs/Tidying`), and it spares every node that is not
the one it starts from or above it (`ends_tidy`), which no pane or placeholder is.
-/

namespace Docking

namespace Store

/-- A node's form when it carries a part, as a pane or a placeholder. -/
def leafOf (s : Store) (x : NodeId) : Option Form := (s.form? x).filter Form.isLeaf

variable {s s' : Store}

theorem leafOf_congr (h : ∀ x, s'.form? x = s.form? x) : s'.leafOf = s.leafOf :=
  funext fun x => by rw [leafOf, leafOf, h]

theorem leafOf_of_sameShape (h : SameShape s s') : s'.leafOf = s.leafOf :=
  leafOf_congr fun x => (h x).2.2

theorem leafOf_eq_none_of_form {x : NodeId} {f : Form} (h : s.form? x = some f)
    (hf : f.isLeaf = false) : s.leafOf x = none := by
  simp [leafOf, h, hf]

theorem leafOf_alloc (s : Store) (ident : String) {k : NodeKind} (hk : k.form.isLeaf = false) :
    (s.alloc ident k).2.leafOf = s.leafOf := funext fun x => by
  rw [leafOf, leafOf, form?_alloc]
  split
  · next hx =>
    subst hx
    simp [form?_eq_none_iff.mpr (get?_nextId s), hk]
  · rfl

theorem leafOf_discard {x : NodeId} (hx : s.leafOf x = none) : (s.discard x).leafOf = s.leafOf :=
  funext fun y => by
    rw [leafOf, form?_discard]
    split
    · next h =>
      subst h
      exact hx.symm
    · rfl

/-- A node that is no pane or placeholder is the only one of its subtree that a leaf may be
under, so tidying from it spares every node that carries a part. -/
theorem Spares.leaf_kept {cur : NodeId} (hf : s.Forest) (hcur : s.leafOf cur = none)
    (hsp : s.Spares cur s') {x : NodeId} {f : Form} (hx : s.leafOf x = some f) :
    s'.leafOf x = some f := by
  obtain ⟨hform, hleaf⟩ := Option.filter_eq_some_iff.mp hx
  have hxl : s.IsLeaf x := ⟨f, hform, hleaf⟩
  have hne : x ≠ cur := fun h => by rw [h, hcur] at hx; cases hx
  obtain ⟨-, hform', -⟩ := hsp.kept x hxl.contains fun hu => hne ((hf.under_leaf_iff hxl).mp hu)
  unfold leafOf at hx ⊢
  rw [hform']
  exact hx

end Store

namespace Layout

/-- The nodes of the layout that carry parts are those `L` gives, with their forms. -/
def LeavesAre (L : NodeId → Option Form) (l : Layout) : Prop := l.store.leafOf = L

/-- Every node of the layout that carries a part carries it in `L` too. -/
def LeavesWithin (L : NodeId → Option Form) (l : Layout) : Prop :=
  ∀ x f, l.store.leafOf x = some f → L x = some f

variable {L : NodeId → Option Form} {l : Layout}

theorem LeavesAre.within (h : l.LeavesAre L) : l.LeavesWithin L := fun x f hx => by
  rw [← h]
  exact hx

/-- Adding no part-carrying node and keeping every one there was keeps the content. -/
theorem LeavesAre.of_within (hA : l.LeavesWithin L)
    (hB : ∀ x f, L x = some f → l.store.leafOf x = some f) : l.LeavesAre L :=
  funext fun x => by
    cases hx : L x with
    | none =>
      cases h' : l.store.leafOf x with
      | none => rfl
      | some g =>
        rw [hA x g h'] at hx
        cases hx
    | some f => exact hB x f hx

end Layout

namespace Store

theorem leafOf_eq_none_of_mem_held {s : Store} {p c : NodeId} (h : c ∈ s.held p) :
    s.leafOf p = none := by
  cases hp : s.leafOf p with
  | none => rfl
  | some f =>
    obtain ⟨hform, hleaf⟩ := Option.filter_eq_some_iff.mp hp
    rw [held_eq_nil_of_isLeaf ⟨f, hform, hleaf⟩] at h
    cases h

/-- Setting a container's kind to another container kind. -/
theorem leafOf_setKind {s : Store} {id : NodeId} {n : Node} {k : NodeKind} (hn : s.get? id = some n)
    (hold : n.kind.form.isLeaf = false) (hk : k.form.isLeaf = false) :
    (s.setKind id k).leafOf = s.leafOf :=
  funext fun x => by
    rw [leafOf, leafOf, form?_setKind]
    split
    · next h =>
      subst h
      simp only [form?_of_get? hn, Option.map_some, Option.filter_some, hold, hk, Bool.false_eq_true,
        if_false]
    · rfl

end Store

namespace LayoutM

open Layout

/-! ### Steps that keep the part-carrying nodes -/

/-- `P` reads of a layout only which nodes carry parts, and how. -/
structure ReadsLeaves (P : Layout → Prop) : Prop where
  congr : ∀ {l l' : Layout}, P l → l'.store.leafOf = l.store.leafOf → P l'

theorem readsLeaves_leavesAre (L : NodeId → Option Form) : ReadsLeaves (LeavesAre L) :=
  ⟨fun hl h => h.trans hl⟩

theorem readsLeaves_leavesWithin (L : NodeId → Option Form) : ReadsLeaves (LeavesWithin L) :=
  ⟨fun hl h x f hx => hl x f (h ▸ hx)⟩

namespace ReadsLeaves

variable {α : Type} {P : Layout → Prop}

theorem keeps_onStore (hP : ReadsLeaves P) {f : Store → Store} (hf : ∀ s, (f s).leafOf = s.leafOf) :
    Keeps P (onStore f) := fun l hl => (ends_onStore f).mpr (hP.congr hl (hf l.store))

theorem keeps_edit (hP : ReadsLeaves P) {f : Store → Except LayoutError Store}
    (hf : ∀ s s', f s = .ok s' → ∀ x, s'.form? x = s.form? x) : Keeps P (edit f) := fun l hl => by
  rw [ends_edit]
  split
  · next s' h => exact hP.congr hl (Store.leafOf_congr (hf _ _ h))
  · exact hl

theorem keeps_editWith (hP : ReadsLeaves P) {f : Store → Except LayoutError (α × Store)}
    (hf : ∀ s a s', f s = .ok (a, s') → ∀ x, s'.form? x = s.form? x) : Keeps P (editWith f) :=
  fun l hl => by
    rw [ends_editWith]
    split
    · next a s' h => exact hP.congr hl (Store.leafOf_congr (hf _ _ _ h))
    · exact hl

theorem keeps_alloc (hP : ReadsLeaves P) (ident : String) {k : NodeKind}
    (hk : k.form.isLeaf = false) : Keeps P (alloc ident k) :=
  fun _ hl => (ends_alloc ident k).mpr (hP.congr hl (Store.leafOf_alloc _ _ hk))

theorem keeps_allocContainer (hP : ReadsLeaves P) {k : NodeKind} (hk : k.form.isLeaf = false) :
    Keeps P (allocContainer k) := fun l hl => by
  obtain ⟨ident, he⟩ := Store.allocContainer_eq l.store k
  rw [ends_allocContainer, he]
  exact hP.congr hl (Store.leafOf_alloc _ _ hk)

theorem keeps_select (hP : ReadsLeaves P) (id : NodeId) : Keeps P (select id) :=
  fun _ hl => (ends_select id).mpr (hP.congr hl (Store.leafOf_of_sameShape (Store.sameShape_select _ _)))

theorem keeps_modify (hP : ReadsLeaves P) {f : Layout → Layout} (hf : ∀ l, (f l).store = l.store) :
    Keeps P (modify f) := fun l hl => (ends_modify f).mpr (hP.congr hl (by rw [hf]))

theorem keeps_zoomOut (hP : ReadsLeaves P) : Keeps P zoomOut := fun _ hl => hP.congr hl rfl

theorem keeps_openWindow (hP : ReadsLeaves P) (f : NodeId) (b : FloatRect) :
    Keeps P (openWindow f b) := by
  refine keeps_get_bind fun _ hl => ?_
  dsimp only
  split
  · exact keeps_bind (keeps_set (hP.congr hl rfl)) fun _ => keeps_pure _
  · exact keeps_bind (keeps_set (hP.congr hl rfl)) fun _ => keeps_pure _

theorem keeps_moveWindow (hP : ReadsLeaves P) (w : WindowId) (b : FloatRect) :
    Keeps P (moveWindow w b) := by
  refine keeps_get_bind fun _ hl => ?_
  split
  · exact keeps_throw _
  · exact keeps_set (hP.congr hl rfl)

/-! The edits of links that the moves make -/

theorem keeps_removeChild (hP : ReadsLeaves P) (p c : NodeId) :
    Keeps P (editWith (·.removeChild p c)) :=
  hP.keeps_editWith fun _ _ _ h => Store.form?_removeChild h

theorem keeps_insertChild (hP : ReadsLeaves P) (p : NodeId) (i : Nat) (c : NodeId) (w : Float32) :
    Keeps P (edit (·.insertChild p i c w)) :=
  hP.keeps_edit fun _ _ h => Store.form?_insertChild h

theorem keeps_pushChild (hP : ReadsLeaves P) (p c : NodeId) : Keeps P (edit (·.pushChild p c)) :=
  hP.keeps_edit fun _ _ h => Store.form?_pushChild h

theorem keeps_replaceChild (hP : ReadsLeaves P) (p old new : NodeId) :
    Keeps P (edit (·.replaceChild p old new)) :=
  hP.keeps_edit fun _ _ h => Store.form?_replaceChild h

theorem keeps_setParent (hP : ReadsLeaves P) (c : NodeId) (p : Option NodeId) :
    Keeps P (edit (·.setParent c p)) :=
  hP.keeps_edit fun _ _ h x => by
    rw [(Store.setParent_eq_ok h).2]
    exact Store.form?_setParentField _ _ _ _

theorem keeps_setBounds (hP : ReadsLeaves P) (id : NodeId) (r : Rect) :
    Keeps P (onStore (·.setBounds id r)) :=
  hP.keeps_onStore fun _ => Store.leafOf_of_sameShape (Store.sameShape_setBounds _ _ _)

end ReadsLeaves

/-! ### Tidying adds no part-carrying node -/

theorem keptByTidying_leavesWithin (L : NodeId → Option Form) :
    KeptByTidying fun s => ∀ x f, s.leafOf x = some f → L x = some f where
  thins h hl x f hx := by
    obtain ⟨hform, hleaf⟩ := Option.filter_eq_some_iff.mp hx
    exact hl x f (Option.filter_eq_some_iff.mpr ⟨h.2 x f hform, hleaf⟩)
  alloc := fun {s} ident {_} hk hl => by
    rw [Store.leafOf_alloc s ident hk]
    exact hl

/-! ### Tidying keeps the part-carrying nodes of a sound layout -/

section Tidy

variable {L : NodeId → Option Form} {l : Layout} {E : List NodeId}

theorem leaves_tidy (hs : l.Sound E) (hl : l.LeavesAre L) {cur : NodeId}
    (hcur : l.store.leafOf cur = none) :
    Ends (tidy cur) l (fun _ l' => l'.LeavesAre L) fun _ l' => l'.LeavesAre L :=
  ((ends_tidy hs cur).and ((keptByTidying_leavesWithin L).keeps_tidy cur l hl.within)).mono
    (fun _ _ h => .of_within h.2 fun x f hx =>
      h.1.2.leaf_kept hs.forest hcur (by rw [hl]; exact hx))
    fun _ _ h => h.1.elim

theorem leaves_takeNode (hs : l.Sound E) (hl : l.LeavesAre L) (n : NodeId) :
    Ends (takeNode n) l (fun _ l' => l'.LeavesAre L) fun _ l' => l'.LeavesAre L := by
  refine ((ends_takeNode hs n).and
    ((keptByTidying_leavesWithin L).keeps_takeNode n l hl.within)).mono (fun _ _ h => ?_)
    fun _ _ h => h.1 ▸ hl
  obtain ⟨⟨-, p, hp, hsp⟩, hA⟩ := h
  have hpl : l.store.leafOf p = none :=
    Store.leafOf_eq_none_of_mem_held (hs.forest.mem_held_iff.mpr hp)
  exact .of_within hA fun x f hx => hsp.leaf_kept hs.forest hpl (by rw [hl]; exact hx)

end Tidy

/-! ### Moves that keep the part-carrying nodes of any layout -/

section Moves

variable {α β : Type} {P : Layout → Prop}

theorem keeps_node_bind {id : NodeId} {f : Node → LayoutM β}
    (hf : ∀ l n, P l → l.store.get? id = some n → Ends (f n) l (fun _ l' => P l') fun _ l' => P l') :
    Keeps P (node id >>= f) := fun l hl => by
  rw [ends_bind, ends_node]
  split
  · next n hn => exact hf l n hl hn
  · exact hl

namespace ReadsLeaves

/-- A container made for an edit that is refused goes again. -/
theorem keeps_alloc_onError (hP : ReadsLeaves P) {k : NodeKind} (hk : k.form.isLeaf = false)
    {g : NodeId → Store → Except LayoutError Store}
    (hg : ∀ id s s', g id s = .ok s' → ∀ x, s'.form? x = s.form? x) {f : NodeId → LayoutM β}
    (hf : ∀ id, Keeps P (f id)) :
    Keeps P (allocContainer k >>= fun id =>
      onError (edit (g id)) (fun e => onStore (·.discard id) >>= fun _ => throw e) >>= fun _ =>
        f id) := fun l hl => by
  obtain ⟨ident, he⟩ := Store.allocContainer_eq l.store k
  have hl₁ : P { l with store := (l.store.alloc ident k).2 } :=
    hP.congr hl (Store.leafOf_alloc _ _ hk)
  rw [ends_bind, ends_allocContainer, he, ends_bind, ends_onError, ends_edit]
  split
  · next s' h => exact hf _ _ (hP.congr hl₁ (Store.leafOf_congr (hg _ _ _ h)))
  · -- refused: the new container goes, and it carries no part
    rw [ends_bind, ends_onStore, ends_throw]
    refine hP.congr hl₁ (Store.leafOf_discard (Store.leafOf_eq_none_of_form ?_ hk))
    rw [Store.form?_alloc, if_pos rfl]

theorem keeps_transferTabs (hP : ReadsLeaves P) (src dst : NodeId) :
    Keeps P (transferTabs src dst) := by
  refine keeps_bind (keeps_node _) fun _ => keeps_bind keeps_store fun _ => ?_
  refine keeps_bind (keeps_forIn _ _ fun _ _ =>
    keeps_bind (hP.keeps_removeChild _ _) fun _ => keeps_bind (hP.keeps_pushChild _ _) fun _ =>
      keeps_pure _) fun _ => ?_
  split
  · exact keeps_bind (hP.keeps_select _) fun _ => keeps_pure ()
  · exact keeps_pure ()

theorem keeps_insertBeside (hP : ReadsLeaves P) (moving : NodeId) (side : Side) (anchor : NodeId) :
    Keeps P (insertBeside moving side anchor) := by
  refine keeps_get_bind fun _ _ => ?_
  split
  · -- against the root: its children may move into an inner split first, then it turns
    refine keeps_bind (keeps_node _) fun _ => ?_
    extract_lets current place turn weights
    have hplace : ∀ u, Keeps P (place u) := fun _ =>
      keeps_bind (keeps_node _) fun _ => hP.keeps_insertChild _ _ _ _
    have hturn : ∀ u, Keeps P (turn u) := fun _ => by
      refine keeps_node_bind fun l n hl hn => ?_
      split
      · next o cs ws hk =>
        rw [ends_bind, ends_onStore]
        exact hplace () _ (hP.congr hl (Store.leafOf_setKind hn (by rw [hk]; rfl) rfl))
      · exact hplace () l hl
    split
    · refine keeps_bind (hP.keeps_allocContainer rfl) fun _ => keeps_bind keeps_store fun _ => ?_
      refine keeps_bind (keeps_forIn _ _ fun _ _ =>
        keeps_bind (hP.keeps_removeChild _ _) fun _ =>
          keeps_bind (hP.keeps_edit fun _ _ h => Store.form?_insertChild h) fun _ =>
            keeps_pure _) fun _ => ?_
      exact keeps_bind (hP.keeps_pushChild _ _) hturn
    · exact hturn ()
  · split
    · -- beside a node of a split: the split takes it, or a new split takes the node's slot
      extract_lets place
      have hplace : ∀ index, Keeps P (place index) := fun _ => by
        refine keeps_node_bind fun l p hl hp => ?_
        dsimp only
        split
        · next hor =>
          obtain ⟨o', cs, ws, hk⟩ : ∃ o' cs ws, p.kind = .split o' cs ws := by
            cases hk : p.kind <;> simp_all [NodeKind.orientation?]
          rw [hk]
          dsimp only
          split <;>
          · rw [ends_bind, ends_onStore]
            exact hP.keeps_insertChild _ _ _ _ _
              (hP.congr hl (Store.leafOf_setKind hp (by rw [hk]; rfl) rfl))
        · exact hP.keeps_alloc_onError rfl (fun _ _ _ h => Store.form?_replaceChild h)
            (fun _ => by
              split <;> exact keeps_bind (hP.keeps_insertChild _ _ _ _) fun _ =>
                hP.keeps_insertChild _ _ _ _) l hl
      split
      · exact keeps_bind (keeps_pure _) hplace
      · exact keeps_bind (keeps_throw _) hplace
    · exact keeps_throw _

theorem keeps_targetFolder (hP : ReadsLeaves P) (reference : NodeId) :
    Keeps P (targetFolder reference) := by
  refine keeps_bind (keeps_node _) fun _ => ?_
  split
  · exact keeps_pure _
  refine keeps_get_bind fun _ _ => ?_
  split
  · exact keeps_pure _
  split
  · exact hP.keeps_alloc_onError rfl (fun _ _ _ h => Store.form?_replaceChild h) fun f =>
      keeps_bind (hP.keeps_pushChild _ _) fun _ => keeps_pure f
  · exact keeps_throw _

/-! The zoom, the raising of a tab and the layout passes; a sash changes its split's weights -/

theorem keeps_zoomNode (hP : ReadsLeaves P) (n : NodeId) : Keeps P (zoomNode n) :=
  keeps_zoomNode_of (fun _ l hl _ => hP.keeps_select _ l hl)
    (fun _ => hP.keeps_modify fun _ => rfl) n

theorem keeps_zoomIn (hP : ReadsLeaves P) (part : PartId) : Keeps P (zoomIn part) :=
  keeps_zoomIn_of (fun _ l hl _ => hP.keeps_select _ l hl)
    (fun _ => hP.keeps_modify fun _ => rfl) part

theorem keeps_bringToTop (hP : ReadsLeaves P) (part : PartId) : Keeps P (bringToTop part) :=
  keeps_bringToTop_of (fun _ l hl _ => hP.keeps_select _ l hl) part

theorem keeps_regions (hP : ReadsLeaves P) (window : WindowRef) (area : Option Rect) :
    Keeps P (regions window area) :=
  keeps_regions_of hP.keeps_setBounds window area

theorem keeps_layoutMain (hP : ReadsLeaves P) (area : Rect) : Keeps P (layoutMain area) :=
  hP.keeps_regions _ _

theorem keeps_resizeSash (hP : ReadsLeaves P) (split : NodeId) (index : Nat) (delta : Int) :
    Keeps P (resizeSash split index delta) := by
  refine keeps_node_bind fun l n hl hn => ?_
  split
  · next o cs ws hk =>
    split
    · exact hl
    rw [ends_bind, ends_store]
    split
    · exact hl
    · exact hl
    · rw [ends_bind, ends_onStore]
      exact hP.congr hl (Store.leafOf_setKind hn (by rw [hk]; rfl) rfl)
  · exact hl

end ReadsLeaves

end Moves

/-! ### Moves that keep the part-carrying nodes of a sound layout -/

section SoundMoves

variable {L : NodeId → Option Form} {l : Layout} {E : List NodeId}

/-- Lifting a node out of its place: a tab is taken out, and a window's folder hands its tabs
to a new folder, tidied behind them; the folder carries no part, being the root of a window. -/
theorem leaves_lift (hs : l.Sound []) (hl : l.LeavesAre L) {source : NodeId}
    (hsrc : l.store.Movable source) :
    Ends (lift source) l (fun _ l' => l'.LeavesAre L) fun _ l' => l'.LeavesAre L := by
  rw [lift, ends_bind, ends_store]
  split
  · rw [ends_bind]
    exact (leaves_takeNode hs hl source).mono (fun _ _ h => h) fun _ _ h => h
  next hnone =>
  have htop : source ∈ l.tops := by
    have h := (hs.tops_iff source).mpr ⟨hsrc.contains, Option.not_isSome_iff_eq_none.mp hnone⟩
    rwa [List.append_nil] at h
  have hcur : l.store.leafOf source = none := by
    rcases hs.top_isContainer htop with h | h <;> exact Store.leafOf_eq_none_of_form h rfl
  obtain ⟨ident, he⟩ := Store.allocContainer_eq l.store .emptyFolder
  have hform₁ : ∀ x, l.store.contains x = true →
      (l.store.alloc ident .emptyFolder).2.form? x = l.store.form? x :=
    fun x hx => Store.form?_alloc_of_contains hx _ _
  have hfold₁ : (l.store.alloc ident .emptyFolder).2.form? l.store.nextId = some .folder := by
    rw [Store.form?_alloc, if_pos rfl]
    rfl
  rw [ends_bind, ends_allocContainer, he, ends_bind]
  refine (ends_transferTabs (hs.alloc ident .emptyFolder rfl rfl)
    ((Store.Movable.congr (hform₁ _ hsrc.contains)).mpr hsrc) hfold₁
    (Store.ne_nextId_of_contains hsrc.contains)).mono (fun _ l₂ h => ?_) fun _ _ h => h.elim
  obtain ⟨s₂, rfl, hs₂, hform₂, -⟩ := h
  have hl₂ : LeavesAre L { l with store := s₂ } :=
    (Store.leafOf_congr hform₂).trans ((Store.leafOf_alloc _ _ rfl).trans hl)
  rw [ends_bind]
  refine (leaves_tidy hs₂ hl₂ ?_).mono (fun _ _ h => h) fun _ _ h => h
  rw [show s₂.leafOf = l.store.leafOf from hl₂.trans hl.symm]
  exact hcur

/-- Moving a pane, or the tabs of a folder, into a folder. -/
theorem leaves_moveInto (hs : l.Sound E) (hl : l.LeavesAre L) {source f : NodeId}
    (hsrc : l.store.Movable source) (hf : l.store.form? f = some .folder) (hne : source ≠ f) :
    Ends (moveInto source f) l (fun _ l' => l'.LeavesAre L) fun _ l' => l'.LeavesAre L := by
  have hP := readsLeaves_leavesAre L
  obtain ⟨sn, hsn⟩ := (Store.contains_iff _ _).mp hsrc.contains
  rw [moveInto, ends_bind, ends_node_of hsn]
  split
  · -- a folder hands its tabs over, then goes; it carries no part
    next hfold =>
    have hcur : L source = none := by
      rw [← hl]
      exact Store.leafOf_eq_none_of_form ((Store.form?_eq_folder_iff hsn).mpr hfold) rfl
    rw [ends_bind]
    refine (ends_transferTabs hs hsrc hf hne).mono (fun _ l₂ h => ?_) fun _ _ h => h.elim
    obtain ⟨s₂, rfl, hs₂, hform₂, -⟩ := h
    have hl₂ : LeavesAre L { l with store := s₂ } := (Store.leafOf_congr hform₂).trans hl
    rw [ends_bind, ends_store]
    split
    · rw [ends_bind]
      refine (leaves_takeNode hs₂ hl₂ source).mono (fun _ l₃ h₃ => ?_) fun _ _ h => h
      rw [ends_onStore]
      exact (Store.leafOf_discard ((congrFun h₃ source).trans hcur)).trans h₃
    · exact leaves_tidy hs₂ hl₂ ((congrFun hl₂ source).trans hcur)
  · -- a pane leaves its container for the folder
    rw [ends_bind]
    refine (leaves_takeNode hs hl source).mono (fun _ l₃ h₃ => ?_) fun _ _ h => h
    exact keeps_bind (hP.keeps_pushChild _ _) (fun _ =>
      keeps_bind (hP.keeps_select _) fun _ => keeps_pure ()) l₃ h₃

/-- Docking a node against a side of another. The checks before the move read the layout
without changing it; the move shifts a tab within its split, or lifts the node and inserts it
beside the anchor, handing it to the root when that is refused. -/
theorem leaves_moveNode (hs : l.Sound []) (hl : l.LeavesAre L) (source : NodeId) (side : Side)
    (reference : NodeId) :
    Ends (moveNode source side reference) l (fun _ l' => l'.LeavesAre L)
      fun _ l' => l'.LeavesAre L := by
  have hP := readsLeaves_leavesAre L
  have hs₀ : ({ l with zoomed := none } : Layout).Sound [] := hs.of_frames rfl rfl rfl rfl rfl rfl
  have hl₀ : ({ l with zoomed := none } : Layout).LeavesAre L := hl
  rw [moveNode, ends_bind, ends_zoomOut, ends_bind]
  refine (ends_ensureMovable source).mono (fun _ l₁ h => ?_) fun _ l₁ h => by rw [h]; exact hl₀
  obtain ⟨rfl, -, hsrc, -⟩ := h
  rw [ends_bind, ends_get]
  extract_lets anchor shared move findLine checkCount checkSelf checkParent
  have hmove : ∀ line, Ends (move line) { l with zoomed := none } (fun _ l' => l'.LeavesAre L)
      fun _ l' => l'.LeavesAre L := fun line => by
    dsimp only [move]
    split
    · refine keeps_bind (hP.keeps_removeChild _ _) (fun _ => keeps_bind keeps_store fun _ => ?_) _
        hl₀
      split
      · exact keeps_bind (keeps_pure _) fun _ => hP.keeps_insertChild _ _ _ _
      · exact keeps_bind (keeps_throw _) fun _ => hP.keeps_insertChild _ _ _ _
    · rw [ends_bind]
      refine (leaves_lift hs₀ hl₀ hsrc).mono (fun _ l₂ h => ?_) fun _ _ h => h
      exact keeps_onError (hP.keeps_insertBeside _ _ _) (fun _ => keeps_get_bind fun _ _ =>
        keeps_bind (hP.keeps_pushChild _ _) fun _ => keeps_throw _) l₂ h
  -- the checks: each reads a node or throws, then hands the same layout on
  have hline : ∀ u, Ends (findLine u) { l with zoomed := none } (fun _ l' => l'.LeavesAre L)
      fun _ l' => l'.LeavesAre L := fun _ => by
    dsimp only [findLine, shared]
    split
    · rw [ends_bind, ends_node]
      split
      · rw [ends_bind, ends_pure]
        exact hmove _
      · exact hl₀
    · exact (ends_bind _ _).mpr (hmove none)
  have hcount : ∀ u, Ends (checkCount u) { l with zoomed := none } (fun _ l' => l'.LeavesAre L)
      fun _ l' => l'.LeavesAre L := fun _ => by
    dsimp only [checkCount]
    split
    · rw [ends_bind, ends_throw]
      exact hl₀
    · exact hline ()
  have hself : ∀ u, Ends (checkSelf u) { l with zoomed := none } (fun _ l' => l'.LeavesAre L)
      fun _ l' => l'.LeavesAre L := fun _ => by
    dsimp only [checkSelf]
    split
    · rw [ends_bind, ends_throw]
      exact hl₀
    · exact hcount ()
  have hparent : ∀ u, Ends (checkParent u) { l with zoomed := none }
      (fun _ l' => l'.LeavesAre L) fun _ l' => l'.LeavesAre L := fun _ => by
    dsimp only [checkParent]
    split
    · rw [ends_bind, ends_node]
      split
      · split
        · rw [ends_bind, ends_throw]
          exact hl₀
        · exact hself ()
      · exact hl₀
    · rw [ends_bind, ends_throw]
      exact hl₀
  rw [ends_bind, ends_node]
  split
  · split
    · split
      · rw [ends_bind, ends_throw]
        exact hl₀
      · exact hparent ()
    · exact hself ()
  · exact hl₀

theorem leaves_movePane (hs : l.Sound []) (hl : l.LeavesAre L) (part : PartId) (side : Side)
    (reference : PartId) :
    Ends (movePane part side reference) l (fun _ l' => l'.LeavesAre L)
      fun _ l' => l'.LeavesAre L := by
  rw [movePane, ends_bind, ends_get]
  split
  · split
    · exact leaves_moveNode hs hl _ _ _
    · exact hl
  · exact hl

/-- Stacking a node into the folder of another: a tab moves to the end of its own folder, or
the node moves into the reference's folder, made for it when there is none. -/
theorem leaves_stackNode (hs : l.Sound E) (hl : l.LeavesAre L) (source reference : NodeId) :
    Ends (stackNode source reference) l (fun _ l' => l'.LeavesAre L)
      fun _ l' => l'.LeavesAre L := by
  have hP := readsLeaves_leavesAre L
  have hs₀ : ({ l with zoomed := none } : Layout).Sound E := hs.of_frames rfl rfl rfl rfl rfl rfl
  have hl₀ : ({ l with zoomed := none } : Layout).LeavesAre L := hl
  rw [stackNode, ends_bind, ends_zoomOut]
  generalize ({ l with zoomed := none } : Layout) = l₀ at hs₀ hl₀ ⊢
  have hf := hs₀.forest
  rw [ends_bind]
  refine (ends_ensureMovable source).mono (fun _ l₁ h => ?_) fun _ l₁ h => by rw [h]; exact hl₀
  obtain ⟨rfl, -, hsrc, -⟩ := h
  rw [ends_bind, ends_get]
  refine ends_guard (fun _ => hl₀) fun hc₁ => ?_
  have hsr : source ≠ reference := fun h => hc₁ (by simp [h])
  have hnab : ¬ Above l₁.store.parent? source reference := fun h =>
    hc₁ (by simp [hf.isAncestor_iff.mpr h])
  rw [ends_bind, ends_node]
  split
  · next target hrn =>
    refine ends_guard (fun _ => hl₀) fun hc₂ => ?_
    have href : l₁.store.Movable reference :=
      Store.movable_of_get? hrn (by cases hp : target.kind.isPane <;> simp_all)
    -- the folder found or made for the reference is never `source`
    have hstack : Ends (do let f ← targetFolder reference; moveInto source f) l₁
        (fun _ l' => l'.LeavesAre L) fun _ l' => l'.LeavesAre L := by
      rw [ends_bind]
      refine ((ends_targetFolder hs₀ href).and (hP.keeps_targetFolder reference l₁ hl₀)).mono
        (fun f' l₂ h => ?_) fun _ _ h => h.2
      obtain ⟨h, hl₂⟩ := h
      rcases h with ⟨rfl, hff, hwhere⟩ | ⟨hs₂, hff, hnew, hkeep, -, -⟩
      · refine leaves_moveInto hs₀ hl₂ hsrc hff ?_
        rintro rfl
        rcases hwhere with h | h
        · exact hsr h
        · exact hnab (.parent h)
      · refine leaves_moveInto hs₂ hl₂ ((Store.Movable.congr (hkeep source hsrc.contains)).mpr hsrc)
          hff fun h => ?_
        have hc := hsrc.contains
        rw [h, hnew] at hc
        cases hc
    obtain ⟨sn, hsn⟩ := (Store.contains_iff _ _).mp hsrc.contains
    rw [ends_bind, ends_node_of hsn]
    dsimp only
    split
    · split
      · -- a tab moves to the end of its own folder
        refine ends_guard (fun _ => hl₀) fun _ => ?_
        exact keeps_bind (hP.keeps_removeChild _ _) (fun _ => keeps_bind (hP.keeps_pushChild _ _)
          fun _ => keeps_bind (hP.keeps_select _) fun _ => keeps_pure ()) l₁ hl₀
      · exact hstack
    · exact hstack
  · exact hl₀

theorem leaves_stack (hs : l.Sound E) (hl : l.LeavesAre L) (part reference : PartId) :
    Ends (stack part reference) l (fun _ l' => l'.LeavesAre L) fun _ l' => l'.LeavesAre L := by
  rw [stack, ends_bind, ends_get]
  split
  · split
    · exact leaves_stackNode hs hl _ _
    · exact hl
  · exact hl

/-- Floating a node: a window it is all of moves, or a new folder in a new window takes it;
when the host refuses the window, the new folder goes again. -/
theorem leaves_detachNode (hs : l.Sound E) (hl : l.LeavesAre L) (source : NodeId)
    (bounds : FloatRect) :
    Ends (detachNode source bounds) l (fun _ l' => l'.LeavesAre L)
      fun _ l' => l'.LeavesAre L := by
  have hP := readsLeaves_leavesAre L
  rw [detachNode, ends_bind, ends_get]
  split
  · exact hl
  have hs₀ : ({ l with zoomed := none } : Layout).Sound E := hs.of_frames rfl rfl rfl rfl rfl rfl
  have hl₀ : ({ l with zoomed := none } : Layout).LeavesAre L := hl
  rw [ends_bind, ends_zoomOut]
  generalize ({ l with zoomed := none } : Layout) = l₀ at hs₀ hl₀ ⊢
  rw [ends_bind]
  refine (ends_ensureMovable source).mono (fun _ l₁ h => ?_) fun _ l₁ h => by rw [h]; exact hl₀
  obtain ⟨rfl, -, hsrc, -⟩ := h
  rw [ends_bind, ends_get]
  extract_lets toNewWindow
  have hnew : Ends (toNewWindow ()) l₁ (fun _ l' => l'.LeavesAre L)
      fun _ l' => l'.LeavesAre L := by
    dsimp only [toNewWindow]
    obtain ⟨ident, hid⟩ := Store.allocContainer_eq l₁.store .emptyFolder
    have hfold₁ : (l₁.store.alloc ident .emptyFolder).2.form? l₁.store.nextId = some .folder := by
      rw [Store.form?_alloc, if_pos rfl]
      rfl
    have hl₁ : LeavesAre L { l₁ with store := (l₁.store.alloc ident .emptyFolder).2 } :=
      (Store.leafOf_alloc _ _ rfl).trans hl₀
    rw [ends_bind, ends_allocContainer, hid, ends_bind]
    refine ((ends_openWindow (hs₀.alloc _ _ rfl rfl) List.mem_cons_self hfold₁ bounds).and
      (hP.keeps_openWindow _ bounds _ hl₁)).mono (fun r l₂ h => ?_) fun _ _ h => h.1.elim
    obtain ⟨⟨hst, -, -, hs₂⟩, hl₂⟩ := h
    have hfold₂ : l₂.store.form? l₁.store.nextId = some .folder := by rw [hst]; exact hfold₁
    cases r with
    | none =>
      -- the host refused a window: the new folder goes, and it carries no part
      rw [ends_bind, ends_onStore, ends_pure]
      exact (Store.leafOf_discard (Store.leafOf_eq_none_of_form hfold₂ rfl)).trans hl₂
    | some w =>
      rw [if_pos Option.isSome_some, List.erase_cons_head] at hs₂
      have hsc : l₁.store.contains source = true := hsrc.contains
      have hform : l₂.store.form? source = l₁.store.form? source := by
        rw [hst]
        exact Store.form?_alloc_of_contains hsc _ _
      rw [ends_bind]
      exact (leaves_moveInto hs₂ hl₂ ((Store.Movable.congr hform).mpr hsrc) hfold₂
        (Store.ne_nextId_of_contains hsc)).mono (fun _ _ h => h) fun _ _ h => h
  split
  · -- a window showing only `source` just moves
    next w hw =>
    dsimp only
    split
    · split
      · rw [ends_bind]
        exact (hP.keeps_moveWindow w bounds l₁ hl₀).mono (fun _ _ h => h) fun _ _ h => h
      · exact hnew
    · exact hnew
  · exact hnew

theorem leaves_detach (hs : l.Sound E) (hl : l.LeavesAre L) (part : PartId) (bounds : FloatRect) :
    Ends (detach part bounds) l (fun _ l' => l'.LeavesAre L) fun _ l' => l'.LeavesAre L := by
  rw [detach, ends_bind, ends_get]
  split
  · exact leaves_detachNode hs hl _ bounds
  · exact hl

/-- A drop carried out as a move, a stack, a float or a move of a window; minimizing hides
the views it drops. -/
theorem leaves_applyDrop (hs : l.Sound []) (hl : l.LeavesAre L) (d : DropDecision)
    (hd : d.action ≠ .minimize) :
    Ends (applyDrop d) l (fun _ l' => l'.LeavesAre L) fun _ l' => l'.LeavesAre L := by
  unfold applyDrop
  split
  · exact hl
  · rw [ends_bind]
    exact (leaves_moveNode hs hl _ _ _).mono (fun _ _ h => h) fun _ _ h => h
  · rw [ends_bind]
    exact (leaves_stackNode hs hl _ _).mono (fun _ _ h => h) fun _ _ h => h
  · rw [ends_bind]
    exact (leaves_detachNode hs hl _ _).mono (fun _ _ h => h) fun _ _ h => h
  · exact keeps_bind ((readsLeaves_leavesAre L).keeps_moveWindow _ _) (fun _ => keeps_pure true)
      l hl
  · next hmin => exact absurd hmin hd

end SoundMoves

end LayoutM

/-! ### The parts a table carries -/

/-- The part a pane shows. -/
def Form.panePart : Form → Option PartId
  | .pane p => some p.part
  | _ => none

/-- The part a placeholder keeps a place for. -/
def Form.placeholderPart : Form → Option PartId
  | .placeholder part => some part
  | _ => none

namespace Store

/-- The parts that `pick` reads off the forms of a table's nodes, one for each node. -/
def parts (s : Store) (pick : Form → Option PartId) : Multiset PartId :=
  ((List.range s.slots.size).filterMap fun i => (s.form? ⟨i⟩).bind pick : List PartId)

/-- The parts the panes of a table show, one for each pane. -/
def paneParts (s : Store) : Multiset PartId := s.parts Form.panePart

/-- The parts the placeholders of a table keep places for, one for each placeholder. -/
def placeholderParts (s : Store) : Multiset PartId := s.parts Form.placeholderPart

variable {pick : Form → Option PartId}

theorem bind_form?_eq_bind_leafOf (s : Store) (hpick : ∀ f, f.isLeaf = false → pick f = none)
    (x : NodeId) : (s.form? x).bind pick = (s.leafOf x).bind pick := by
  unfold leafOf
  cases s.form? x with
  | none => rfl
  | some f =>
    cases hf : f.isLeaf
    · simp [Option.filter_some, hf, hpick f hf]
    · simp [Option.filter_some, hf]

theorem leafOf_of_size_le (s : Store) {i : Nat} (h : s.slots.size ≤ i) : s.leafOf ⟨i⟩ = none := by
  simp [leafOf, form?, get?_eq_join, Array.getElem?_eq_none h]

/-- The parts of a table, read over any range of handles that covers it. -/
theorem parts_eq_range (s : Store) (hpick : ∀ f, f.isLeaf = false → pick f = none) {N : Nat}
    (hN : s.slots.size ≤ N) :
    s.parts pick = ((List.range N).filterMap fun i => (s.leafOf ⟨i⟩).bind pick : List PartId) := by
  obtain ⟨k, rfl⟩ := Nat.exists_eq_add_of_le hN
  -- past the table's end there is no node
  have hout : ((List.range k).map (s.slots.size + ·)).filterMap
      (fun i => (s.leafOf ⟨i⟩).bind pick) = [] := by
    refine List.filterMap_eq_nil_iff.mpr fun i hi => ?_
    obtain ⟨j, -, rfl⟩ := List.mem_map.mp hi
    rw [s.leafOf_of_size_le (Nat.le_add_right _ _)]
    rfl
  rw [parts, List.range_add, List.filterMap_append, hout, List.append_nil]
  exact congrArg _ (List.filterMap_congr fun i _ => s.bind_form?_eq_bind_leafOf hpick ⟨i⟩)

theorem parts_congr {s s' : Store} (hpick : ∀ f, f.isLeaf = false → pick f = none)
    (h : s'.leafOf = s.leafOf) : s'.parts pick = s.parts pick := by
  rw [s'.parts_eq_range hpick (le_max_left s'.slots.size s.slots.size),
    s.parts_eq_range hpick (le_max_right s'.slots.size s.slots.size), h]

theorem paneParts_congr {s s' : Store} (h : s'.leafOf = s.leafOf) :
    s'.paneParts = s.paneParts :=
  parts_congr (fun f hf => by cases f <;> simp_all [Form.isLeaf, Form.panePart]) h

theorem placeholderParts_congr {s s' : Store} (h : s'.leafOf = s.leafOf) :
    s'.placeholderParts = s.placeholderParts :=
  parts_congr (fun f hf => by cases f <;> simp_all [Form.isLeaf, Form.placeholderPart]) h

end Store

/-- The commands that rearrange a layout: they move, stack and float panes, move windows,
zoom, raise tabs, drag sashes and lay the windows out, or apply a drop decided as one of
these. -/
inductive LayoutCommand.Rearranges : LayoutCommand → Prop
  | movePane (part : PartId) (side : Side) (reference : PartId) :
      Rearranges (.movePane part side reference)
  | moveNode (source : NodeId) (side : Side) (reference : NodeId) :
      Rearranges (.moveNode source side reference)
  | stack (part reference : PartId) : Rearranges (.stack part reference)
  | stackNode (source reference : NodeId) : Rearranges (.stackNode source reference)
  | detach (part : PartId) (bounds : FloatRect) : Rearranges (.detach part bounds)
  | detachNode (source : NodeId) (bounds : FloatRect) : Rearranges (.detachNode source bounds)
  | moveWindow (window : WindowId) (bounds : FloatRect) : Rearranges (.moveWindow window bounds)
  | zoomIn (part : PartId) : Rearranges (.zoomIn part)
  | zoomNode (node : NodeId) : Rearranges (.zoomNode node)
  | zoomOut : Rearranges .zoomOut
  | bringToTop (part : PartId) : Rearranges (.bringToTop part)
  | resizeSash (split : NodeId) (index : Nat) (delta : Int) :
      Rearranges (.resizeSash split index delta)
  | layoutMain (area : Rect) : Rearranges (.layoutMain area)
  | regions (window : WindowRef) (area : Option Rect) : Rearranges (.regions window area)
  | applyDrop (d : DropDecision) : d.action ≠ .minimize → Rearranges (.applyDrop d)

namespace Script

open LayoutM Layout

/-- A command that rearranges a sound layout keeps the nodes that carry parts, with their
forms, whether it is carried out or refused. -/
theorem layoutStep_leafOf {l : Layout} (docs : List (String × Memento)) (hs : l.Sound [])
    {c : LayoutCommand} (hc : c.Rearranges) :
    (layoutStep ⟨l, docs⟩ c).2.layout.store.leafOf = l.store.leafOf := by
  have hP := readsLeaves_leavesAre l.store.leafOf
  have hl : l.LeavesAre l.store.leafOf := rfl
  show LeavesAre l.store.leafOf (layoutStep ⟨l, docs⟩ c).2.layout
  cases hc with
  | movePane part side ref => exact request_ends (leaves_movePane hs hl part side ref) _
  | moveNode src side ref => exact request_ends (leaves_moveNode hs hl src side ref) _
  | stack part ref => exact request_ends (leaves_stack hs hl part ref) _
  | stackNode src ref => exact request_ends (leaves_stackNode hs hl src ref) _
  | detach part b => exact request_ends (leaves_detach hs hl part b) _
  | detachNode src b => exact request_ends (leaves_detachNode hs hl src b) _
  | moveWindow w b => exact request_keeps (hP.keeps_moveWindow w b) hl _
  | zoomIn part => exact request_keeps (hP.keeps_zoomIn part) hl .flag
  | zoomNode n => exact request_keeps (hP.keeps_zoomNode n) hl .flag
  | zoomOut => exact request_keeps hP.keeps_zoomOut hl .flag
  | bringToTop part => exact request_keeps (hP.keeps_bringToTop part) hl .flag
  | resizeSash n index delta =>
    have h := hP.keeps_resizeSash n index delta _ hl
    dsimp only [layoutStep]
    split
    · next heq => exact h.run_ok heq
    · next heq => exact h.run_ok heq
    · next heq => exact h.run_error heq
  | layoutMain area => exact request_keeps (hP.keeps_layoutMain area) hl _
  | regions w area => exact request_keeps (hP.keeps_regions w area) hl _
  | applyDrop d hd => exact request_ends (leaves_applyDrop hs hl d hd) .flag

end Script

namespace Layout

/-- Rearranging a reachable layout neither loses nor duplicates a part, carried out or
refused: its panes show the same parts, and its placeholders keep places for the same parts,
each as many times as before. -/
theorem Reachable.rearranging_keeps_parts {l : Layout} (hr : l.Reachable)
    (docs : List (String × Memento)) {c : LayoutCommand} (hc : c.Rearranges) :
    (Script.layoutStep ⟨l, docs⟩ c).2.layout.store.paneParts = l.store.paneParts ∧
      (Script.layoutStep ⟨l, docs⟩ c).2.layout.store.placeholderParts =
        l.store.placeholderParts :=
  have h := Script.layoutStep_leafOf docs hr.sound hc
  ⟨Store.paneParts_congr h, Store.placeholderParts_congr h⟩

/-- A view torn off into a window of its own. -/
theorem Reachable.rearranging_keeps_parts_detach :
    let l := (Script.layoutStep ⟨Layout.withEditorArea (Host.fresh true), []⟩
      (.addPane ⟨"A", .view⟩)).2.layout
    l.Reachable ∧ LayoutCommand.Rearranges (.detach "A" ⟨0, 0, 100, 100⟩) ∧
    ((Script.layoutStep ⟨l, []⟩ (.detach "A" ⟨0, 0, 100, 100⟩)).2.layout.store.paneParts =
        l.store.paneParts ∧
      (Script.layoutStep ⟨l, []⟩ (.detach "A" ⟨0, 0, 100, 100⟩)).2.layout.store.placeholderParts =
        l.store.placeholderParts) :=
  have h := Reachable.step [] (.addPane ⟨"A", .view⟩) (.withEditorArea _) fun _ => nofun
  ⟨h, .detach _ _, Reachable.rearranging_keeps_parts h [] (.detach _ _)⟩

end Layout

end Docking
