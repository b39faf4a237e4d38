import Docking.Proofs.Rooted.Move
import Docking.Proofs.Rooted.Restore
import Docking.Proofs.WindowFrame
/-!
# Every layout command keeps a layout planted

The requests that hide, show and move panes keep a layout planted (`Proofs/Rooted/Hide`,
`Show` and `Move`). The rest change no link, and each follows from the generic lemma of
`Proofs/WindowFrame` with the planted form of its steps. A restore gives a planted layout from
any document that reads (`Layout.restore_planted`), so every command of a layout script keeps
a layout planted, carried out or refused (`Script.layoutStep_planted`).

Since no folder of a sound layout holds a folder, every folder of a reachable layout selects a
pane when it has one (`Layout.Reachable.selected`). With soundness this makes the node table
of a reachable layout a forest rooted at its windows, with aligned weights and selections on
panes (`Layout.Reachable.wellFormedForest`).
-/

namespace Docking

namespace LayoutM

open Layout

variable {E : List NodeId}

/-! ### Zoom, tabs and layout passes -/

theorem keeps_zoomTo_planted (u : NodeId) :
    Keeps (·.Planted E) (modify fun l => { l with zoomed := some u }) :=
  fun _ hl => (ends_modify _).mpr (hl.of_frames rfl rfl rfl rfl rfl rfl)

theorem keeps_setBounds_planted (id : NodeId) (r : Rect) :
    Keeps (·.Planted E) (onStore (·.setBounds id r)) := fun _ hl =>
  (ends_onStore _).mpr (hl.sameShape (Store.sameShape_setBounds _ _ _) (Store.size_setBounds _ _ _)
    (hl.picked.of_refolds (Store.refolds_setBounds _ _ _)))

theorem keeps_zoomNode_planted (n : NodeId) : Keeps (·.Planted E) (zoomNode n) :=
  keeps_zoomNode_of (fun _ _ hl hm => ends_select_planted hl hm.pickable) keeps_zoomTo_planted n

theorem keeps_zoomIn_planted (part : PartId) : Keeps (·.Planted E) (zoomIn part) :=
  keeps_zoomIn_of (fun _ _ hl hm => ends_select_planted hl hm.pickable) keeps_zoomTo_planted part

theorem keeps_zoomOut_planted : Keeps (·.Planted E) zoomOut :=
  fun _ hl => ends_zoomOut.mpr (hl.of_frames rfl rfl rfl rfl rfl rfl)

theorem keeps_bringToTop_planted (part : PartId) : Keeps (·.Planted E) (bringToTop part) :=
  keeps_bringToTop_of (fun _ _ hl hm => ends_select_planted hl hm.pickable) part

theorem keeps_regions_planted (window : WindowRef) (area : Option Rect) :
    Keeps (·.Planted E) (regions window area) :=
  keeps_regions_of keeps_setBounds_planted window area

/-- A sash moves weight between two children of a split: the split holds the same children. -/
theorem keeps_resizeSash_planted (split : NodeId) (index : Nat) (delta : Int) :
    Keeps (·.Planted E) (resizeSash split index delta) := fun l hl => by
  rw [resizeSash, ends_bind]
  cases hg : l.store.get? split with
  | none =>
    rw [ends_node, hg]
    exact hl
  | some n =>
    rw [ends_node_of hg]
    split
    · next o cs ws hk =>
      split
      · exact hl
      · rw [ends_bind, ends_store]
        split
        · exact hl
        · exact hl
        · rw [ends_bind, ends_onStore, ends_pure]
          exact hl.turnSplit hg hk
    · rw [ends_throw]
      exact hl

/-! ### Fast views and drops -/

theorem keeps_removePane_planted (part : PartId) : Keeps (·.Planted E) (removePane part) :=
  fun _ hl => ends_removePane_planted hl part

theorem keeps_addPane_planted (pane : Pane) : Keeps (·.Planted E) (addPane pane) :=
  fun _ hl => (ends_addPane_planted hl pane).mono (fun _ _ h => h) fun _ _ h => h.1

theorem keeps_setFast_planted (part : PartId) : Keeps (·.Planted E) (setFast part) := by
  refine keeps_get_bind fun _ _ => ?_
  split
  · refine keeps_bind (keeps_node _) fun _ => ?_
    extract_lets hide
    -- the list of fast views is no part of the shape
    have hhide : ∀ u, Keeps (·.Planted E) (hide u) := fun _ =>
      keeps_bind (keeps_removePane_planted _) fun _ l hl => (ends_modify _).mpr (by
        split <;> exact hl.of_frames rfl rfl rfl rfl rfl rfl)
    split
    · exact hhide ()
    · exact keeps_bind (keeps_throw _) hhide
  · exact keeps_throw _

theorem keeps_restoreFast_planted (part : PartId) : Keeps (·.Planted E) (restoreFast part) := by
  refine keeps_get_bind fun _ _ => ?_
  split
  · exact keeps_bind (keeps_throw _) fun _ => keeps_addPane_planted _
  · exact keeps_addPane_planted _

theorem keeps_clearFast_planted (part : PartId) : Keeps (·.Planted E) (clearFast part) :=
  keeps_get_bind fun _ hl =>
    keeps_bind (keeps_set (hl.of_frames rfl rfl rfl rfl rfl rfl)) fun _ => keeps_pure _

theorem keeps_retainPanes_planted (keep : PartId → Bool) :
    Keeps (·.Planted E) (retainPanes keep) :=
  keeps_get_bind fun _ _ => keeps_bind (keeps_forIn _ _ fun _ _ =>
    keeps_bind (keeps_removePane_planted _) fun _ => keeps_pure _) fun _ => keeps_pure ()

/-- A drop is carried out by the request its decision names; minimizing hides the views under
the source one by one. -/
theorem keeps_applyDrop_planted (d : DropDecision) : Keeps (·.Planted E) (applyDrop d) := by
  unfold applyDrop
  split
  · exact keeps_pure false
  · exact keeps_bind (fun _ hl => ends_moveNode_planted hl _ _ _) fun _ => keeps_pure true
  · exact keeps_bind (fun _ hl => ends_stackNode_planted hl _ _) fun _ => keeps_pure true
  · exact keeps_bind (fun _ hl => ends_detachNode_planted hl _ _) fun _ => keeps_pure _
  · exact keeps_bind (fun _ hl => ends_moveWindow_planted hl _ _) fun _ => keeps_pure true
  · refine keeps_bind keeps_store fun _ => ?_
    dsimp only
    split
    · exact keeps_bind (keeps_throw _) fun _ => keeps_bind (keeps_forIn _ _ fun _ _ =>
        keeps_bind (keeps_setFast_planted _) fun _ => keeps_pure _) fun _ => keeps_pure true
    · exact keeps_bind (keeps_forIn _ _ fun _ _ =>
        keeps_bind (keeps_setFast_planted _) fun _ => keeps_pure _) fun _ => keeps_pure true

/-- Opening a window changes neither the table nor the editor-area mark, and never fails. -/
theorem ends_openWindow_frame {l : Layout} (f : NodeId) (b : FloatRect) :
    Ends (openWindow f b) l (fun _ l' => l'.store = l.store ∧ l'.editorArea = l.editorArea)
      fun _ _ => False := by
  rw [openWindow, ends_bind, ends_get]
  dsimp only
  split
  · rw [ends_bind, ends_set, ends_pure]
    exact ⟨rfl, rfl⟩
  · rw [ends_bind, ends_set, ends_pure]
    exact ⟨rfl, rfl⟩

end LayoutM

/-! ### Restoring any document -/

namespace Builder

/-- The editor-area mark of a builder names a slot of the table read so far. -/
def MarkIn (b : Builder) : Prop := ∀ a, b.editorArea = some a → a.val < b.store.slots.size

/-- What reading an element from `b` leaves when it gives the node `id` and the builder `b'`:
the mark still names a slot, the table did not shrink, and the node has a slot. -/
structure Marked (b : Builder) (id : NodeId) (b' : Builder) : Prop where
  mark : b'.MarkIn
  grows : b.store.slots.size ≤ b'.store.slots.size
  lt : id.val < b'.store.slots.size

variable {m : Memento} {b b₁ b₂ : Builder} {id : NodeId}

theorem MarkIn.grow (h : b.MarkIn) (harea : b₁.editorArea = b.editorArea)
    (hsize : b.store.slots.size ≤ b₁.store.slots.size) : b₁.MarkIn :=
  fun a ha => Nat.lt_of_lt_of_le (h a (harea ▸ ha)) hsize

theorem Marked.extend (h : Marked b id b₁) (hm : b₂.MarkIn)
    (hsize : b₁.store.slots.size ≤ b₂.store.slots.size) : Marked b id b₂ :=
  ⟨hm, Nat.le_trans h.grows hsize, Nat.lt_of_lt_of_le h.lt hsize⟩

theorem Marked.trans (h₁ : Marked b id b₁) {x : NodeId} (h₂ : Marked b₁ x b₂) : Marked b x b₂ :=
  ⟨h₂.mark, Nat.le_trans h₁.grows h₂.grows, h₂.lt⟩

theorem marked_alloc (h : b.MarkIn) (ident : String) (kind : NodeKind) :
    Marked b b.store.nextId { b with store := (b.store.alloc ident kind).2 } := by
  have hsize := Store.size_alloc b.store ident kind
  refine ⟨h.grow rfl (by rw [hsize]; exact Nat.le_succ _), by rw [hsize]; exact Nat.le_succ _, ?_⟩
  rw [hsize]
  exact Nat.lt_succ_self _

/-- The end of an element's reading marks, at most, the node just read. -/
theorem marked_finish (h : Marked b id b₁) :
    Reads (do
      let r ← read (savedRect m)
      modify fun b => { b with store := b.store.setBounds id r }
      if m.bool? "editor-area" == some true then modify fun b => { b with editorArea := some id }
      if m.bool? "zoomed" == some true then modify fun b => { b with zoomed := some id }
      pure id : BuildM NodeId) b₁ (Marked b) := by
  refine (reads_finish_eq b₁).mono fun id' b' hfin => ?_
  obtain ⟨rfl, ⟨r, hst⟩, harea⟩ := hfin
  have hsize : b'.store.slots.size = b₁.store.slots.size := by rw [hst, Store.size_setBounds]
  refine h.extend (fun a ha => ?_) (Nat.le_of_eq hsize.symm)
  rw [hsize]
  rcases harea with harea | ⟨-, harea⟩
  · exact h.mark a (harea ▸ ha)
  · rw [harea] at ha
    cases ha
    exact h.lt

/-! The four readers, one lemma per case of their recursion, as for `Builder.nodeTakes`. -/

/-- Reading an element keeps the mark in the table. -/
def NodeMarks (m : Memento) : Prop := ∀ {b : Builder}, b.MarkIn → Reads (node m) b (Marked b)

def SlotsMark (m : Memento) (split : NodeId) (cs : List Memento) : Prop :=
  ∀ {b : Builder}, b.MarkIn → Reads (slots m split cs) b fun _ b' =>
    b'.MarkIn ∧ b.store.slots.size ≤ b'.store.slots.size

def TabsMark (m : Memento) (folder : NodeId) (cs : List Memento) : Prop :=
  ∀ {b : Builder}, b.MarkIn → Reads (tabs m folder cs) b fun _ b' =>
    b'.MarkIn ∧ b.store.slots.size ≤ b'.store.slots.size

def FirstMarks (m : Memento) (cs : List Memento) : Prop :=
  ∀ {b : Builder}, b.MarkIn → Reads (first m cs) b (Marked b)

theorem slotsMark_nil (m : Memento) (split : NodeId) : SlotsMark m split [] :=
  fun hb => ⟨hb, Nat.le_refl _⟩

theorem tabsMark_nil (m : Memento) (folder : NodeId) : TabsMark m folder [] :=
  fun hb => ⟨hb, Nat.le_refl _⟩

theorem firstMarks_nil (m : Memento) : FirstMarks m [] :=
  fun _ => reads_fail _

theorem firstMarks_cons {c : Memento} {rest : List Memento} (hc : NodeMarks c) :
    FirstMarks m (c :: rest) :=
  fun hb => hc hb

theorem tabsMark_cons {c : Memento} {rest : List Memento} {folder : NodeId}
    (hc : NodeMarks c) (hrest : TabsMark m folder rest) : TabsMark m folder (c :: rest) := by
  intro b hb
  rw [tabs.eq_2, reads_bind]
  refine (hc hb).mono fun child b₁ h₁ => ?_
  rw [reads_bind, reads_edit]
  intro s₂ h₂
  have hsize := Nat.le_of_eq (Store.size_pushChild h₂).symm
  exact (hrest (h₁.mark.grow rfl hsize : ({ b₁ with store := s₂ } : Builder).MarkIn)).mono fun _ b' h' =>
    ⟨h'.1, Nat.le_trans h₁.grows (Nat.le_trans hsize h'.2)⟩

theorem slotsMark_cons {c : Memento} {rest : List Memento} {split : NodeId}
    (hc : NodeMarks c) (hrest : SlotsMark m split rest) : SlotsMark m split (c :: rest) := by
  intro b hb
  rw [slots.eq_2, reads_bind, reads_read]
  intro w _
  rw [reads_bind]
  refine (hc hb).mono fun child b₁ h₁ => ?_
  rw [reads_bind, reads_edit]
  intro s₂ h₂
  have hsize := Nat.le_of_eq (Store.size_insertChild h₂).symm
  exact (hrest (h₁.mark.grow rfl hsize : ({ b₁ with store := s₂ } : Builder).MarkIn)).mono fun _ b' h' =>
    ⟨h'.1, Nat.le_trans h₁.grows (Nat.le_trans hsize h'.2)⟩

theorem nodeMarks_mk {kind : String} {attrs : List (String × Value)} {children : List Memento}
    (hfirst : FirstMarks ⟨kind, attrs, children⟩ children)
    (htabs : ∀ id, TabsMark ⟨kind, attrs, children⟩ id children)
    (hslots : ∀ id, SlotsMark ⟨kind, attrs, children⟩ id children) :
    NodeMarks ⟨kind, attrs, children⟩ := by
  intro b hb
  rw [node.eq_1, reads_bind, reads_read]
  intro ident _
  extract_lets finish
  split
  · -- a pane
    rw [reads_bind, reads_read]
    intro part _
    rw [reads_bind, reads_read]
    intro k _
    rw [reads_bind, reads_alloc]
    exact marked_finish (marked_alloc hb _ _)
  · -- a placeholder
    rw [reads_bind, reads_read]
    intro part _
    rw [reads_bind, reads_alloc]
    exact marked_finish (marked_alloc hb _ _)
  · -- a collapsed node: the node it folds first, then the node itself
    rw [reads_bind]
    refine (hfirst hb).mono fun inner b₁ h₁ => ?_
    rw [reads_bind, reads_alloc, reads_bind, reads_edit]
    intro s₂ h₂
    rw [reads_bind, reads_pure]
    have h₃ := marked_alloc h₁.mark ident (.collapsed inner)
    have hsize := Nat.le_of_eq (Store.size_setParent h₂).symm
    exact marked_finish ((h₁.trans h₃).extend (h₃.mark.grow rfl hsize) hsize)
  · -- a folder: its tabs, then its selection
    rw [reads_bind, reads_alloc]
    have h₁ := marked_alloc hb ident .emptyFolder
    rw [reads_bind]
    refine (htabs _ h₁.mark).mono fun _ b₂ hb₂ => ?_
    have h₂ := h₁.extend hb₂.1 hb₂.2
    rw [reads_bind, reads_get]
    extract_lets fix
    have hfix : ∀ s₃, s₃.slots.size = b₂.store.slots.size →
        Reads (fix ()) { b₂ with store := s₃ } (Marked b) := by
      intro s₃ hs₃
      dsimp only [fix]
      rw [reads_bind, reads_modify, reads_bind, reads_pure]
      have hsize : b₂.store.slots.size ≤ (s₃.fixSelection b.store.nextId).slots.size :=
        Nat.le_of_eq (by rw [Store.size_fixSelection, hs₃])
      exact marked_finish (h₂.extend (h₂.mark.grow rfl hsize) hsize)
    split
    · rw [reads_bind, reads_set]
      exact hfix _ (Store.size_select _ _)
    · exact hfix _ rfl
  · -- a split: its children, in its slots
    rw [reads_bind, reads_read]
    intro o _
    rw [reads_bind, reads_alloc]
    have h₁ := marked_alloc hb ident (.emptySplit o)
    rw [reads_bind]
    refine (hslots _ h₁.mark).mono fun _ b₂ hb₂ => ?_
    rw [reads_bind, reads_pure]
    exact marked_finish (h₁.extend hb₂.1 hb₂.2)
  · rw [reads_bind]
    exact reads_fail _

theorem nodeMarks (m : Memento) : NodeMarks m :=
  Builder.node.induct NodeMarks SlotsMark TabsMark FirstMarks
    (fun _ _ _ hfirst htabs hslots => nodeMarks_mk hfirst htabs hslots)
    slotsMark_nil (fun _ _ _ _ hc hrest => slotsMark_cons hc hrest)
    tabsMark_nil (fun _ _ _ _ hc hrest => tabsMark_cons hc hrest)
    firstMarks_nil (fun _ _ _ hc => firstMarks_cons hc) m

theorem Reads.and {α : Type} {x : BuildM α} {ok₁ ok₂ : α → Builder → Prop} (h₁ : Reads x b ok₁)
    (h₂ : Reads x b ok₂) : Reads x b fun a b' => ok₁ a b' ∧ ok₂ a b' := by
  unfold Reads at *
  cases hx : x.run b with
  | ok p =>
    rw [hx] at h₁ h₂
    exact ⟨h₁, h₂⟩
  | error e => trivial

end Builder

namespace Layout

theorem selected_empty (host : Host) : (Layout.empty host).store.Selected :=
  Store.selected_default.of_refolds
    (Store.refolds_alloc Store.forest_default _ fun _ _ h => by cases h)

theorem selected_withEditorArea (host : Host) : (Layout.withEditorArea host).store.Selected := by
  have h₁ : ((Layout.empty host).store.alloc editorAreaIdent (.emptySplit .horizontal)).2.Selected :=
    (selected_empty host).of_refolds
      (Store.refolds_alloc (sound_empty host).forest editorAreaIdent fun _ _ h => by cases h)
  unfold Layout.withEditorArea
  dsimp only
  split
  · next s h => exact h₁.of_refolds (Store.refolds_pushChild h)
  · exact h₁

theorem Sound.tab_not_folder {l : Layout} {E : List NodeId} (hs : l.Sound E) {x c : NodeId}
    {cs : List NodeId} {sel : Option Nat} (hx : l.store.kindOf x = some (.folder cs sel))
    (hc : c ∈ cs) : l.store.isFolder c = false := by
  have hleaf := hs.tabs_leaves x c (by rw [Store.form?_eq_map_kindOf, hx]; rfl) (Store.tab_held hx hc)
  cases hfc : l.store.isFolder c with
  | false => rfl
  | true => exact absurd (.inl (Store.form?_of_isFolder hfc)) hleaf.not_isContainer

theorem Sound.planted {l : Layout} {E : List NodeId} (hs : l.Sound E) (hpick : l.store.Picked) :
    l.Planted E := by
  refine ⟨hs.rooted, fun a ha => ?_, hpick⟩
  have hc : l.store.contains a = true :=
    (Store.contains_iff_form? _ _).mpr (by rw [(hs.area a ha).1]; rfl)
  obtain ⟨n, hn⟩ := (Store.contains_iff _ _).mp hc
  exact Store.lt_size_of_get? hn

/-- Parking a folder's panes keeps the editor-area mark; each pane's slot goes to a new
placeholder, so the table only grows. -/
theorem parkPanes_mark (l : Layout) (f : NodeId) :
    (l.parkPanes f).editorArea = l.editorArea ∧
      l.store.slots.size ≤ (l.parkPanes f).store.slots.size := by
  unfold parkPanes
  generalize l.store.children f = cs
  induction cs generalizing l with
  | nil => exact ⟨rfl, Nat.le_refl _⟩
  | cons c cs ih =>
    rw [List.foldl_cons]
    refine ⟨(ih _).1.trans ?_, Nat.le_trans ?_ (ih _).2⟩
    · dsimp only
      split
      · rfl
      · split <;> rfl
    · dsimp only
      split
      · exact Nat.le_refl _
      · split
        · next h =>
          rw [Store.size_free, Store.size_replaceChild h, Store.size_alloc]
          exact Nat.le_succ _
        · rw [Store.size_discard, Store.size_alloc]
          exact Nat.le_succ _

/-- Reopening a restored window keeps the editor-area mark over a table at least as large. -/
theorem reopen_mark (l : Layout) (f : NodeId) (b : FloatRect) (p : Bool) :
    (l.reopen f b p).editorArea = l.editorArea ∧
      l.store.slots.size ≤ (l.reopen f b p).store.slots.size :=
  (reopen_of_steps (E := []) (fun l' _ => l'.editorArea = l.editorArea ∧
      l.store.slots.size ≤ l'.store.slots.size)
    (fun b => (LayoutM.ends_openWindow_frame f b).mono
      (fun _ _ h => ⟨h.1, h.2, Nat.le_of_eq (by rw [h.1])⟩) fun _ _ h => h)
    (fun _ _ hl' => ⟨⟨(parkPanes_mark _ f).1.trans hl'.1,
      Nat.le_trans hl'.2 (parkPanes_mark _ f).2⟩, fun _ hx => absurd hx List.not_mem_nil⟩)
    b p ⟨rfl, Nat.le_refl _⟩).1

/-- Restoring any document that reads gives a formed layout whose editor-area mark names a
slot of its table. -/
theorem restore_formed_area {host : Host} {m : Memento} {l : Layout}
    (h : restore host m = .ok l) :
    l.Formed [] ∧ ∀ a, l.editorArea = some a → a.val < l.store.slots.size := by
  refine restore_of_steps
    (fun l E => l.Formed E ∧ ∀ a, l.editorArea = some a → a.val < l.store.slots.size)
    (fun _ c _ _ hk => ?_) (fun _ c b E _ hfolder hl => ?_) (fun hl hp => ⟨hl.1.perm hp, hl.2⟩)
    (fun _ hl => ⟨hl.1.of_frames rfl rfl rfl rfl rfl, hl.2⟩) (fun b p hl hf hfold => ?_)
    (fun _ hl => ⟨hl.1.of_frames rfl rfl rfl rfl rfl, hl.2⟩) h
  · -- the root, read into an empty table with no mark
    obtain ⟨kind, attrs, cs⟩ := c
    obtain rfl : kind = "split" := hk
    exact ((Builder.rootTakes rfl rfl rfl).and (Builder.nodeMarks _ fun _ h => by cases h)).mono
      fun _ _ hr => ⟨hr.1.1, hr.1.2, hr.2.mark⟩
  · exact ((Builder.nodeTakes c hl.1).and (Builder.nodeMarks c hl.2)).mono fun _ _ hr =>
      ⟨⟨hr.1.formed, hr.2.mark⟩, hr.1.keeps, hr.1.folder (savedFolder_eq_ok hfolder).2⟩
  · obtain ⟨harea, hsize⟩ := reopen_mark _ _ b p
    have hF := hl.1.reopen hf hfold b p
    exact ⟨⟨hF.1, fun a ha => Nat.lt_of_lt_of_le (hl.2 a (harea ▸ ha)) hsize⟩, hF.2⟩

/-- Restoring any document that reads gives a planted layout. -/
theorem restore_planted {host : Host} {m : Memento} {l : Layout} (h : restore host m = .ok l) :
    l.Planted [] :=
  ⟨(restore_formed_area h).1.rooted, (restore_formed_area h).2,
    (restore_formed_area h).1.selected.picked⟩

/-- A layout handed over to another keeps its shape: only the host changes. -/
theorem Planted.handOver (hp : l.Planted E) (old : Layout) : (old.handOver l).Planted E :=
  hp.of_frames rfl rfl rfl rfl rfl rfl

end Layout

namespace Script

open LayoutM

/-- Every command of a layout script keeps a layout planted, carried out or refused, whatever
document a restore reads. -/
theorem layoutStep_planted {s : LayoutSession} (hs : s.layout.Planted []) (c : LayoutCommand) :
    (layoutStep s c).2.layout.Planted [] := by
  cases c with
  | addPane p => exact request_keeps (keeps_addPane_planted p) hs _
  | removePane part => exact request_keeps (keeps_removePane_planted part) hs _
  | disposePane part => exact request_ends (ends_disposePane_planted hs part) _
  | movePane part side ref => exact request_ends (ends_movePane_planted hs part side ref) _
  | moveNode src side ref => exact request_ends (ends_moveNode_planted hs src side ref) _
  | stack part ref => exact request_ends (ends_stack_planted hs part ref) _
  | stackNode src ref => exact request_ends (ends_stackNode_planted hs src ref) _
  | detach part b => exact request_ends (ends_detach_planted hs part b) _
  | detachNode src b => exact request_ends (ends_detachNode_planted hs src b) _
  | moveWindow w b => exact request_ends (ends_moveWindow_planted hs w b) _
  | zoomIn part => exact request_keeps (keeps_zoomIn_planted part) hs .flag
  | zoomNode n => exact request_keeps (keeps_zoomNode_planted n) hs .flag
  | zoomOut => exact request_keeps keeps_zoomOut_planted hs .flag
  | bringToTop part => exact request_keeps (keeps_bringToTop_planted part) hs .flag
  | setFast part => exact request_keeps (keeps_setFast_planted part) hs _
  | restoreFast part => exact request_keeps (keeps_restoreFast_planted part) hs _
  | clearFast part => exact request_keeps (keeps_clearFast_planted part) hs .flag
  | retainPanes keep => exact request_keeps (keeps_retainPanes_planted _) hs _
  | resizeSash n index delta =>
    have h := keeps_resizeSash_planted n index delta _ hs
    dsimp only [layoutStep]
    split
    · next heq => exact h.run_ok heq
    · next heq => exact h.run_ok heq
    · next heq => exact h.run_error heq
  | layoutMain area => exact request_keeps (keeps_regions_planted _ _) hs _
  | regions w area => exact request_keeps (keeps_regions_planted w area) hs _
  | evaluateDrop src t pointer =>
    dsimp only [layoutStep]
    split
    · exact hs
    · split <;> exact hs
  | drop src t pointer =>
    dsimp only [layoutStep]
    split
    · exact hs
    · split
      · next heq => exact (keeps_applyDrop_planted _ _ hs).run_ok heq
      · next heq => exact (keeps_applyDrop_planted _ _ hs).run_error heq
  | applyDrop d => exact request_keeps (keeps_applyDrop_planted d) hs .flag
  | closeWindows =>
    exact request_ends ((ends_closeWindows_planted hs).mono (fun _ _ h => h) fun _ _ h => h.elim)
      fun _ => .none
  | saveState name => exact hs
  | restoreState m =>
    dsimp only [layoutStep]
    split
    · next l' heq =>
      unfold replaceLayout at heq
      rw [except_bind_eq_ok] at heq
      obtain ⟨r, hr, heq⟩ := heq
      cases heq
      exact (Layout.restore_planted hr).handOver _
    · exact hs
  | setFloating b => exact hs.of_frames rfl rfl rfl rfl rfl rfl
  | node n => exact hs
  | findPane part => exact hs
  | findPlaceholder part => exact hs
  | windowOf n => exact hs
  | windowOfPart part => exact hs
  | isWithinZoom n => exact hs
  | panes => exact hs
  | isFast part => exact hs
  | windows => exact hs

end Script

namespace Layout

/-! ### Reachable layouts -/

theorem Reachable.planted {l : Layout} (h : l.Reachable) : l.Planted [] := by
  induction h with
  | empty host => exact (sound_empty host).planted (selected_empty host).picked
  | withEditorArea host =>
    exact (sound_withEditorArea host).planted (selected_withEditorArea host).picked
  | step docs c _ _ ih => exact Script.layoutStep_planted ih c
  | restore docs _ _ ih _ => exact Script.layoutStep_planted ih _

/-- Every folder of a reachable layout selects a pane, and selects nothing only when no tab is
a pane: the requests leave every selection on a pane or a folder, and no folder of a sound
layout holds a folder. -/
theorem Reachable.selected {l : Layout} (h : l.Reachable) : l.store.Selected :=
  h.planted.picked.selected fun _ _ _ _ hx hc => h.sound.tab_not_folder hx hc

/-- The node table of a reachable layout is a forest rooted at its windows: every node a
container lists (its children, or the container a collapsed node folds) is in the table
with that container as its link, a node with a link is listed exactly once by it, climbing
the links from any node ends, and the nodes without a link are exactly the main root and the
folders of the detached and of the parked windows, no two of them the same. Every split has
one weight per child, and every folder's selection names a tab that is a pane, a folder
selecting nothing only when none of its tabs is a pane. -/
theorem Reachable.wellFormedForest {l : Layout} (h : l.Reachable) :
    (∀ p c, c ∈ l.store.held p → l.store.contains c = true ∧ l.store.parent? c = some p) ∧
    (∀ c p, l.store.parent? c = some p → (l.store.held p).count c = 1) ∧
    (∀ n, Grounded l.store.parent? n) ∧
    (∀ n, l.store.contains n = true ∧ l.store.parent? n = none ↔
      n ∈ l.root :: (l.windows.map (·.folder) ++ l.parked.map (·.folder))) ∧
    (l.root :: (l.windows.map (·.folder) ++ l.parked.map (·.folder))).Nodup ∧
    (∀ x o cs ws, l.store.kindOf x = some (.split o cs ws) → ws.length = cs.length) ∧
    (∀ x cs i, l.store.kindOf x = some (.folder cs (some i)) →
      ∃ c, cs[i]? = some c ∧ l.store.isPane c = true) ∧
    (∀ x cs, l.store.kindOf x = some (.folder cs none) → ∀ c ∈ cs, l.store.isPane c = false) := by
  have hs := h.sound
  have hf := hs.forest
  have hsel := h.selected
  refine ⟨fun p c hc => ⟨Store.contains_of_parent? (hf.held_parent hc), hf.held_parent hc⟩,
    fun c p hc => hf.parent_held hc, hf.grounded, fun n => ?_, ?_,
    fun x o cs ws hx => ?_, fun x cs i hx => hsel.pane_of_some hx,
    fun x cs hx => hsel.no_pane_of_none hx⟩
  · rw [← List.append_nil (l.root :: _)]
    exact (hs.tops_iff n).symm
  · rw [← List.append_nil (l.root :: _)]
    exact hs.tops_nodup
  · -- a split's weights are aligned with its children
    simpa [NodeKind.aligned] using hs.aligned x _ hx

/-- A main window with the editor area and a view that was then torn off into a window of its
own is a forest rooted at the main root and the new window's folder. -/
theorem Reachable.wellFormedForest_detached :
    let l := (Script.layoutStep ⟨(Script.layoutStep ⟨Layout.withEditorArea (Host.fresh true), []⟩
      (.addPane ⟨"A", .view⟩)).2.layout, []⟩ (.detach "A" ⟨0, 0, 100, 100⟩)).2.layout
    l.Reachable ∧
    ((∀ p c, c ∈ l.store.held p → l.store.contains c = true ∧ l.store.parent? c = some p) ∧
    (∀ c p, l.store.parent? c = some p → (l.store.held p).count c = 1) ∧
    (∀ n, Grounded l.store.parent? n) ∧
    (∀ n, l.store.contains n = true ∧ l.store.parent? n = none ↔
      n ∈ l.root :: (l.windows.map (·.folder) ++ l.parked.map (·.folder))) ∧
    (l.root :: (l.windows.map (·.folder) ++ l.parked.map (·.folder))).Nodup ∧
    (∀ x o cs ws, l.store.kindOf x = some (.split o cs ws) → ws.length = cs.length) ∧
    (∀ x cs i, l.store.kindOf x = some (.folder cs (some i)) →
      ∃ c, cs[i]? = some c ∧ l.store.isPane c = true) ∧
    (∀ x cs, l.store.kindOf x = some (.folder cs none) → ∀ c ∈ cs, l.store.isPane c = false)) :=
  have h := Reachable.step [] (.detach "A" ⟨0, 0, 100, 100⟩)
    (.step [] (.addPane ⟨"A", .view⟩) (.withEditorArea _) fun _ => nofun) fun _ => nofun
  ⟨h, Reachable.wellFormedForest h⟩

end Layout

end Docking
