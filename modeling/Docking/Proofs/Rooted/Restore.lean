import Docking.Proofs.Rooted.Formed
import Docking.Proofs.Tabs
/-!
# Restoring any document

`Layout.restore` reads a whole document before it touches the host: every check of the
document fails the restore before a window opens, so a document that fails, fails on every
host. A document that reads gives a formed layout whatever its shape (`Layout.Formed`): reading
keeps the table a forest whose only nodes without a container are the main root and the folders
read for windows, every split gets a weight per child, and every folder's selection is fixed
onto a pane once its tabs are read; reopening the windows then moves the folders to the frames.
Main statement: `Layout.restore_safe`.
-/

namespace Docking

namespace Layout

theorem Formed.inFrames_setBounds {T : Layout} {E : List NodeId} {b₁ b' : Builder} {id : NodeId}
    {r : Rect} (hF : (b₁.inFrames T).Formed E) (hst : b'.store = b₁.store.setBounds id r) :
    (b'.inFrames T).Formed E := by
  have hss : Store.SameShape b₁.store b'.store := hst ▸ Store.sameShape_setBounds _ _ _
  exact (hF.sameShape hss (hst ▸ hF.aligned.setBounds id r)
    (hst ▸ hF.selected.of_refolds (Store.refolds_setBounds _ id r))).of_frames rfl rfl rfl rfl rfl

end Layout

namespace Builder

section Reading

variable (T : Layout) (E : List NodeId)

/-- What reading the element `m` of any document from `b` leaves when it gives the node `id`
and the builder `b'`: the node joins the held-out nodes of a formed layout; it is new, and only
new nodes were linked; a folder's element gives a folder. -/
structure Took (m : Memento) (b : Builder) (id : NodeId) (b' : Builder) : Prop where
  formed : (b'.inFrames T).Formed (id :: E)
  fresh : b.store.contains id = false
  keeps : b.store.Keeps b'.store
  folder : m.kind = "folder" → b'.store.form? id = some .folder

variable {T E} {m : Memento} {b b₁ : Builder} {id : NodeId}

theorem took_alloc (hF : (b.inFrames T).Formed E) (ident : String) (kind : NodeKind)
    (hk : Store.walkChildren true kind = []) (hka : kind.aligned = true)
    (hsel : ∀ cs sel, kind = .folder cs sel → cs = [] ∧ sel = none)
    (hfold : m.kind = "folder" → kind.form = .folder) :
    Took T E m b b.store.nextId { b with store := (b.store.alloc ident kind).2 } := by
  have hform : (b.store.alloc ident kind).2.form? b.store.nextId = some kind.form := by
    rw [Store.form?_alloc, if_pos rfl]
  exact ⟨hF.alloc _ _ hk hka hsel, Store.contains_nextId _,
    Store.keeps_alloc _ _ _, fun hf => by rw [hform, hfold hf]⟩

/-- The end of an element's reading keeps what the reading of its node left. -/
theorem took_finish (h : Took T E m b id b₁) :
    Reads (do
      let r ← read (savedRect m)
      modify fun b => { b with store := b.store.setBounds id r }
      if m.bool? "editor-area" == some true then modify fun b => { b with editorArea := some id }
      if m.bool? "zoomed" == some true then modify fun b => { b with zoomed := some id }
      pure id : BuildM NodeId) b₁ (Took T E m b) := by
  refine (reads_finish_eq b₁).mono fun id' b' ⟨hid, ⟨r, hst⟩, _⟩ => ?_
  subst hid
  have hss : Store.SameShape b₁.store b'.store := hst ▸ Store.sameShape_setBounds _ _ _
  exact ⟨h.formed.inFrames_setBounds hst, h.fresh, h.keeps.trans (.of_sameShape hss),
    fun hf => (hss _).2.2.trans (h.folder hf)⟩

/-- The node a reading gave, put into a node without a container that was there before, leaves
the held-out nodes: the container does not lie below the new node. -/
theorem Took.insertChild (h : Took T E m b id b₁) (hF : (b.inFrames T).Formed E) {p : NodeId}
    (hp : p ∈ (b.inFrames T).tops ++ E) {i : Nat} {w : Float32} {s₂ : Store}
    (h₂ : b₁.store.insertChild p i id w = .ok s₂) :
    ({ b₁ with store := s₂ }.inFrames T).Formed E ∧ b.store.Keeps s₂ := by
  have hne : id ≠ p := Store.ne_of_contains_false h.fresh (hF.rooted.tops_top p hp).1
  have hF₂ := h.formed.insertChild h₂ List.mem_cons_self
    (not_under_of_top (h.formed.rooted.tops_top p (Layout.mem_tops_cons hp)).2 hne)
  rw [List.erase_cons_head] at hF₂
  exact ⟨hF₂, h.keeps.insertChild h.fresh h₂⟩

theorem Took.pushChild (h : Took T E m b id b₁) (hF : (b.inFrames T).Formed E) {p : NodeId}
    (hp : p ∈ (b.inFrames T).tops ++ E) {s₂ : Store} (h₂ : b₁.store.pushChild p id = .ok s₂) :
    ({ b₁ with store := s₂ }.inFrames T).Formed E ∧ b.store.Keeps s₂ := by
  obtain ⟨pn, -, hi⟩ := Store.pushChild_eq_ok h₂
  exact h.insertChild hF hp hi

/-! ### The four readers, one lemma per case of their recursion -/

/-- Reading an element of any document. -/
def NodeTakes (T : Layout) (m : Memento) : Prop :=
  ∀ {b : Builder} {E : List NodeId}, (b.inFrames T).Formed E → Reads (node m) b (Took T E m b)

/-- Reading the children of a split `split` without a container into its slots. -/
def SlotsTake (T : Layout) (m : Memento) (split : NodeId) (cs : List Memento) : Prop :=
  ∀ {b : Builder} {E : List NodeId}, (b.inFrames T).Formed E → split ∈ (b.inFrames T).tops ++ E →
    Reads (slots m split cs) b fun _ b' => (b'.inFrames T).Formed E ∧ b.store.Keeps b'.store

/-- Reading the tabs of a folder `folder` without a container. -/
def TabsTake (T : Layout) (m : Memento) (folder : NodeId) (cs : List Memento) : Prop :=
  ∀ {b : Builder} {E : List NodeId}, (b.inFrames T).Formed E → folder ∈ (b.inFrames T).tops ++ E →
    Reads (tabs m folder cs) b fun _ b' => (b'.inFrames T).Formed E ∧ b.store.Keeps b'.store

/-- Reading the node a collapsed element folds. -/
def FirstTakes (T : Layout) (m : Memento) (cs : List Memento) : Prop :=
  ∀ {b : Builder} {E : List NodeId}, (b.inFrames T).Formed E →
    Reads (first m cs) b fun inner b' => ∃ c ∈ cs.head?, Took T E c b inner b'

theorem slotsTake_nil (m : Memento) (split : NodeId) : SlotsTake T m split [] :=
  fun hF _ => ⟨hF, .refl _⟩

theorem tabsTake_nil (m : Memento) (folder : NodeId) : TabsTake T m folder [] :=
  fun hF _ => ⟨hF, .refl _⟩

theorem firstTakes_nil (m : Memento) : FirstTakes T m [] :=
  fun _ => reads_fail _

theorem firstTakes_cons {m c : Memento} {rest : List Memento} (hc : NodeTakes T c) :
    FirstTakes T m (c :: rest) := fun hF =>
  (hc hF).mono fun _ _ h => ⟨c, rfl, h⟩

theorem tabsTake_cons {m c : Memento} {rest : List Memento} {folder : NodeId}
    (hc : NodeTakes T c) (hrest : TabsTake T m folder rest) : TabsTake T m folder (c :: rest) := by
  intro b E hF hf
  rw [tabs.eq_2, reads_bind]
  refine (hc hF).mono fun child b₁ h₁ => ?_
  rw [reads_bind, reads_edit]
  intro s₂ h₂
  obtain ⟨hF₂, hk₂⟩ := h₁.pushChild hF hf h₂
  exact (hrest hF₂ hf).mono fun _ b' h' => ⟨h'.1, hk₂.trans h'.2⟩

/-- A child is read with its weight, then put in the split's last slot. -/
theorem slotsTake_cons {m c : Memento} {rest : List Memento} {split : NodeId}
    (hc : NodeTakes T c) (hrest : SlotsTake T m split rest) : SlotsTake T m split (c :: rest) := by
  intro b E hF hp
  rw [slots.eq_2, reads_bind, reads_read]
  intro w _
  rw [reads_bind]
  refine (hc hF).mono fun child b₁ h₁ => ?_
  rw [reads_bind, reads_edit]
  intro s₂ h₂
  obtain ⟨hF₂, hk₂⟩ := h₁.insertChild hF hp h₂
  exact (hrest hF₂ hp).mono fun _ b' h' => ⟨h'.1, hk₂.trans h'.2⟩

theorem nodeTakes_mk {kind : String} {attrs : List (String × Value)} {children : List Memento}
    (hfirst : FirstTakes T ⟨kind, attrs, children⟩ children)
    (htabs : ∀ id, TabsTake T ⟨kind, attrs, children⟩ id children)
    (hslots : ∀ id, SlotsTake T ⟨kind, attrs, children⟩ id children) :
    NodeTakes T ⟨kind, attrs, children⟩ := by
  intro b E hF
  rw [node.eq_1, reads_bind, reads_read]
  intro ident _
  extract_lets finish
  split
  · -- a pane
    rw [reads_bind, reads_read]
    intro part _
    rw [reads_bind, reads_read]
    intro k _
    rw [reads_bind, reads_alloc]
    exact took_finish (took_alloc hF _ _ rfl rfl (fun _ _ h => by cases h)
      fun h => absurd h (by simp))
  · -- a placeholder
    rw [reads_bind, reads_read]
    intro part _
    rw [reads_bind, reads_alloc]
    exact took_finish (took_alloc hF _ _ rfl rfl (fun _ _ h => by cases h)
      fun h => absurd h (by simp))
  · -- a collapsed node: the node it folds first, then the node itself
    rw [reads_bind]
    refine (hfirst hF).mono fun inner b₁ hb₁ => ?_
    obtain ⟨_, _, h₁⟩ := hb₁
    rw [reads_bind, reads_alloc, reads_bind, reads_edit]
    intro s₂ h₂
    rw [reads_bind, reads_pure]
    have hF₂ := h₁.formed.adopt List.mem_cons_self h₂
    rw [List.erase_cons_head] at hF₂
    have hinc : b₁.store.contains inner = true := (h₁.formed.rooted.extra_top List.mem_cons_self).1
    have hk₂ : b.store.Keeps s₂ := h₁.keeps.adopt h₁.fresh hinc h₂
    exact took_finish ⟨hF₂, h₁.keeps.contains_nextId, hk₂, fun h => absurd h (by simp)⟩
  · -- a folder: its tabs, then its selection, fixed onto a pane
    rw [reads_bind, reads_alloc]
    have h₁ : Took T E ⟨"folder", attrs, children⟩ b b.store.nextId _ :=
      took_alloc hF ident .emptyFolder rfl rfl (fun _ _ h => by cases h; exact ⟨rfl, rfl⟩)
        fun _ => rfl
    rw [reads_bind]
    refine (htabs _ h₁.formed (List.mem_append_right _ List.mem_cons_self)).mono
      fun _ b₂ hb₂ => ?_
    obtain ⟨hF₂, hk₂⟩ := hb₂
    have hform₂ : b₂.store.form? b.store.nextId = some .folder :=
      (hk₂.form _ ((Store.contains_iff_form? _ _).mpr (by rw [h₁.folder rfl]; rfl))).trans
        (h₁.folder rfl)
    rw [reads_bind, reads_get]
    extract_lets fix
    -- the saved selection, when it names a tab, is set; then the fix moves it onto a pane
    have hfix : ∀ s₃, Store.SameShape b₂.store (s₃.fixSelection b.store.nextId) →
        ({ b₂ with store := s₃.fixSelection b.store.nextId }.inFrames T).Formed
          (b.store.nextId :: E) →
        Reads (fix ()) { b₂ with store := s₃ } (Took T E ⟨"folder", attrs, children⟩ b) := by
      intro s₃ hss hF₃
      dsimp only [fix]
      rw [reads_bind, reads_modify, reads_bind, reads_pure]
      exact took_finish ⟨hF₃, h₁.fresh, h₁.keeps.trans (hk₂.trans (.of_sameShape hss)),
        fun _ => (hss _).2.2.trans hform₂⟩
    split
    · next sel hsel =>
      rw [reads_bind, reads_set]
      obtain ⟨i, -, hi⟩ := Option.bind_eq_some_iff.mp hsel
      have hsp : b₂.store.parent? sel = some b.store.nextId := hF₂.rooted.forest.held_parent
        (Store.mem_held_of_mem_children (List.mem_of_getElem? hi))
      exact hfix _ ((Store.sameShape_select _ _).trans (Store.sameShape_fixSelection _ _))
        (hF₂.select_fixSelection hsp)
    · exact hfix _ (Store.sameShape_fixSelection _ _) (hF₂.fixSelection _)
  · -- a split: its children, in its slots
    rw [reads_bind, reads_read]
    intro o _
    rw [reads_bind, reads_alloc]
    have h₁ : Took T E ⟨"split", attrs, children⟩ b b.store.nextId _ :=
      took_alloc hF ident (.emptySplit o) rfl rfl (fun _ _ h => by cases h)
        fun h => absurd h (by simp)
    rw [reads_bind]
    refine (hslots _ h₁.formed (List.mem_append_right _ List.mem_cons_self)).mono
      fun _ b₂ hb₂ => ?_
    obtain ⟨hF₂, hk₂⟩ := hb₂
    rw [reads_bind, reads_pure]
    exact took_finish ⟨hF₂, h₁.fresh, h₁.keeps.trans hk₂, fun h => absurd h (by simp)⟩
  · rw [reads_bind]
    exact reads_fail _

/-- Reading an element of any document over a formed layout ends formed, with the new node
among the held-out nodes. The induction follows the four readers' mutual recursion. -/
theorem nodeTakes (m : Memento) : NodeTakes T m :=
  Builder.node.induct (fun m => NodeTakes T m) (fun m p cs => SlotsTake T m p cs)
    (fun m f cs => TabsTake T m f cs) (fun m cs => FirstTakes T m cs)
    (fun _ _ _ hfirst htabs hslots => nodeTakes_mk hfirst htabs hslots)
    slotsTake_nil (fun _ _ _ _ hc hrest => slotsTake_cons hc hrest)
    tabsTake_nil (fun _ _ _ _ hc hrest => tabsTake_cons hc hrest)
    firstTakes_nil (fun _ _ _ hc => firstTakes_cons hc) m

theorem slotsTake (m : Memento) (split : NodeId) : ∀ cs, SlotsTake T m split cs
  | [] => slotsTake_nil m split
  | c :: rest => slotsTake_cons (nodeTakes c) (slotsTake m split rest)

/-- The root split of the main window, read into an empty table, is the layout's root from its
allocation on, and leaves the layout formed with no node held out. -/
theorem rootTakes {attrs : List (String × Value)} {children : List Memento}
    (hroot : T.root = (default : Store).nextId) (hw : T.windows = []) (hp : T.parked = []) :
    Reads (node ⟨"split", attrs, children⟩) {} fun root b =>
      root = T.root ∧ (b.inFrames T).Formed [] := by
  rw [node.eq_1, reads_bind, reads_read]
  intro ident _
  extract_lets finish
  -- the element is a split: the other branches of the reading are not taken
  split
  iterate 4 next h => exact absurd h (by decide)
  · rw [reads_bind, reads_read]
    intro o _
    rw [reads_bind, reads_alloc, reads_bind]
    have hF₁ : ({ ({} : Builder) with
        store := ((default : Store).alloc ident (.emptySplit o)).2 }.inFrames T).Formed [] :=
      (Layout.sound_rootAlone hroot hw hp ident o).formed
        (Store.selected_default.of_refolds
          (Store.refolds_alloc Store.forest_default ident fun _ _ h => by cases h))
    have htop₁ : T.root ∈ ({ ({} : Builder) with
        store := ((default : Store).alloc ident (.emptySplit o)).2 }.inFrames T).tops ++ [] :=
      List.mem_append_left _ List.mem_cons_self
    rw [show ({} : Builder).store.nextId = T.root from hroot.symm]
    refine (slotsTake _ _ children hF₁ htop₁).mono fun _ b₂ hb₂ => ?_
    rw [reads_bind, reads_pure]
    refine (reads_finish_eq b₂).mono fun _ _ hfin => ?_
    obtain ⟨hid, ⟨_, hst⟩, _⟩ := hfin
    exact ⟨hid, hb₂.1.inFrames_setBounds hst⟩
  · rw [reads_bind]
    exact reads_fail _

end Reading

end Builder

theorem except_bind_eq_error {ε α β : Type} {x : Except ε α} {f : α → Except ε β} {e : ε} :
    x >>= f = .error e ↔ x = .error e ∨ ∃ a, x = .ok a ∧ f a = .error e := by
  cases x <;> simp [bind, Except.bind]

namespace Layout

/-- Restoring any document that reads gives a formed layout with no node held out. -/
theorem restore_formed {host : Host} {m : Memento} {l : Layout} (h : restore host m = .ok l) :
    l.Formed [] := by
  refine restore_of_steps (fun l E => l.Formed E) (fun _ c _ _ hk => ?_)
    (fun _ c b E _ hfolder hF => ?_) (fun hF hp => hF.perm hp)
    (fun _ hF => hF.of_frames rfl rfl rfl rfl rfl) (fun b p hF hf hfold => hF.reopen hf hfold b p)
    (fun _ hF => hF.of_frames rfl rfl rfl rfl rfl) h
  · obtain ⟨kind, attrs, cs⟩ := c
    obtain rfl : kind = "split" := hk
    exact Builder.rootTakes rfl rfl rfl
  · exact (Builder.nodeTakes c hF).mono fun _ _ hread =>
      ⟨hread.formed, hread.keeps, hread.folder (savedFolder_eq_ok hfolder).2⟩

/-- A restore fails only while it reads the document, before any window opens: the host
makes no difference to a failure. -/
theorem restore_error_of_host {host host' : Host} {m : Memento} {e : RestoreError}
    (h : restore host m = .error e) : restore host' m = .error e := by
  rw [restore, except_bind_eq_error] at h ⊢
  refine h.imp id fun hmain => ?_
  obtain ⟨main, hmain, h⟩ := hmain
  refine ⟨main, hmain, ?_⟩
  dsimp only at h ⊢
  -- the goal and `h` take the same branches; only the layout built at the end names the host
  cases hch : main.children with
  | nil =>
    rw [hch] at h
    dsimp only at h ⊢
    rw [except_throw_bind] at h ⊢
    exact h
  | cons rootSaved rest =>
    rw [hch] at h
    dsimp only at h ⊢
    rw [except_pure_bind] at h ⊢
    split at h
    · next hk =>
      rw [if_pos hk, except_throw_bind]
      rw [except_throw_bind] at h
      exact h
    next hk =>
    rw [if_neg hk]
    -- each later step either fails as in `h` or succeeds alike
    rw [except_bind_eq_error] at h ⊢
    refine h.imp id fun hr => ?_
    obtain ⟨r, hr, h⟩ := hr
    refine ⟨r, hr, ?_⟩
    rw [except_bind_eq_error] at h ⊢
    refine h.imp id fun hr => ?_
    obtain ⟨r, hr, h⟩ := hr
    refine ⟨r, hr, ?_⟩
    rw [except_bind_eq_error] at h ⊢
    refine h.imp id fun hr => ?_
    obtain ⟨_, _, h⟩ := hr
    cases h

/-- Restoring any document on any host is safe: either it fails, with the same error on every
host, and a session that asks for it keeps its layout and host as they were; or it gives a
formed layout, a forest whose nodes without a container are exactly the main root and the
windows' folders, with a weight for every child of a split, every folder's selection on a
pane, a split at the main root and a folder in every window. -/
theorem restore_safe (host : Host) (m : Memento) :
    (∃ e, restore host m = .error e ∧
      ∀ s : LayoutSession, Script.layoutStep s (.restoreState m) = (.error (.restore e), s)) ∨
    ∃ q, restore host m = .ok q ∧ q.Formed [] := by
  cases h : restore host m with
  | error e =>
    refine .inl ⟨e, rfl, fun s => ?_⟩
    have hs : Script.replaceLayout s.layout m = .error e := by
      rw [Script.replaceLayout, restore_error_of_host h]
      rfl
    simp only [Script.layoutStep, hs]
  | ok q => exact .inr ⟨q, rfl, restore_formed h⟩

end Layout

end Docking
