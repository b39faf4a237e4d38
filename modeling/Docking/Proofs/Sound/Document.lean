import Docking.Proofs.Sound.Restore
/-!
# Fresh and restored layouts are sound

A fresh layout is its root split, and the editor area below it when the page has one. A
saved document is read back in three parts: the root split of the `main` element, into an
empty table, so that it is the main window's root from the start and the layout being built
is sound with no extra node; then the folder of each detached and parked window, each read
as an extra node (`Builder.nodeReads`); and last the fast views. Reopening the windows moves
the folders from the extra nodes to the frames (`Layout.Sound.reopen`), so the restored
layout is sound with none left. Handing a layout over to a new one only changes the host.
-/

namespace Docking

namespace Store

@[simp] theorem get?_default (x : NodeId) : (default : Store).get? x = none := by
  simp [get?, show (default : Store).slots = #[] from rfl]

theorem forest_default : (default : Store).Forest where
  held_parent h := by simp [held] at h
  parent_held h := by simp [parent?] at h
  grounded _ := .top (by simp [parent?])

theorem aligned_default : (default : Store).Aligned := fun x k hk => by
  simp [kindOf] at hk

end Store

namespace Layout

variable {T : Layout}

/-- A table whose one node is a new split is sound as the main window of a layout without
windows, with that split as its root. -/
theorem sound_rootAlone (hroot : T.root = (default : Store).nextId) (hw : T.windows = [])
    (hp : T.parked = []) (ident : String) (o : Orientation) :
    ({ T with store := ((default : Store).alloc ident (.emptySplit o)).2, editorArea := none } :
      Layout).Sound [] := by
  have hform : ∀ x, ((default : Store).alloc ident (.emptySplit o)).2.form? x =
      if x = T.root then some .split else none := fun x => by
    rw [Store.form?_alloc, hroot]
    split <;> simp [Store.form?, NodeKind.emptySplit, NodeKind.form]
  have htops : ∀ s : Store, ({ T with store := s, editorArea := none } : Layout).tops = [T.root] :=
    fun _ => by simp [tops, hw, hp]
  refine ⟨Store.forest_default.alloc rfl, fun n => ?_, by simp [htops], by simp [hw],
    by simp [hw], by simp [hform], by simp [frames, hw, hp], fun x y hx _ => ?_,
    fun x y hx _ => ?_, (fun a ha => by cases ha), Store.aligned_default.alloc ident rfl⟩
  · rw [htops, List.append_nil, List.mem_singleton, Store.contains_alloc, Store.parent?_alloc,
      ← hroot]
    by_cases hn : n = T.root <;> simp [hn, Store.contains, Store.parent?]
  · rw [hform] at hx
    split at hx <;> cases hx
  · rw [hform] at hx
    split at hx <;> cases hx

theorem sound_empty (host : Host) : (Layout.empty host).Sound [] :=
  sound_rootAlone (T := Layout.empty host) rfl rfl rfl rootIdent .horizontal

/-- The editor area is a new split, marked while it has no container and then pushed into the
root: a fresh layout with it is sound. -/
theorem sound_withEditorArea (host : Host) : (Layout.withEditorArea host).Sound [] := by
  have hs₀ := sound_empty host
  generalize hl : Layout.empty host = l at hs₀
  have hs₁ := hs₀.alloc editorAreaIdent (.emptySplit .horizontal) rfl rfl
  have hsplit : (l.store.alloc editorAreaIdent (.emptySplit .horizontal)).2.form? l.store.nextId =
      some .split := by
    rw [Store.form?_alloc, if_pos rfl]
    rfl
  have hs₂ := hs₁.setArea hsplit (by rw [Store.parent?_alloc, if_pos rfl])
  have hroot : (l.store.alloc editorAreaIdent (.emptySplit .horizontal)).2.form? l.root =
      some .split := by
    rw [Store.form?_alloc_of_contains (hs₀.top_of_mem hs₀.root_mem).1]
    exact hs₀.root_split
  obtain ⟨s', h'⟩ := Store.pushChild_ok (.inr hroot)
    ((Store.contains_alloc _ _ _ l.store.nextId).mpr (.inl rfl))
  have hne : l.store.nextId ≠ l.root := fun h =>
    Store.ne_nextId_of_contains (hs₀.top_of_mem hs₀.root_mem).1 h.symm
  have hs₃ := hs₂.pushChild_top h' List.mem_cons_self hs₂.root_mem hne hroot
  rw [List.erase_cons_head] at hs₃
  unfold Layout.withEditorArea
  rw [hl]
  dsimp only
  rw [show l.store.alloc editorAreaIdent (.emptySplit .horizontal) =
    (l.store.nextId, (l.store.alloc editorAreaIdent (.emptySplit .horizontal)).2) from rfl]
  dsimp only
  rw [h']
  exact hs₃

end Layout

namespace Builder

variable {T : Layout}

theorem slotsRead (m : Memento) (split : NodeId) : ∀ cs, SlotsRead T m split cs
  | [] => slotsRead_nil m split
  | c :: rest => slotsRead_cons (nodeReads c) (slotsRead m split rest)

/-- The root split of the main window is read into an empty table: it is the layout's root
from its allocation on, so the layout being built is sound with no extra node. -/
theorem rootReads {attrs : List (String × Value)} {children : List Memento}
    (hm : (⟨"split", attrs, children⟩ : Memento).Shaped true)
    (hroot : T.root = (default : Store).nextId) (hw : T.windows = []) (hp : T.parked = []) :
    Reads (node ⟨"split", attrs, children⟩) {} fun root b => root = T.root ∧ (b.inFrames T).Sound [] := by
  obtain ⟨-, hshape⟩ := hm.split_inv rfl
  rw [node.eq_1, reads_bind, reads_read]
  intro ident _
  extract_lets finish
  -- the element is a split: the other branches of the reading are not taken
  split
  iterate 4 next h => exact absurd h (by decide)
  · rw [reads_bind, reads_read]
    intro o _
    rw [reads_bind, reads_alloc, reads_bind]
    have hs₁ : ({ ({} : Builder) with
        store := ((default : Store).alloc ident (.emptySplit o)).2 }.inFrames T).Sound [] :=
      Layout.sound_rootAlone hroot hw hp ident o
    have hform₁ : ((default : Store).alloc ident (.emptySplit o)).2.form? T.root = some .split := by
      rw [Store.form?_alloc, if_pos hroot]
      rfl
    have htop₁ : T.root ∈ ({ ({} : Builder) with
        store := ((default : Store).alloc ident (.emptySplit o)).2 }.inFrames T).tops ++ [] :=
      List.mem_append_left _ List.mem_cons_self
    rw [show ({} : Builder).store.nextId = T.root from hroot.symm]
    refine (slotsRead _ _ children hshape hs₁ htop₁ hform₁).mono fun _ b₂ hb₂ => ?_
    obtain ⟨hs₂, hk₂, _⟩ := hb₂
    have hform₂ : b₂.store.form? T.root = some .split :=
      (hk₂.form _ ((Store.contains_iff_form? _ _).mpr (by rw [hform₁]; rfl))).trans hform₁
    rw [reads_bind, reads_pure]
    exact (reads_finish_sound hs₂ (hs₂.top_of_mem hs₂.root_mem).2 fun _ => hform₂).mono
      fun _ _ hfin => ⟨hfin.1, hfin.2.1⟩
  · rw [reads_bind]
    exact reads_fail _

theorem Reads.of_run {α : Type} {x : BuildM α} {b b' : Builder} {ok : α → Builder → Prop} {a : α}
    (h : Reads x b ok) (hx : x.run b = .ok (a, b')) : ok a b' := by
  unfold Reads at h
  rw [hx] at h
  exact h

end Builder

theorem except_bind_eq_ok {ε α β : Type} {x : Except ε α} {f : α → Except ε β} {b : β} :
    x >>= f = .ok b ↔ ∃ a, x = .ok a ∧ f a = .ok b := by
  cases x <;> simp [bind, Except.bind]

/-- A fold in `Except` that succeeds keeps an invariant that each of its steps keeps, on
items that all pass a check. -/
theorem foldlM_inv {ε α β : Type} (f : α → β → Except ε α) (inv : α → Prop) (P : β → Prop)
    (hstep : ∀ a x a', P x → inv a → f a x = .ok a' → inv a') :
    ∀ (xs : List β) (a r : α), (∀ x ∈ xs, P x) → inv a → xs.foldlM f a = .ok r → inv r
  | [], a, r, _, ha, h => by
    rw [List.foldlM_nil] at h
    cases h
    exact ha
  | x :: xs, a, r, hP, ha, h => by
    rw [List.foldlM_cons, except_bind_eq_ok] at h
    obtain ⟨a', h₁, h₂⟩ := h
    exact foldlM_inv f inv P hstep xs a' r (fun y hy => hP y (List.mem_cons_of_mem _ hy))
      (hstep a x a' (hP x List.mem_cons_self) ha h₁) h₂

namespace Memento

theorem requireChild_eq_ok {m c : Memento} {kind : String} (h : m.requireChild kind = .ok c) :
    c ∈ m.children ∧ c.kind = kind := by
  unfold requireChild child? at h
  split at h
  · next hc =>
    cases h
    exact ⟨List.mem_of_find?_eq_some hc, by simpa using List.find?_some hc⟩
  · cases h

/-- The documents of the windows of a saved shape: each first holds the element of a folder. -/
theorem ShapedLayout.window {doc w : Memento} (hm : doc.ShapedLayout) {parked : Bool}
    (hw : (w, parked) ∈ (doc.childrenOf "detached").map (·, false) ++
      (doc.childrenOf "detached-placeholder").map (·, true)) :
    ∀ f ∈ w.children.head?, f.Shaped false := by
  simp only [List.mem_append, List.mem_map, Prod.mk.injEq, childrenOf, List.mem_filter,
    beq_iff_eq] at hw
  rcases hw with ⟨w', ⟨hw', hk⟩, rfl, -⟩ | ⟨w', ⟨hw', hk⟩, rfl, -⟩
  · exact (hm w' hw').2 (.inl hk)
  · exact (hm w' hw').2 (.inr hk)

end Memento

theorem savedFolder_eq_ok {w c : Memento} (h : savedFolder w = .ok c) :
    c ∈ w.children.head? ∧ c.kind = "folder" := by
  unfold savedFolder at h
  split at h
  · next hch =>
    split at h
    · next hk =>
      cases h
      exact ⟨by simp [hch], by simpa using hk⟩
    · cases h
  · cases h

namespace Layout

/-- Reopening the restored windows one after the other moves every folder read to the frames,
keeping what reopening one window keeps. -/
theorem reopenAll_of_steps (Inv : Layout → List NodeId → Prop)
    (hreopen : ∀ {l : Layout} {E : List NodeId} {f : NodeId} (b : FloatRect) (p : Bool),
      Inv l E → f ∈ E → l.store.form? f = some .folder →
      Inv (l.reopen f b p) (E.erase f) ∧ ∀ x ∈ E, (l.reopen f b p).store.form? x = l.store.form? x) :
    ∀ (ws : List (NodeId × FloatRect × Bool)) {l : Layout},
      Inv l (ws.map (·.1)) → (∀ x ∈ ws, l.store.form? x.1 = some .folder) →
      Inv (ws.foldl (fun l x => l.reopen x.1 x.2.1 x.2.2) l) []
  | [], _, hl, _ => hl
  | (f, b, p) :: ws, l, hl, hform => by
    rw [List.foldl_cons]
    obtain ⟨hl', hkeep⟩ := hreopen b p hl List.mem_cons_self (hform _ List.mem_cons_self)
    rw [List.map_cons, List.erase_cons_head] at hl'
    exact reopenAll_of_steps Inv hreopen ws hl' fun x hx =>
      (hkeep x.1 (List.mem_cons_of_mem _ (List.mem_map_of_mem hx))).trans
        (hform x (List.mem_cons_of_mem _ hx))

/-- What a restore keeps: a property of the layout being read, with the nodes read and not yet
placed, holds of the restored layout when reading the root split into an empty table gives it,
reading the folder of each window keeps it, reopening a window keeps it, and neither the order
of the nodes held out, the fast views nor the zoom matter to it. -/
theorem restore_of_steps (Inv : Layout → List NodeId → Prop) {host : Host} {m : Memento}
    (hroot : ∀ main c, m.requireChild "main" = .ok main → c ∈ main.children.head? →
      c.kind = "split" → Builder.Reads (Builder.node c) {} fun root b =>
        root = (Layout.empty host).root ∧ Inv (b.inFrames (Layout.empty host)) [])
    (hwindow : ∀ (w : Memento × Bool) (c : Memento) {b : Builder} {E : List NodeId},
      w ∈ (m.childrenOf "detached").map (·, false) ++
        (m.childrenOf "detached-placeholder").map (·, true) →
      savedFolder w.1 = .ok c → Inv (b.inFrames (Layout.empty host)) E →
      Builder.Reads (Builder.node c) b fun folder b' =>
        Inv (b'.inFrames (Layout.empty host)) (folder :: E) ∧ b.store.Keeps b'.store ∧
          b'.store.form? folder = some .folder)
    (hperm : ∀ {l : Layout} {E E' : List NodeId}, Inv l E → E.Perm E' → Inv l E')
    (hfast : ∀ {l : Layout} {E : List NodeId} (fast : List PartId), Inv l E →
      Inv { l with fastViews := fast } E)
    (hreopen : ∀ {l : Layout} {E : List NodeId} {f : NodeId} (b : FloatRect) (p : Bool),
      Inv l E → f ∈ E → l.store.form? f = some .folder →
      Inv (l.reopen f b p) (E.erase f) ∧ ∀ x ∈ E, (l.reopen f b p).store.form? x = l.store.form? x)
    (hzoom : ∀ {l : Layout} (z : Option NodeId), Inv l [] → Inv { l with zoomed := z } [])
    {l : Layout} (h : Layout.restore host m = .ok l) : Inv l [] := by
  rw [Layout.restore, except_bind_eq_ok] at h
  obtain ⟨main, hmain, h⟩ := h
  dsimp only at h
  split at h
  · simp at h
  next rootSaved rest hchildren =>
  rw [except_pure_bind] at h
  split at h
  · simp at h
  next hsplit =>
  rw [except_bind_eq_ok] at h
  obtain ⟨⟨root, b₁⟩, hroot₁, h⟩ := h
  dsimp only at h
  rw [except_bind_eq_ok] at h
  obtain ⟨⟨windows, b₂⟩, hwin, h⟩ := h
  dsimp only at h
  rw [except_bind_eq_ok] at h
  obtain ⟨fast, -, h⟩ := h
  cases h
  -- the root split, read into an empty table
  obtain ⟨rfl, hi₁⟩ := (hroot main rootSaved hmain (by simp [hchildren])
    (by simpa using hsplit)).of_run hroot₁
  -- the windows' folders, each read as a node held out
  have hi₂ := foldlM_inv _
    (fun (a : List (NodeId × FloatRect × Bool) × Builder) =>
      Inv (a.2.inFrames (Layout.empty host)) (a.1.map (·.1)).reverse ∧
        ∀ x ∈ a.1, a.2.store.form? x.1 = some .folder)
    (· ∈ (m.childrenOf "detached").map (·, false) ++
      (m.childrenOf "detached-placeholder").map (·, true))
    (fun ⟨acc, b⟩ w a' hw ⟨hi, hform⟩ hstep => by
      dsimp only at hstep
      rw [except_bind_eq_ok] at hstep
      obtain ⟨bounds, -, hstep⟩ := hstep
      rw [except_bind_eq_ok] at hstep
      obtain ⟨folderSaved, hfolder, hstep⟩ := hstep
      rw [except_bind_eq_ok] at hstep
      obtain ⟨⟨folder, b'⟩, hrun, hstep⟩ := hstep
      cases hstep
      obtain ⟨hi', hkeeps, hfolder'⟩ := (hwindow w folderSaved hw hfolder hi).of_run hrun
      refine ⟨by simpa using hi', fun x hx => ?_⟩
      rcases List.mem_append.mp hx with hx | hx
      · have hfx := hform x hx
        exact (hkeeps.form _ ((Store.contains_iff_form? _ _).mpr (by rw [hfx]; rfl))).trans hfx
      · rw [List.mem_singleton] at hx
        subst hx
        exact hfolder')
    _ _ _ (fun _ hx => hx) ⟨by simpa using hi₁, by simp⟩ hwin
  obtain ⟨hi₂, hform₂⟩ := hi₂
  -- the windows reopen over the table read
  exact hzoom _ (reopenAll_of_steps Inv hreopen windows
    (hfast fast (hperm hi₂ (List.reverse_perm _))) hform₂)

/-- Restoring a document of the saved shape gives a sound layout. -/
theorem restore_sound {host : Host} {m : Memento} {l : Layout} (hm : m.ShapedLayout)
    (h : Layout.restore host m = .ok l) : l.Sound [] := by
  refine restore_of_steps (fun l E => l.Sound E) (fun main c hmain hc hk => ?_)
    (fun w c b E hw hfolder hs => ?_) (fun hs hp => hs.perm hp)
    (fun _ hs => hs.of_frames rfl rfl rfl rfl rfl rfl) (fun b p hs hf hfold => hs.reopen hf hfold b p)
    (fun _ hs => hs.of_frames rfl rfl rfl rfl rfl rfl) h
  · -- the root split has the saved shape with the editor-area mark allowed
    obtain ⟨hmain_mem, hmain_kind⟩ := Memento.requireChild_eq_ok hmain
    have hshape : c.Shaped true := (hm main hmain_mem).1 hmain_kind c hc
    obtain ⟨kind, attrs, cs⟩ := c
    obtain rfl : kind = "split" := hk
    exact Builder.rootReads hshape rfl rfl rfl
  · obtain ⟨hhead, hkind⟩ := savedFolder_eq_ok hfolder
    exact (Builder.nodeReads c (Memento.ShapedLayout.window hm hw c hhead) hs).mono
      fun _ _ hread => ⟨hread.sound, hread.keeps, hread.folder hkind⟩

/-- A layout handed over to a new one keeps the new one's soundness: only the host changes. -/
theorem Sound.handOver {new : Layout} {E : List NodeId} (hs : new.Sound E) (old : Layout) :
    (old.handOver new).Sound E :=
  hs.of_frames rfl rfl rfl rfl rfl rfl

end Layout

end Docking
