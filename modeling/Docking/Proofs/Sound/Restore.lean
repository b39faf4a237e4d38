import Docking.Proofs.Sound.Save
import Docking.Proofs.Sound.Move
import Docking.Layout.Restore
/-!
# Restoring a saved layout gives a sound layout

Reading a document back builds the table node by node: each element's node is new, it stays
without a container until its holder takes it, and only new nodes are ever linked. So the
builder's table, seen in the frames of the layout being built (`Builder.inFrames`), is sound
with the nodes read and not yet placed as extra nodes. The shape of a saved document
(`Memento.Shaped`) is what keeps the rest: a folder takes only panes and placeholders, a
collapsed node folds a container, and the editor-area mark lands on a split with splits
above it. Reopening the windows then moves the folders from the extra nodes to the frames.
-/

namespace Docking

namespace Store

/-- Reading only adds nodes: every node of `s` keeps its container and its form in `s'`. -/
structure Keeps (s s' : Store) : Prop where
  parent : ∀ x, s.contains x = true → s'.parent? x = s.parent? x
  form : ∀ x, s.contains x = true → s'.form? x = s.form? x

variable {s s₁ s' : Store}

theorem Keeps.contains (h : s.Keeps s') {x : NodeId} (hx : s.contains x = true) :
    s'.contains x = true := by
  rw [contains_iff_form?, h.form x hx, ← contains_iff_form?]
  exact hx

theorem Keeps.refl (s : Store) : s.Keeps s := ⟨fun _ _ => rfl, fun _ _ => rfl⟩

theorem Keeps.trans (h₁ : s.Keeps s₁) (h₂ : s₁.Keeps s') : s.Keeps s' :=
  ⟨fun x hx => (h₂.parent x (h₁.contains hx)).trans (h₁.parent x hx),
    fun x hx => (h₂.form x (h₁.contains hx)).trans (h₁.form x hx)⟩

theorem Keeps.contains_nextId (h : s.Keeps s₁) : s.contains s₁.nextId = false :=
  Bool.eq_false_iff.mpr fun hc => ne_nextId_of_contains (h.contains hc) rfl

theorem Keeps.of_sameShape (h : SameShape s s') : s.Keeps s' :=
  ⟨fun x _ => (h x).1, fun x _ => (h x).2.2⟩

theorem keeps_alloc (s : Store) (ident : String) (kind : NodeKind) : s.Keeps (s.alloc ident kind).2 :=
  ⟨fun x hx => by rw [parent?_alloc, if_neg (ne_nextId_of_contains hx)],
    fun x hx => form?_alloc_of_contains hx _ _⟩

theorem ne_of_contains_false {c x : NodeId} (hc : s.contains c = false)
    (hx : s.contains x = true) : c ≠ x := by
  rintro rfl
  rw [hc] at hx
  cases hx

theorem Keeps.link (h : s.Keeps s₁) {c : NodeId} (hc : s.contains c = false)
    (hpar : ∀ x, x ≠ c → s'.parent? x = s₁.parent? x)
    (hform : ∀ x, s₁.contains x = true → s'.form? x = s₁.form? x) : s.Keeps s' := by
  have hne : ∀ {x}, s.contains x = true → x ≠ c := fun hx => (ne_of_contains_false hc hx).symm
  exact ⟨fun x hx => (hpar x (hne hx)).trans (h.parent x hx),
    fun x hx => (hform x (h.contains hx)).trans (h.form x hx)⟩

/-- Putting a node that was not there into a container keeps what was there. -/
theorem Keeps.pushChild (h : s.Keeps s₁) {p c : NodeId} (hc : s.contains c = false)
    (h₂ : s₁.pushChild p c = .ok s') : s.Keeps s' :=
  h.link hc (fun x hx => by rw [parent?_pushChild h₂, if_neg hx]) fun x _ => form?_pushChild h₂ x

theorem Keeps.insertChild (h : s.Keeps s₁) {p c : NodeId} {i : Nat} {w : Float32}
    (hc : s.contains c = false) (h₂ : s₁.insertChild p i c w = .ok s') : s.Keeps s' :=
  h.link hc (fun x hx => by rw [parent?_insertChild h₂, if_neg hx])
    fun x _ => form?_insertChild h₂ x

theorem Keeps.adopt (h : s.Keeps s₁) {ident : String} {inner : NodeId}
    (hc : s.contains inner = false) (hinc : s₁.contains inner = true)
    (h₂ : (s₁.alloc ident (.collapsed inner)).2.setParent inner (some s₁.nextId) = .ok s') :
    s.Keeps s' :=
  h.link hc (fun x hx => by rw [parent?_adopt hinc h₂, if_neg hx])
    fun x hx => by rw [form?_adopt h₂, if_neg (ne_nextId_of_contains hx)]

theorem Keeps.above (h : s.Keeps s') (hf : s.Forest) {a n : NodeId} (hn : s.contains n = true)
    (ha : Above s.parent? a n) : Above s'.parent? a n := by
  induction ha with
  | parent hp => exact .parent ((h.parent _ hn).trans hp)
  | up hp _ ih => exact .up ((h.parent _ hn).trans hp) (ih (hf.contains_of_parent hp))

theorem Keeps.under (h : s.Keeps s') (hf : s.Forest) {a n : NodeId} (hn : s.contains n = true)
    (ha : Under s.parent? a n) : Under s'.parent? a n := by
  rcases ha with rfl | ha
  · exact .inl rfl
  · exact .inr (h.above hf hn ha)

theorem Keeps.above_old (h : s.Keeps s') (hf : s.Forest) {a n : NodeId} (hn : s.contains n = true)
    (ha : Above s'.parent? a n) : Above s.parent? a n := by
  induction ha with
  | parent hp => exact .parent ((h.parent _ hn).symm.trans hp)
  | up hp _ ih =>
    have hp' := (h.parent _ hn).symm.trans hp
    exact .up hp' (ih (hf.contains_of_parent hp'))

end Store

theorem Above.of_link {par par' : NodeId → Option NodeId} {c : NodeId}
    (hpar : ∀ x, x ≠ c → par' x = par x) (hc : par c = none) {a n : NodeId}
    (ha : Above par a n) : Above par' a n := by
  have hne : ∀ {x m}, par x = some m → x ≠ c := fun hx he => by
    rw [he, hc] at hx
    cases hx
  induction ha with
  | parent hp => exact .parent ((hpar _ (hne hp)).trans hp)
  | up hp _ ih => exact .up ((hpar _ (hne hp)).trans hp) ih

theorem Under.of_link {par par' : NodeId → Option NodeId} {c : NodeId}
    (hpar : ∀ x, x ≠ c → par' x = par x) (hc : par c = none) {a n : NodeId}
    (ha : Under par a n) : Under par' a n := by
  rcases ha with rfl | ha
  · exact .inl rfl
  · exact .inr (Above.of_link hpar hc ha)

namespace Layout

variable {l : Layout} {E : List NodeId} {s' : Store}

/-- A new collapsed node folding an extra container takes its place among the extra nodes. -/
theorem Sound.adopt (hs : l.Sound E) {ident : String} {inner : NodeId} (hi : inner ∈ E)
    (hic : l.store.IsContainer inner)
    (harea : ∀ a, l.editorArea = some a → ¬ Under l.store.parent? inner a)
    (h : (l.store.alloc ident (.collapsed inner)).2.setParent inner (some l.store.nextId) = .ok s') :
    ({ l with store := s' } : Layout).Sound (l.store.nextId :: E.erase inner) := by
  have hf := hs.forest
  obtain ⟨-, htop⟩ := hs.top_of_mem (hs.extra_mem hi)
  have hinc := hic.contains
  have hpar := Store.parent?_adopt hinc h
  have hform := Store.form?_adopt h
  have hheld := Store.held_adopt h
  have hkept : ∀ {x}, l.store.contains x = true → s'.form? x = l.store.form? x := fun hx => by
    rw [hform, if_neg (Store.ne_nextId_of_contains hx)]
  have hfresh : l.store.nextId ∉ l.tops ++ E := fun hm =>
    Store.ne_nextId_of_contains (hs.top_of_mem hm).1 rfl
  have hheldc : ∀ {x y}, y ∈ l.store.held x → l.store.contains y = true := fun hy =>
    Store.contains_of_parent? (hf.held_parent hy)
  refine ⟨hf.adopt hinc htop h, fun n => ?_, ?_, hs.ids_nodup, hs.ids_lt, ?_, fun f hfr => ?_,
    fun x y hx hy => ?_, fun x y hx hy => ?_, fun a ha => ?_,
    (hs.aligned.alloc ident rfl).setParent h⟩
  · rw [tops_withStore, Store.contains_adopt h, hpar]
    by_cases hn : n = inner
    · -- `inner` now has the new node as its container
      subst hn
      simp only [if_true, reduceCtorEq, and_false, iff_false, List.mem_append, List.mem_cons,
        not_or]
      refine ⟨fun ht => (List.nodup_append.mp hs.tops_nodup).2.2 n ht n hi rfl,
        Store.ne_nextId_of_contains hinc, fun he => (hs.extra_nodup.mem_erase_iff.mp he).1 rfl⟩
    · by_cases hnn : n = l.store.nextId
      · subst hnn
        simp [hn, Store.parent?_nextId]
      · simp only [List.mem_append, List.mem_cons, hnn, false_or, List.mem_erase_of_ne hn,
          if_neg hn]
        rw [← List.mem_append]
        exact hs.tops_iff n
  · exact List.nodup_middle.mpr (List.nodup_cons.mpr ⟨fun hm =>
      hfresh ((List.Sublist.append_left List.erase_sublist _).subset hm), hs.nodup_erase inner⟩)
  · rw [hkept (hs.top_of_mem hs.root_mem).1]
    exact hs.root_split
  · rw [hkept (hs.top_of_mem (List.mem_append_left _ (List.mem_cons_of_mem _ hfr))).1]
    exact hs.frames_folders f hfr
  · rw [hheld] at hy
    by_cases hxn : x = l.store.nextId
    · rw [if_pos hxn, List.mem_singleton] at hy
      subst hy
      exact (Store.IsContainer.congr (hkept hinc)).mpr hic
    · rw [if_neg hxn] at hy
      rw [hform, if_neg hxn] at hx
      exact (Store.IsContainer.congr (hkept (hheldc hy))).mpr (hs.fold_held x y hx hy)
  · have hxn : x ≠ l.store.nextId := by
      rintro rfl
      rw [hform, if_pos rfl] at hx
      cases hx
    rw [hheld, if_neg hxn] at hy
    rw [hform, if_neg hxn] at hx
    exact (Store.IsLeaf.congr (hkept (hheldc hy))).mpr (hs.tabs_leaves x y hx hy)
  · obtain ⟨ha₁, ha₂⟩ := hs.area a ha
    have hac : l.store.contains a = true := (Store.contains_iff_form? _ _).mpr (by simp [ha₁])
    refine ⟨(hkept hac).trans ha₁, fun x hx => ?_⟩
    -- the one new link is `inner`'s, and the editor area is not below `inner`
    rcases above_of_link (fun y hy => by rw [hpar, if_neg hy]) (by rw [hpar, if_pos rfl]) hx with
      hx | ⟨hu, -⟩
    · obtain ⟨c, hc⟩ := hx.exists_child
      exact (hkept (hf.contains_of_parent hc)).trans (ha₂ x hx)
    · exact absurd hu (harea a ha)

theorem Sound.setArea (hs : l.Sound E) {x : NodeId} (hx : l.store.form? x = some .split)
    (htop : l.store.parent? x = none) : ({ l with editorArea := some x } : Layout).Sound E :=
  { hs with
    area := fun a ha => by
      cases ha
      exact ⟨hx, fun y hy => absurd htop (by
        obtain ⟨m, hm⟩ := hy.exists_parent
        rw [hm]
        nofun)⟩ }

theorem Sound.perm (hs : l.Sound E) {E' : List NodeId} (h : E.Perm E') : l.Sound E' :=
  hs.of_frames_perm rfl rfl rfl (List.Perm.append_left _ h.symm) hs.frames_folders hs.ids_nodup
    hs.ids_lt

theorem Sound.parkFolder (hs : l.Sound E) {f : NodeId} (hf : f ∈ E)
    (hfold : l.store.form? f = some .folder) (bounds : FloatRect) :
    ({ l with parked := l.parked ++ [⟨bounds, f⟩] } : Layout).Sound (E.erase f) := by
  refine hs.of_frames_perm rfl rfl rfl (frames_parkFolder_perm E hf bounds) (fun g hg => ?_)
    hs.ids_nodup hs.ids_lt
  rcases mem_frames_parkFolder hg with hg | rfl
  · exact hs.frames_folders g hg
  · exact hfold

/-- A new placeholder takes a pane's slot and the pane is freed: the layout stays sound, and
every other node keeps its form. -/
theorem Sound.parkPane (hs : l.Sound E) {n p : NodeId} {pp : Pane}
    (hpar : l.store.parent? n = some p) (hn : l.store.form? n = some (.pane pp)) {part : PartId}
    {s₂ : Store}
    (h₂ : (l.store.alloc part (.placeholder part)).2.replaceChild p n l.store.nextId = .ok s₂) :
    ({ l with store := s₂.free n } : Layout).Sound E ∧
      ∀ x, l.store.contains x = true → x ≠ n → (s₂.free n).form? x = l.store.form? x := by
  have hf := hs.forest
  have hnleaf : l.store.IsLeaf n := ⟨_, hn, rfl⟩
  have hpc : l.store.contains p = true := hf.contains_of_parent hpar
  -- a collapsed node folds a container, never a pane
  have hpform : l.store.form? p ≠ some .collapsed := fun hpc' =>
    hnleaf.not_isContainer (hs.fold_held p n hpc' (hf.mem_held_iff.mpr hpar))
  have hform₁ : ∀ {x}, l.store.contains x = true →
      (l.store.alloc part (.placeholder part)).2.form? x = l.store.form? x :=
    fun hx => Store.form?_alloc_of_contains hx _ _
  have hs₁ : ({ l with store := (l.store.alloc part (.placeholder part)).2 } : Layout).Sound
      (l.store.nextId :: E) := hs.alloc _ _ rfl rfl
  -- the placeholder is a new leaf: it takes the slot without making a cycle
  have hs₂ := hs₁.replaceChild h₂ List.mem_cons_self (hf.not_under_alloc hpc)
    (fun _ => ⟨_, by rw [Store.form?_alloc, if_pos rfl], rfl⟩)
    (fun hcol => absurd ((hform₁ hpc).symm.trans hcol) hpform)
    (fun a ha hu => absurd hu (hf.not_under_alloc
      (Store.IsContainer.contains (.inr (hs.area a ha).1))))
  rw [List.erase_cons_head] at hs₂
  have hnform₂ : s₂.form? n = some (.pane pp) := by
    rw [Store.form?_replaceChild h₂, hform₁ hnleaf.contains, hn]
  have hs₃ := hs₂.free List.mem_cons_self (hs₂.not_under_area (by rw [hnform₂]; nofun))
  rw [List.erase_cons_head] at hs₃
  refine ⟨hs₃, fun x hx hxn => ?_⟩
  have hleaf₂ : s₂.IsLeaf n := ⟨_, hnform₂, rfl⟩
  rw [hs₂.forest.form?_free, if_neg (by rw [hs₂.forest.under_leaf_iff hleaf₂]; exact Ne.symm hxn),
    Store.form?_replaceChild h₂, hform₁ hx]

/-- Turning the panes of a folder into placeholders keeps what each of its steps keeps: an
invariant that a pane's slot taken by a new placeholder, the pane freed, keeps, and that the
placeholder dropped again, when the slot is not there, keeps. The nodes without a container
that `keep` lists keep their forms. -/
theorem parkPanes_of_steps (P : Layout → Prop) (keep : List NodeId)
    (hforest : ∀ {l}, P l → l.store.Forest)
    (htop : ∀ {l}, P l → ∀ x ∈ keep, l.store.contains x = true ∧ l.store.parent? x = none)
    (hpane : ∀ {l c f s₂} {pp : Pane}, P l → l.store.parent? c = some f →
      l.store.form? c = some (.pane pp) →
      (l.store.alloc pp.part (.placeholder pp.part)).2.replaceChild f c l.store.nextId = .ok s₂ →
      P { l with store := s₂.free c } ∧
        ∀ x, l.store.contains x = true → x ≠ c → (s₂.free c).form? x = l.store.form? x)
    (hdrop : ∀ {l} (part : PartId), P l →
      P { l with store := (l.store.alloc part (.placeholder part)).2.discard l.store.nextId })
    {l : Layout} (hl : P l) (f : NodeId) :
    ∃ s', l.parkPanes f = { l with store := s' } ∧ P { l with store := s' } ∧
      ∀ x ∈ keep, s'.form? x = l.store.form? x := by
  unfold Layout.parkPanes
  generalize l.store.children f = cs
  induction cs generalizing l with
  | nil => exact ⟨l.store, rfl, hl, fun _ _ => rfl⟩
  | cons c rest ih =>
    rw [List.foldl_cons]
    split
    · exact ih hl
    · next pp hp =>
      obtain ⟨n, hn, hk⟩ := Option.bind_eq_some_iff.mp hp
      have hnform : l.store.form? c = some (.pane pp) := by
        rw [Store.form?_of_get? hn]
        cases hkind : n.kind <;> simp_all [NodeKind.pane?, NodeKind.form]
      split
      next holder s₁ hal =>
      obtain ⟨rfl, rfl⟩ := Prod.mk.inj hal.symm
      split
      · next s₂ h₂ =>
        change (l.store.alloc pp.part (.placeholder pp.part)).2.replaceChild f c l.store.nextId =
          .ok s₂ at h₂
        -- the pane was a tab of the folder, now a placeholder is
        have hpar : l.store.parent? c = some f := by
          have hm := Store.replaceChild_mem h₂
          rw [Store.held_alloc] at hm
          split at hm
          · cases hm
          · exact (hforest hl).held_parent hm
        obtain ⟨hl₃, hform₃⟩ := hpane hl hpar hnform h₂
        obtain ⟨s', h', hl', hform'⟩ := ih hl₃
        refine ⟨s', h', hl', fun x hx => (hform' x hx).trans (hform₃ x (htop hl x hx).1 ?_)⟩
        rintro rfl
        rw [(htop hl x hx).2] at hpar
        cases hpar
      · -- the slot was not there: the placeholder goes again
        obtain ⟨s', h', hl', hform'⟩ := ih (hdrop pp.part hl)
        refine ⟨s', h', hl', fun x hx => (hform' x hx).trans ?_⟩
        rw [Store.form?_discard, if_neg (Ne.symm (Store.ne_nextId_of_contains (htop hl x hx).1)),
          Store.form?_alloc_of_contains (htop hl x hx).1]

/-- Turning the panes of an extra folder into placeholders keeps a layout sound and the forms
of the nodes without a container. -/
theorem Sound.parkPanes (hs : l.Sound E) (f : NodeId) :
    ∃ s', l.parkPanes f = { l with store := s' } ∧ ({ l with store := s' } : Layout).Sound E ∧
      ∀ x ∈ l.tops ++ E, s'.form? x = l.store.form? x :=
  parkPanes_of_steps (fun l' => ({ l with store := l'.store } : Layout).Sound E) (l.tops ++ E)
    (fun h => h.forest) (fun h x hx => h.top_of_mem hx) (fun h hpar hn h₂ => h.parkPane hpar hn h₂)
    (fun part h => by
      have h₂ := (h.alloc part (.placeholder part) rfl rfl).discard List.mem_cons_self
        (by rw [Store.held_alloc, if_pos rfl]; rfl)
        (fun ha => Store.ne_nextId_of_contains
          (Store.IsContainer.contains (.inr (h.area _ ha).1)) rfl)
      rwa [List.erase_cons_head] at h₂)
    hs f

theorem Sound.parkRestored (hs : l.Sound E) {f : NodeId} (hf : f ∈ E)
    (hfold : l.store.form? f = some .folder) (bounds : FloatRect) :
    ({ l.parkPanes f with parked := (l.parkPanes f).parked ++ [⟨bounds, f⟩] } : Layout).Sound
        (E.erase f) ∧
      ∀ x ∈ l.tops ++ E, (l.parkPanes f).store.form? x = l.store.form? x := by
  obtain ⟨s', h', hs', hform'⟩ := hs.parkPanes f
  rw [h']
  exact ⟨hs'.parkFolder hf ((hform' f (List.mem_append_right _ hf)).trans hfold) bounds, hform'⟩

/-- Reopening a restored window keeps what opening a window and parking one keep: the host
opens it, leaving the table as it was, or it is parked with its panes turned into placeholders;
either way the folder leaves the nodes `Inv` holds out. -/
theorem reopen_of_steps (Inv : Layout → List NodeId → Prop) {f : NodeId}
    (hopen : ∀ b, LayoutM.Ends (LayoutM.openWindow f b) l (fun r l' => l'.store = l.store ∧
      Inv l' (if r.isSome then E.erase f else E)) fun _ _ => False)
    (hpark : ∀ {l' : Layout} b, l'.store = l.store → Inv l' E →
      Inv { l'.parkPanes f with parked := (l'.parkPanes f).parked ++ [⟨b, f⟩] } (E.erase f) ∧
        ∀ x ∈ E, (l'.parkPanes f).store.form? x = l'.store.form? x)
    (bounds : FloatRect) (parked : Bool) (hl : Inv l E) :
    Inv (l.reopen f bounds parked) (E.erase f) ∧
      ∀ x ∈ E, (l.reopen f bounds parked).store.form? x = l.store.form? x := by
  unfold Layout.reopen
  cases parked
  · simp only [Bool.false_eq_true, if_false]
    have ho := hopen bounds
    unfold LayoutM.Ends at ho
    cases hrun : EStateM.run (LayoutM.openWindow f bounds) l with
    | ok w l' =>
      rw [show LayoutM.openWindow f bounds l = _ from hrun] at ho
      obtain ⟨hstore, hl'⟩ := ho
      dsimp only
      by_cases hw : w.isSome = true
      · rw [if_pos hw] at hl' ⊢
        exact ⟨hl', fun x _ => by rw [hstore]⟩
      · -- the host refused a surface: the window is parked
        rw [if_neg hw] at hl' ⊢
        obtain ⟨hl'', hform⟩ := hpark bounds hstore hl'
        exact ⟨hl'', fun x hx => (hform x hx).trans (by rw [hstore])⟩
    | error e l' =>
      rw [show LayoutM.openWindow f bounds l = _ from hrun] at ho
      exact ho.elim
  · exact hpark bounds rfl hl

/-- Reopening a restored window: the host opens it, or it is parked with its panes turned
into placeholders; either way its folder leaves the extra nodes, and the forms of the nodes
without a container stay. -/
theorem Sound.reopen (hs : l.Sound E) {f : NodeId} (hf : f ∈ E)
    (hfold : l.store.form? f = some .folder) (bounds : FloatRect) (parked : Bool) :
    (l.reopen f bounds parked).Sound (E.erase f) ∧
      ∀ x ∈ E, (l.reopen f bounds parked).store.form? x = l.store.form? x :=
  reopen_of_steps (fun l' E' => l'.Sound E')
    (fun b => (LayoutM.ends_openWindow hs hf hfold b).mono (fun _ _ h => ⟨h.1, h.2.2.2⟩)
      fun _ _ h => h)
    (fun b hstore hl' => ⟨(hl'.parkRestored hf (hstore ▸ hfold) b).1,
      fun x hx => (hl'.parkRestored hf (hstore ▸ hfold) b).2 x (List.mem_append_right _ hx)⟩)
    bounds parked hs

end Layout

theorem Memento.isArea_iff_bool? (m : Memento) :
    (m.bool? "editor-area" == some true) = true ↔ m.IsArea := by
  unfold Memento.IsArea Memento.bool?
  cases m.get? "editor-area" with
  | none => simp
  | some v => cases v <;> simp

namespace Builder

/-- A read from `b` that succeeds ends in a state `ok` accepts; a read that fails fails the
whole restore, so nothing is asked of it. -/
def Reads {α : Type} (x : BuildM α) (b : Builder) (ok : α → Builder → Prop) : Prop :=
  match x.run b with
  | .ok (a, b') => ok a b'
  | .error _ => True

section Rules

variable {α β : Type} {b : Builder} {ok : β → Builder → Prop}

theorem Reads.mono {x : BuildM α} {ok ok' : α → Builder → Prop} (h : Reads x b ok)
    (hok : ∀ a b', ok a b' → ok' a b') : Reads x b ok' := by
  unfold Reads at *
  cases hx : x.run b with
  | ok p =>
    rw [hx] at h
    exact hok p.1 p.2 h
  | error e => trivial

theorem reads_pure (a : β) : Reads (pure a : BuildM β) b ok ↔ ok a b := Iff.rfl

theorem reads_bind (x : BuildM α) (f : α → BuildM β) :
    Reads (x >>= f) b ok ↔ Reads x b (fun a b' => Reads (f a) b' ok) := by
  unfold Reads
  rw [StateT.run_bind]
  cases x.run b <;> rfl

theorem reads_get {ok : Builder → Builder → Prop} : Reads (get : BuildM Builder) b ok ↔ ok b b :=
  Iff.rfl

theorem reads_set (b' : Builder) {ok : Unit → Builder → Prop} :
    Reads (set b' : BuildM Unit) b ok ↔ ok () b' := Iff.rfl

theorem reads_modify (f : Builder → Builder) {ok : Unit → Builder → Prop} :
    Reads (modify f : BuildM Unit) b ok ↔ ok () (f b) := Iff.rfl

theorem reads_read (x : Except RestoreError β) : Reads (read x) b ok ↔ ∀ a, x = .ok a → ok a b := by
  cases x with
  | ok a => exact ⟨fun h a' ha => by cases ha; exact h, fun h => h a rfl⟩
  | error e => exact ⟨fun _ _ ha => (by cases ha), fun _ => trivial⟩

theorem reads_fail (e : RestoreError) : Reads (fail e : BuildM β) b ok := trivial

theorem reads_alloc (ident : String) (kind : NodeKind) {ok : NodeId → Builder → Prop} :
    Reads (alloc ident kind) b ok ↔
      ok b.store.nextId { b with store := (b.store.alloc ident kind).2 } := Iff.rfl

theorem reads_edit (m : Memento) (f : Store → Except LayoutError Store) {ok : Unit → Builder → Prop} :
    Reads (edit m f) b ok ↔ ∀ s, f b.store = .ok s → ok () { b with store := s } := by
  simp only [Reads, edit, StateT.run]
  cases f b.store with
  | ok s => exact ⟨fun h s' hs => by cases hs; exact h, fun h => h s rfl⟩
  | error e => exact ⟨fun _ _ hs => (by cases hs), fun _ => trivial⟩

end Rules

/-- The layout of the frames of `T` over the table and the editor area read so far. -/
def inFrames (b : Builder) (T : Layout) : Layout :=
  { T with store := b.store, editorArea := b.editorArea }

@[simp] theorem store_inFrames (b : Builder) (T : Layout) : (b.inFrames T).store = b.store := rfl

@[simp] theorem editorArea_inFrames (b : Builder) (T : Layout) : (b.inFrames T).editorArea = b.editorArea :=
  rfl

section Reading

variable (T : Layout) (E : List NodeId)

/-- What reading the element `m` from `b` leaves when it gives the node `id` and the builder
`b'`: the node joins the extra nodes of a sound layout; it is new, and only new nodes were
linked; its form follows the element's type; and the editor area stayed where it was, or
moved into the node's tree where the element allows the mark. -/
structure Read (m : Memento) (area : Bool) (b : Builder) (id : NodeId) (b' : Builder) : Prop where
  sound : (b'.inFrames T).Sound (id :: E)
  fresh : b.store.contains id = false
  keeps : b.store.Keeps b'.store
  leaf : m.IsLeafElement → b'.store.IsLeaf id
  container : m.IsContainerElement → b'.store.IsContainer id
  folder : m.kind = "folder" → b'.store.form? id = some .folder
  area : b'.editorArea = b.editorArea ∨
    area = true ∧ ∃ a, b'.editorArea = some a ∧ Under b'.store.parent? id a

variable {T E} {m : Memento} {area : Bool} {b b₁ : Builder} {id : NodeId}

theorem Read.top (h : Read T E m area b id b₁) : b₁.store.parent? id = none :=
  (h.sound.top_of_mem (List.mem_append_right _ List.mem_cons_self)).2

theorem Read.not_under_old (h : Read T E m area b id b₁) (hf : b.store.Forest) {a : NodeId}
    (ha : b.store.contains a = true) : ¬ Under b₁.store.parent? id a := by
  have hfresh := h.fresh
  rintro (rfl | hu)
  · rw [ha] at hfresh
    cases hfresh
  · obtain ⟨c, hc⟩ := (h.keeps.above_old hf ha hu).exists_child
    rw [hf.contains_of_parent hc] at hfresh
    cases hfresh

theorem Read.sameShape (h : Read T E m area b id b₁) {s : Store} (hs : Store.SameShape b₁.store s)
    (hal : s.Aligned) : Read T E m area b id { b₁ with store := s } := by
  have hpar : s.parent? = b₁.store.parent? := funext fun x => (hs x).1
  refine ⟨h.sound.sameShape hs hal, h.fresh, h.keeps.trans (.of_sameShape hs),
    fun hl => (Store.IsLeaf.congr ((hs id).2.2)).mpr (h.leaf hl),
    fun hc => (Store.IsContainer.congr ((hs id).2.2)).mpr (h.container hc),
    fun hf => ((hs id).2.2).trans (h.folder hf), ?_⟩
  simp only [hpar]
  exact h.area

/-- A new node that holds nothing, of a form that fits the element's type. -/
theorem read_alloc (hs : (b.inFrames T).Sound E) (ident : String) (kind : NodeKind)
    (hk : Store.walkChildren true kind = []) (hka : kind.aligned = true)
    (hleaf : m.IsLeafElement → kind.form.isLeaf = true)
    (hcont : m.IsContainerElement → kind.form = .folder ∨ kind.form = .split)
    (hfold : m.kind = "folder" → kind.form = .folder) :
    Read T E m area b b.store.nextId { b with store := (b.store.alloc ident kind).2 } := by
  have hform : (b.store.alloc ident kind).2.form? b.store.nextId = some kind.form := by
    rw [Store.form?_alloc, if_pos rfl]
  refine ⟨hs.alloc _ _ hk hka, Store.contains_nextId _,
    Store.keeps_alloc _ _ _, fun hl => ⟨_, hform, hleaf hl⟩, fun hc => ?_,
    fun hf => by rw [hform, hfold hf], .inl rfl⟩
  rcases hcont hc with h | h
  · exact .inl (by rw [hform, h])
  · exact .inr (by rw [hform, h])

/-- What the end of every element's reading does: it sets the node's bounds, and marks the
node as the editor area, or as the zoomed node, when the element says so. -/
theorem reads_finish_eq (b₁ : Builder) :
    Reads (do
      let r ← read (savedRect m)
      modify fun b => { b with store := b.store.setBounds id r }
      if m.bool? "editor-area" == some true then modify fun b => { b with editorArea := some id }
      if m.bool? "zoomed" == some true then modify fun b => { b with zoomed := some id }
      pure id : BuildM NodeId) b₁ fun id' b' => id' = id ∧
        (∃ r, b'.store = b₁.store.setBounds id r) ∧
        (b'.editorArea = b₁.editorArea ∨ m.IsArea ∧ b'.editorArea = some id) := by
  rw [reads_bind, reads_read]
  intro r _
  rw [reads_bind, reads_modify]
  extract_lets stop finish
  -- the zoom mark is no part of the layout being read
  have hzoom : ∀ b₃ : Builder, b₃.store = b₁.store.setBounds id r →
      (b₃.editorArea = b₁.editorArea ∨ m.IsArea ∧ b₃.editorArea = some id) →
      Reads (finish ()) b₃ fun id' b' => id' = id ∧ (∃ r, b'.store = b₁.store.setBounds id r) ∧
        (b'.editorArea = b₁.editorArea ∨ m.IsArea ∧ b'.editorArea = some id) := by
    intro b₃ h₁ h₂
    dsimp only [finish, stop]
    split
    · rw [reads_bind, reads_modify, reads_pure]
      exact ⟨rfl, ⟨r, h₁⟩, h₂⟩
    · exact ⟨rfl, ⟨r, h₁⟩, h₂⟩
  split
  · next ha =>
    rw [reads_bind, reads_modify]
    exact hzoom _ rfl (.inr ⟨(Memento.isArea_iff_bool? m).mp ha, rfl⟩)
  · exact hzoom _ rfl (.inl rfl)

/-- The end of every element's reading: its bounds, then its marks. The editor-area mark
makes the node the editor area, which it may be as a split without a container. -/
theorem reads_finish_sound {E' : List NodeId} (hs : (b₁.inFrames T).Sound E')
    (htop : b₁.store.parent? id = none) (hmark : m.IsArea → b₁.store.form? id = some .split) :
    Reads (do
      let r ← read (savedRect m)
      modify fun b => { b with store := b.store.setBounds id r }
      if m.bool? "editor-area" == some true then modify fun b => { b with editorArea := some id }
      if m.bool? "zoomed" == some true then modify fun b => { b with zoomed := some id }
      pure id : BuildM NodeId) b₁ fun id' b' => id' = id ∧ (b'.inFrames T).Sound E' ∧
        Store.SameShape b₁.store b'.store ∧
        (b'.editorArea = b₁.editorArea ∨ m.IsArea ∧ b'.editorArea = some id) := by
  refine (reads_finish_eq b₁).mono fun id' b' ⟨hid, ⟨r, hst⟩, hea⟩ => ⟨hid, ?_, ?_, hea⟩
  · have hss := Store.sameShape_setBounds b₁.store id r
    have hs₂ : ({ b₁ with store := b₁.store.setBounds id r }.inFrames T).Sound E' :=
      hs.sameShape hss (hs.aligned.setBounds id r)
    rcases hea with hea | ⟨ha, hea⟩
    · have hl : b'.inFrames T = { b₁ with store := b₁.store.setBounds id r }.inFrames T := by
        unfold inFrames
        rw [hst, hea]
      rw [hl]
      exact hs₂
    · -- the editor-area mark makes the node the editor area
      have hl : b'.inFrames T =
          { { b₁ with store := b₁.store.setBounds id r }.inFrames T with editorArea := some id } := by
        unfold inFrames
        rw [hst, hea]
      rw [hl]
      exact hs₂.setArea ((hss id).2.2.trans (hmark ha)) ((hss id).1.trans htop)
  · rw [hst]
    exact Store.sameShape_setBounds b₁.store id r

/-- The end of an element's reading keeps what the reading of its node left; the mark is
allowed where the element stands. -/
theorem reads_finish (h : Read T E m area b id b₁)
    (hmark : m.IsArea → b₁.store.form? id = some .split ∧ area = true) :
    Reads (do
      let r ← read (savedRect m)
      modify fun b => { b with store := b.store.setBounds id r }
      if m.bool? "editor-area" == some true then modify fun b => { b with editorArea := some id }
      if m.bool? "zoomed" == some true then modify fun b => { b with zoomed := some id }
      pure id : BuildM NodeId) b₁ (Read T E m area b) := by
  refine (reads_finish_sound h.sound h.top fun ha => (hmark ha).1).mono
    fun _ b' ⟨hid, hs', hss, hea⟩ => ?_
  subst hid
  have hpar : b'.store.parent? = b₁.store.parent? := funext fun x => (hss x).1
  refine ⟨hs', h.fresh, h.keeps.trans (.of_sameShape hss),
    fun hl => (Store.IsLeaf.congr (hss _).2.2).mpr (h.leaf hl),
    fun hc => (Store.IsContainer.congr (hss _).2.2).mpr (h.container hc),
    fun hf => (hss _).2.2.trans (h.folder hf), ?_⟩
  rcases hea with hea | ⟨ha, hea⟩
  · rw [hea, hpar]
    exact h.area
  · exact .inr ⟨(hmark ha).2, _, hea, .inl rfl⟩

/-! ### The four readers, one lemma per case of their recursion -/

/-- Reading an element of the saved shape. -/
def NodeReads (T : Layout) (m : Memento) : Prop :=
  ∀ {b : Builder} {E : List NodeId} {area : Bool}, m.Shaped area → (b.inFrames T).Sound E →
    Reads (node m) b (Read T E m area b)

/-- Reading the children of a split `split` without a container into its slots. -/
def SlotsRead (T : Layout) (m : Memento) (split : NodeId) (cs : List Memento) : Prop :=
  ∀ {b : Builder} {E : List NodeId} {area : Bool}, (∀ c ∈ cs, c.Shaped area) →
    (b.inFrames T).Sound E → split ∈ (b.inFrames T).tops ++ E → b.store.form? split = some .split →
    Reads (slots m split cs) b fun _ b' => (b'.inFrames T).Sound E ∧ b.store.Keeps b'.store ∧
      (b'.editorArea = b.editorArea ∨
        area = true ∧ ∃ a, b'.editorArea = some a ∧ Under b'.store.parent? split a)

/-- Reading the tabs of a folder `folder` without a container. -/
def TabsRead (T : Layout) (m : Memento) (folder : NodeId) (cs : List Memento) : Prop :=
  ∀ {b : Builder} {E : List NodeId}, (∀ c ∈ cs, c.IsLeafElement ∧ ¬ c.IsArea) →
    (b.inFrames T).Sound E → folder ∈ (b.inFrames T).tops ++ E → b.store.form? folder = some .folder →
    Reads (tabs m folder cs) b fun _ b' => (b'.inFrames T).Sound E ∧ b.store.Keeps b'.store ∧
      b'.editorArea = b.editorArea

/-- Reading the node a collapsed element folds. -/
def FirstRead (T : Layout) (m : Memento) (cs : List Memento) : Prop :=
  ∀ {b : Builder} {E : List NodeId}, (∀ c ∈ cs.head?, c.IsContainerElement) →
    (∀ c ∈ cs.head?, c.Shaped false) → (b.inFrames T).Sound E →
    Reads (first m cs) b fun inner b' => ∃ c ∈ cs.head?, Read T E c false b inner b'

theorem slotsRead_nil (m : Memento) (split : NodeId) : SlotsRead T m split [] :=
  fun _ hs _ _ => ⟨hs, .refl _, .inl rfl⟩

theorem tabsRead_nil (m : Memento) (folder : NodeId) : TabsRead T m folder [] :=
  fun _ hs _ _ => ⟨hs, .refl _, rfl⟩

theorem firstRead_nil (m : Memento) : FirstRead T m [] :=
  fun _ _ _ => reads_fail _

theorem firstRead_cons {m c : Memento} {rest : List Memento} (hc : NodeReads T c) :
    FirstRead T m (c :: rest) := fun _ hshape hs =>
  (hc (hshape c rfl) hs).mono fun _ _ h => ⟨c, rfl, h⟩

/-- A tab is read, then pushed into the folder: it is a leaf, so the editor area, a split,
is not below it. -/
theorem tabsRead_cons {m c : Memento} {rest : List Memento} {folder : NodeId}
    (hc : NodeReads T c) (hrest : TabsRead T m folder rest) : TabsRead T m folder (c :: rest) := by
  intro b E hcs hs hf hform
  obtain ⟨hcl, hca⟩ := hcs c List.mem_cons_self
  rw [tabs.eq_2, reads_bind]
  refine (@hc _ _ false (.leaf hcl hca) hs).mono fun child b₁ h₁ => ?_
  rw [reads_bind, reads_edit]
  intro s₂ h₂
  have hleaf := h₁.leaf hcl
  have hfc : b.store.contains folder = true :=
    (Store.contains_iff_form? _ _).mpr (by rw [hform]; rfl)
  have hne : child ≠ folder := Store.ne_of_contains_false h₁.fresh hfc
  have hs₂ : ({ b₁ with store := s₂ }.inFrames T).Sound E := by
    have := h₁.sound.pushChild h₂ List.mem_cons_self
      (h₁.sound.not_under_top (List.mem_append.mpr ((List.mem_append.mp hf).imp id
        (List.mem_cons_of_mem _))) hne)
      (fun _ => hleaf) fun a ha hu => absurd hu (h₁.sound.not_under_area
        (by obtain ⟨f, hf', hfl⟩ := hleaf; show b₁.store.form? child ≠ _; rw [hf']; rintro ⟨⟩; cases hfl)
        a ha)
    rwa [List.erase_cons_head] at this
  have hk₂ : b.store.Keeps s₂ := h₁.keeps.pushChild h₁.fresh h₂
  have hea : b₁.editorArea = b.editorArea := h₁.area.resolve_right fun h => Bool.false_ne_true h.1
  refine (hrest (fun x hx => hcs x (List.mem_cons_of_mem _ hx)) hs₂ hf ?_).mono
    fun _ b' h' => ⟨h'.1, hk₂.trans h'.2.1, h'.2.2.trans hea⟩
  exact (hk₂.form folder hfc).trans hform

/-- A child is read with its weight, then put in the split's last slot; the split has no
container, so the editor area, if the child took it, sits below splits only. -/
theorem slotsRead_cons {m c : Memento} {rest : List Memento} {split : NodeId}
    (hc : NodeReads T c) (hrest : SlotsRead T m split rest) : SlotsRead T m split (c :: rest) := by
  intro b E area hcs hs hp hform
  rw [slots.eq_2, reads_bind, reads_read]
  intro w _
  rw [reads_bind]
  refine (hc (hcs c List.mem_cons_self) hs).mono fun child b₁ h₁ => ?_
  rw [reads_bind, reads_edit]
  intro s₂ h₂
  have hpc : b.store.contains split = true :=
    (Store.contains_iff_form? _ _).mpr (by rw [hform]; rfl)
  have hne : child ≠ split := Store.ne_of_contains_false h₁.fresh hpc
  have hp₁ : split ∈ (b₁.inFrames T).tops ++ child :: E :=
    List.mem_append.mpr ((List.mem_append.mp hp).imp id (List.mem_cons_of_mem _))
  have hform₁ : b₁.store.form? split = some .split := (h₁.keeps.form split hpc).trans hform
  have hs₂ : ({ b₁ with store := s₂ }.inFrames T).Sound E := by
    have := h₁.sound.insertChild h₂ List.mem_cons_self (h₁.sound.not_under_top hp₁ hne)
      (fun h => by rw [show (b₁.inFrames T).store = b₁.store from rfl, hform₁] at h; cases h)
      fun _ _ _ => ⟨hform₁, fun x hx => absurd hx (h₁.sound.not_above_top hp₁ x)⟩
    rwa [List.erase_cons_head] at this
  have hlink : ∀ x, x ≠ child → s₂.parent? x = b₁.store.parent? x := fun x hx => by
    rw [Store.parent?_insertChild h₂, if_neg hx]
  have hcpar : s₂.parent? child = some split := by rw [Store.parent?_insertChild h₂, if_pos rfl]
  have hk₂ : b.store.Keeps s₂ := h₁.keeps.insertChild h₁.fresh h₂
  -- the editor area stayed, or it is below the child, and so below the split
  have harea₂ : b₁.editorArea = b.editorArea ∨
      area = true ∧ ∃ a, b₁.editorArea = some a ∧ Under s₂.parent? split a := by
    refine h₁.area.imp id fun ⟨har, a, ha, hu⟩ => ⟨har, a, ha, ?_⟩
    exact (Under.of_above (.parent hcpar)).trans (Under.of_link hlink h₁.top hu)
  refine (hrest (fun x hx => hcs x (List.mem_cons_of_mem _ hx)) hs₂ hp ?_).mono
    fun _ b' h' => ⟨h'.1, hk₂.trans h'.2.1, ?_⟩
  · exact (hk₂.form split hpc).trans hform
  · rcases h'.2.2 with he | hmoved
    · rcases harea₂ with he₂ | ⟨har, a, ha, hu⟩
      · exact .inl (he.trans he₂)
      · -- the editor area is a split of the table, so the climbs to it stay
        have hac : s₂.contains a = true := (Store.contains_iff_form? _ _).mpr
          (by rw [show s₂.form? a = some .split from (hs₂.area a ha).1]; rfl)
        exact .inr ⟨har, a, he.trans ha, h'.2.1.under hs₂.forest hac hu⟩
    · exact .inr hmoved

theorem nodeReads_mk {kind : String} {attrs : List (String × Value)} {children : List Memento}
    (hfirst : FirstRead T ⟨kind, attrs, children⟩ children)
    (htabs : ∀ id, TabsRead T ⟨kind, attrs, children⟩ id children)
    (hslots : ∀ id, SlotsRead T ⟨kind, attrs, children⟩ id children) :
    NodeReads T ⟨kind, attrs, children⟩ := by
  intro b E area hm hs
  rw [node.eq_1, reads_bind, reads_read]
  intro ident _
  extract_lets finish
  have hf := hs.forest
  split
  · -- a pane
    rw [reads_bind, reads_read]
    intro part _
    rw [reads_bind, reads_read]
    intro k _
    rw [reads_bind, reads_alloc]
    exact reads_finish (read_alloc hs _ _ rfl rfl (fun _ => rfl) (fun h => absurd rfl h.1)
      fun h => absurd h (by simp)) fun ha => absurd ha (hm.not_isArea (by simp))
  · -- a placeholder
    rw [reads_bind, reads_read]
    intro part _
    rw [reads_bind, reads_alloc]
    exact reads_finish (read_alloc hs _ _ rfl rfl (fun _ => rfl) (fun h => absurd rfl h.2.1)
      fun h => absurd h (by simp)) fun ha => absurd ha (hm.not_isArea (by simp))
  · -- a collapsed node: the container it folds first, then the node itself
    obtain ⟨hcont, hshape⟩ := hm.collapsed_inv rfl
    rw [reads_bind]
    refine (hfirst hcont hshape hs).mono fun inner b₁ ⟨c, hc, h₁⟩ => ?_
    rw [reads_bind, reads_alloc, reads_bind, reads_edit]
    intro s₂ h₂
    rw [reads_bind, reads_pure]
    have hea : b₁.editorArea = b.editorArea := h₁.area.resolve_right fun h => Bool.false_ne_true h.1
    -- the editor area was there before, and the folded container is new
    have harea : ∀ a, b₁.editorArea = some a → ¬ Under b₁.store.parent? inner a := fun a ha =>
      h₁.not_under_old hf ((Store.contains_iff_form? _ _).mpr
        (by rw [show b.store.form? a = some .split from (hs.area a (hea.symm.trans ha)).1]; rfl))
    have hs₂ := h₁.sound.adopt List.mem_cons_self (h₁.container (hcont c hc)) harea h₂
    rw [List.erase_cons_head] at hs₂
    have hk₂ : b.store.Keeps s₂ := h₁.keeps.adopt h₁.fresh (h₁.container (hcont c hc)).contains h₂
    exact reads_finish ⟨hs₂, h₁.keeps.contains_nextId, hk₂, fun h => absurd rfl h.2.2, fun h => absurd rfl h.2.2,
      fun h => absurd h (by simp), .inl hea⟩ fun ha => absurd ha (hm.not_isArea (by simp))
  · -- a folder: its tabs, then its selection
    rw [reads_bind, reads_alloc]
    have h₁ : Read T E ⟨"folder", attrs, children⟩ area b b.store.nextId _ :=
      read_alloc hs ident .emptyFolder rfl rfl (fun h => absurd rfl h.2.1)
        (fun _ => .inl rfl) fun _ => rfl
    rw [reads_bind]
    refine (htabs _ (hm.folder_inv rfl) h₁.sound (List.mem_append_right _ List.mem_cons_self)
      (h₁.folder rfl)).mono fun _ b₂ ⟨hs₂, hk₂, hea₂⟩ => ?_
    have hform₂ : b₂.store.form? b.store.nextId = some .folder :=
      (hk₂.form _ ((Store.contains_iff_form? _ _).mpr (by rw [h₁.folder rfl]; rfl))).trans
        (h₁.folder rfl)
    have hr₂ : Read T E ⟨"folder", attrs, children⟩ area b b.store.nextId b₂ :=
      ⟨hs₂, h₁.fresh, h₁.keeps.trans hk₂, fun h => absurd rfl h.2.1, fun _ => .inl hform₂,
        fun _ => hform₂, .inl hea₂⟩
    rw [reads_bind, reads_get]
    extract_lets fix
    have hfix : ∀ b₃, Read T E ⟨"folder", attrs, children⟩ area b b.store.nextId b₃ →
        Reads (fix ()) b₃ (Read T E ⟨"folder", attrs, children⟩ area b) := by
      intro b₃ h₃
      dsimp only [fix]
      rw [reads_bind, reads_modify, reads_bind, reads_pure]
      exact reads_finish (h₃.sameShape (Store.sameShape_fixSelection _ _)
        (h₃.sound.aligned.fixSelection _))
        fun ha => absurd ha (hm.not_isArea (by simp))
    split
    · rw [reads_bind, reads_set]
      exact hfix _ (hr₂.sameShape (Store.sameShape_select _ _) (hr₂.sound.aligned.select _))
    · exact hfix _ hr₂
  · -- a split: its children, in its slots
    obtain ⟨hmark, hshape⟩ := hm.split_inv rfl
    rw [reads_bind, reads_read]
    intro o _
    rw [reads_bind, reads_alloc]
    have h₁ : Read T E ⟨"split", attrs, children⟩ area b b.store.nextId _ :=
      read_alloc hs ident (.emptySplit o) rfl rfl (fun h => absurd rfl h.1)
        (fun _ => .inr rfl) fun h => absurd h (by simp)
    have hform₁ : ({ b with store := (b.store.alloc ident (.emptySplit o)).2 } : Builder).store.form?
        b.store.nextId = some .split := by
      rw [Store.form?_alloc, if_pos rfl]
      rfl
    rw [reads_bind]
    refine (hslots _ hshape h₁.sound (List.mem_append_right _ List.mem_cons_self) hform₁).mono
      fun _ b₂ ⟨hs₂, hk₂, hea₂⟩ => ?_
    have hform₂ : b₂.store.form? b.store.nextId = some .split :=
      (hk₂.form _ ((Store.contains_iff_form? _ _).mpr (by rw [hform₁]; rfl))).trans hform₁
    rw [reads_bind, reads_pure]
    exact reads_finish ⟨hs₂, h₁.fresh, h₁.keeps.trans hk₂, fun h => absurd rfl h.1,
      fun _ => .inr hform₂, fun h => absurd h (by simp), hea₂⟩ fun ha => ⟨hform₂, hmark ha⟩
  · rw [reads_bind]
    exact reads_fail _

/-- Reading an element of the saved shape over a sound layout ends sound, with the new node
among the extra nodes. The induction follows the four readers' mutual recursion. -/
theorem nodeReads (m : Memento) : NodeReads T m :=
  Builder.node.induct (fun m => NodeReads T m) (fun m p cs => SlotsRead T m p cs)
    (fun m f cs => TabsRead T m f cs) (fun m cs => FirstRead T m cs)
    (fun _ _ _ hfirst htabs hslots => nodeReads_mk hfirst htabs hslots)
    slotsRead_nil (fun _ _ _ _ hc hrest => slotsRead_cons hc hrest)
    tabsRead_nil (fun _ _ _ _ hc hrest => tabsRead_cons hc hrest)
    firstRead_nil (fun _ _ _ hc => firstRead_cons hc) m

end Reading

end Builder

end Docking
