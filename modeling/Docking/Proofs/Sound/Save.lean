import Docking.Proofs.Sound.Basic
import Docking.Layout.Save
/-!
# The shape of a saved layout

A sound layout saves its node trees in a shape that reads back into a sound layout: a
folder's element holds only unmarked tab elements, a collapsed node's element first holds a
container's element, and the editor-area mark stands only on split elements reached from the
main element through split elements. `Memento.Shaped` names that shape of an element and
`Memento.ShapedLayout` that of a document; `Layout.shapedLayout_save` says a save has it.
Elements that do not read back at all (the `missing` element of a handle without a node) fit
the shape as tabs: reading them fails, so they never reach a layout.
-/

namespace Docking

namespace Memento

/-- Whether an element carries the editor-area mark. -/
def IsArea (m : Memento) : Prop := m.get? "editor-area" = some (.bool true)

/-- An element that reads back, if it reads at all, as a pane or a placeholder. -/
def IsLeafElement (m : Memento) : Prop :=
  m.kind ≠ "split" ∧ m.kind ≠ "folder" ∧ m.kind ≠ "collapsed"

/-- An element that reads back, if it reads at all, as a folder or a split. -/
def IsContainerElement (m : Memento) : Prop :=
  m.kind ≠ "pane" ∧ m.kind ≠ "placeholder" ∧ m.kind ≠ "collapsed"

/-- The shape of the element of a node tree in a saved sound layout. `area` says whether the
editor-area mark may stand in it: it passes from a split to its children, and stops at every
other element. -/
inductive Shaped : Memento → Bool → Prop
  | split {m : Memento} {area : Bool} (hk : m.kind = "split") (hm : m.IsArea → area = true)
      (hc : ∀ c ∈ m.children, Shaped c area) : Shaped m area
  | folder {m : Memento} {area : Bool} (hk : m.kind = "folder") (hm : ¬ m.IsArea)
      (hc : ∀ c ∈ m.children, c.IsLeafElement ∧ ¬ c.IsArea) : Shaped m area
  | collapsed {m : Memento} {area : Bool} (hk : m.kind = "collapsed") (hm : ¬ m.IsArea)
      (hc : ∀ c ∈ m.children.head?, c.IsContainerElement)
      (hs : ∀ c ∈ m.children.head?, Shaped c false) : Shaped m area
  | leaf {m : Memento} {area : Bool} (hk : m.IsLeafElement) (hm : ¬ m.IsArea) : Shaped m area

/-- The shape of a saved sound layout: the `main` element first holds the element of the root,
where the editor-area mark may stand, and each window's element first holds the unmarked
element of its folder. -/
def ShapedLayout (doc : Memento) : Prop :=
  ∀ c ∈ doc.children, (c.kind = "main" → ∀ r ∈ c.children.head?, r.Shaped true) ∧
    (c.kind = "detached" ∨ c.kind = "detached-placeholder" →
      ∀ f ∈ c.children.head?, f.Shaped false)

@[simp] theorem kind_set (m : Memento) (k : String) (v : Value) : (m.set k v).kind = m.kind := rfl

@[simp] theorem children_set (m : Memento) (k : String) (v : Value) :
    (m.set k v).children = m.children := rfl

@[simp] theorem kind_push (m c : Memento) : (m.push c).kind = m.kind := rfl

@[simp] theorem children_push (m c : Memento) : (m.push c).children = m.children ++ [c] := rfl

@[simp] theorem get?_push (m c : Memento) (k : String) : (m.push c).get? k = m.get? k := rfl

@[simp] theorem kind_empty (k : String) : (empty k).kind = k := rfl

@[simp] theorem children_empty (k : String) : (empty k).children = [] := rfl

@[simp] theorem get?_empty (k k' : String) : (empty k).get? k' = none := rfl

@[simp] theorem get?_set_self (m : Memento) (k : String) (v : Value) : (m.set k v).get? k = some v :=
  Keyed.find?_insert_self _ _ _

theorem get?_set_of_ne {k k' : String} (h : k' ≠ k) (m : Memento) (v : Value) :
    (m.set k v).get? k' = m.get? k' :=
  Keyed.find?_insert_of_ne v m.attributes h

theorem get?_ite (c : Prop) [Decidable c] (a b : Memento) (k : String) :
    (if c then a else b).get? k = if c then a.get? k else b.get? k := by
  split <;> rfl

theorem not_isArea_empty (k : String) : ¬ (empty k).IsArea := nofun

theorem isArea_set_of_ne {k : String} (h : "editor-area" ≠ k) (m : Memento) (v : Value) :
    (m.set k v).IsArea ↔ m.IsArea := by
  rw [IsArea, IsArea, get?_set_of_ne h]

section Pushes

variable {α : Type} (f : α → Memento)

@[simp] theorem kind_foldl_push : ∀ (xs : List α) (m : Memento),
    (xs.foldl (fun m x => m.push (f x)) m).kind = m.kind
  | [], _ => rfl
  | x :: xs, m => kind_foldl_push xs (m.push (f x))

@[simp] theorem children_foldl_push : ∀ (xs : List α) (m : Memento),
    (xs.foldl (fun m x => m.push (f x)) m).children = m.children ++ xs.map f
  | [], _ => by simp
  | x :: xs, m => by simp [children_foldl_push xs (m.push (f x))]

@[simp] theorem get?_foldl_push (k : String) : ∀ (xs : List α) (m : Memento),
    (xs.foldl (fun m x => m.push (f x)) m).get? k = m.get? k
  | [], _ => rfl
  | x :: xs, m => get?_foldl_push k xs (m.push (f x))

end Pushes

/-- An attribute other than the mark leaves an element's shape alone. -/
theorem Shaped.set {m : Memento} {area : Bool} (h : m.Shaped area) {k : String}
    (hk : "editor-area" ≠ k) (v : Value) : (m.set k v).Shaped area := by
  have harea := isArea_set_of_ne hk m v
  cases h with
  | split hk' hm hc => exact .split hk' (fun ha => hm (harea.mp ha)) hc
  | folder hk' hm hc => exact .folder hk' (fun ha => hm (harea.mp ha)) hc
  | collapsed hk' hm hc hs => exact .collapsed hk' (fun ha => hm (harea.mp ha)) hc hs
  | leaf hk' hm => exact .leaf hk' fun ha => hm (harea.mp ha)

/-! The shape of an element, read off its type. -/

theorem Shaped.not_isArea {m : Memento} {area : Bool} (h : m.Shaped area) (hk : m.kind ≠ "split") :
    ¬ m.IsArea := by
  cases h with
  | split hk' => exact absurd hk' hk
  | folder _ hm _ => exact hm
  | collapsed _ hm _ _ => exact hm
  | leaf _ hm => exact hm

theorem Shaped.split_inv {m : Memento} {area : Bool} (h : m.Shaped area) (hk : m.kind = "split") :
    (m.IsArea → area = true) ∧ ∀ c ∈ m.children, c.Shaped area := by
  cases h with
  | split _ hm hc => exact ⟨hm, hc⟩
  | folder hk' => exact absurd (hk.symm.trans hk') (by decide)
  | collapsed hk' => exact absurd (hk.symm.trans hk') (by decide)
  | leaf hl => exact absurd hk hl.1

theorem Shaped.folder_inv {m : Memento} {area : Bool} (h : m.Shaped area) (hk : m.kind = "folder") :
    ∀ c ∈ m.children, c.IsLeafElement ∧ ¬ c.IsArea := by
  cases h with
  | split hk' => exact absurd (hk.symm.trans hk') (by decide)
  | folder _ _ hc => exact hc
  | collapsed hk' => exact absurd (hk.symm.trans hk') (by decide)
  | leaf hl => exact absurd hk hl.2.1

theorem Shaped.collapsed_inv {m : Memento} {area : Bool} (h : m.Shaped area)
    (hk : m.kind = "collapsed") :
    (∀ c ∈ m.children.head?, c.IsContainerElement) ∧ ∀ c ∈ m.children.head?, c.Shaped false := by
  cases h with
  | split hk' => exact absurd (hk.symm.trans hk') (by decide)
  | folder hk' => exact absurd (hk.symm.trans hk') (by decide)
  | collapsed _ _ hc hs => exact ⟨hc, hs⟩
  | leaf hl => exact absurd hk hl.2.2

end Memento

namespace Layout

open Memento

variable {l : Layout} {E : List NodeId} {fuel : Nat} {id : NodeId} {n : Node}

theorem kind_saveFrom_succ (h : l.store.get? id = some n) :
    (l.saveFrom (fuel + 1) id).kind = match n.kind with
      | .pane _ => "pane" | .placeholder _ => "placeholder" | .collapsed _ => "collapsed"
      | .folder .. => "folder" | .split .. => "split" := by
  rw [saveFrom.eq_2, h]
  dsimp only
  cases n.kind <;> simp [apply_ite Memento.kind]
  split <;> rfl

/-- A node's element holds the elements of the nodes it holds, a split's child's with its
share of the weights. -/
theorem children_saveFrom_succ (h : l.store.get? id = some n) :
    (l.saveFrom (fuel + 1) id).children = match n.kind with
      | .collapsed inner => [l.saveFrom fuel inner]
      | .folder cs _ => cs.map (l.saveFrom fuel)
      | .split _ cs ws => (cs.zip ws).map fun (c, w) =>
          (l.saveFrom fuel c).set "weight" (.int (savedShare (weightSum ws) cs.length w))
      | _ => [] := by
  rw [saveFrom.eq_2, h]
  dsimp only
  cases n.kind <;> simp [apply_ite Memento.children]
  split <;> rfl

/-- A node's element carries the mark exactly when the node is the editor area. -/
theorem isArea_saveFrom_succ (h : l.store.get? id = some n) :
    (l.saveFrom (fuel + 1) id).IsArea ↔ l.editorArea = some id := by
  rw [saveFrom.eq_2, h]
  dsimp only
  unfold IsArea
  rw [get?_ite, get?_set_of_ne (by decide), ite_self, get?_ite, get?_set_self]
  split
  · next ha => exact iff_of_true rfl (beq_iff_eq.mp ha).symm
  · next ha =>
    -- the element's other attributes are its body's and the node's identity and bounds
    have hne : l.editorArea ≠ some id := fun he => ha (beq_iff_eq.mpr he.symm)
    simp only [hne, iff_false]
    cases n.kind <;> simp [get?_set_of_ne]
    split <;> simp [get?_set_of_ne]

theorem editorArea_of_isArea (h : (l.saveFrom fuel id).IsArea) : l.editorArea = some id := by
  cases fuel with
  | zero => exact absurd h (not_isArea_empty _)
  | succ fuel =>
    cases hn : l.store.get? id with
    | none =>
      rw [saveFrom.eq_2, hn] at h
      exact absurd h (not_isArea_empty _)
    | some n => exact (isArea_saveFrom_succ hn).mp h

/-- The element of a pane or a placeholder is a tab element. -/
theorem isLeafElement_saveFrom (h : l.store.IsLeaf id) : (l.saveFrom fuel id).IsLeafElement := by
  cases fuel with
  | zero => simp [saveFrom, IsLeafElement]
  | succ fuel =>
    obtain ⟨n, hn⟩ := (Store.contains_iff _ _).mp h.contains
    obtain ⟨f, hf, hleaf⟩ := h
    rw [Store.form?_of_get? hn, Option.some.injEq] at hf
    rw [IsLeafElement, kind_saveFrom_succ hn]
    subst hf
    revert hleaf
    cases n.kind <;> simp [NodeKind.form, Form.isLeaf]

/-- The element of a folder or a split is a container element. -/
theorem isContainerElement_saveFrom (h : l.store.IsContainer id) :
    (l.saveFrom fuel id).IsContainerElement := by
  cases fuel with
  | zero => simp [saveFrom, IsContainerElement]
  | succ fuel =>
    obtain ⟨n, hn⟩ := (Store.contains_iff _ _).mp h.contains
    rw [IsContainerElement, kind_saveFrom_succ hn]
    rw [Store.IsContainer, Store.form?_of_get? hn] at h
    revert h
    cases n.kind <;> simp [NodeKind.form]

/-- The element a sound layout saves for a node has the saved shape. The mark may stand in it
unless the editor area lies outside the node's tree; the induction is on the depth left, and
each node's case follows its kind. -/
theorem Sound.shaped_saveFrom (hs : l.Sound E) : ∀ (fuel : Nat) (id : NodeId) (area : Bool),
    (area = false → ∀ a, l.editorArea = some a → ¬ Under l.store.parent? id a) →
    (l.saveFrom fuel id).Shaped area := by
  intro fuel
  induction fuel with
  | zero => exact fun _ _ _ => .leaf (by simp [saveFrom, IsLeafElement]) (not_isArea_empty _)
  | succ fuel ih =>
    intro id area harea
    cases hn : l.store.get? id with
    | none =>
      rw [saveFrom.eq_2, hn]
      exact .leaf (by simp [IsLeafElement]) (not_isArea_empty _)
    | some n =>
      have hform := Store.form?_of_get? hn
      have hheld := Store.held_of_get? hn
      -- only the editor area's element is marked, and the editor area is a split
      have hmark : ∀ {m}, m = l.saveFrom (fuel + 1) id → m.IsArea → l.store.form? id = some .split :=
        fun hm ha => (hs.area id ((isArea_saveFrom_succ hn).mp (hm ▸ ha))).1
      -- the tree of a child lies in the tree of its holder
      have hbelow : ∀ {c}, c ∈ l.store.held id → area = false →
          ∀ a, l.editorArea = some a → ¬ Under l.store.parent? c a := fun hc hf a ha hu =>
        harea hf a ha ((Under.of_above (.parent (hs.forest.held_parent hc))).trans hu)
      have hkind : (l.saveFrom (fuel + 1) id).kind = _ := kind_saveFrom_succ hn
      have hchildren : (l.saveFrom (fuel + 1) id).children = _ := children_saveFrom_succ hn
      cases hk : n.kind with
      | pane p =>
        rw [hk] at hkind hform
        exact .leaf (by simp [IsLeafElement, hkind]) fun ha => by
          rw [hmark rfl ha] at hform
          cases hform
      | placeholder part =>
        rw [hk] at hkind hform
        exact .leaf (by simp [IsLeafElement, hkind]) fun ha => by
          rw [hmark rfl ha] at hform
          cases hform
      | collapsed inner =>
        rw [hk] at hkind hform hchildren hheld
        have hinner : inner ∈ l.store.held id := by simp [hheld, Store.walkChildren]
        refine .collapsed hkind (fun ha => by rw [hmark rfl ha] at hform; cases hform) ?_ ?_
        · rw [hchildren]
          rintro c ⟨⟩
          exact isContainerElement_saveFrom (hs.fold_held id inner hform hinner)
        · rw [hchildren]
          rintro c ⟨⟩
          -- no editor area lies below a collapsed node
          refine ih inner false fun _ a ha hu => hs.not_under_area (x := id) ?_ a ha
            ((Under.of_above (.parent (hs.forest.held_parent hinner))).trans hu)
          rw [hform]
          simp [NodeKind.form]
      | folder cs sel =>
        rw [hk] at hkind hform hchildren hheld
        refine .folder hkind (fun ha => by rw [hmark rfl ha] at hform; cases hform) fun c hc => ?_
        rw [hchildren] at hc
        obtain ⟨d, hd, rfl⟩ := List.mem_map.mp hc
        have hleaf := hs.tabs_leaves id d hform (by simpa [hheld, Store.walkChildren] using hd)
        refine ⟨isLeafElement_saveFrom hleaf, fun ha => ?_⟩
        obtain ⟨f, hf, hfl⟩ := hleaf
        rw [(hs.area d (editorArea_of_isArea ha)).1, Option.some.injEq] at hf
        rw [← hf] at hfl
        cases hfl
      | split o cs ws =>
        rw [hk] at hkind hchildren hheld
        refine .split hkind (fun ha => ?_) fun c hc => ?_
        · cases area
          · exact absurd (.inl rfl) (harea rfl id ((isArea_saveFrom_succ hn).mp ha))
          · rfl
        · rw [hchildren] at hc
          obtain ⟨⟨d, w⟩, hd, rfl⟩ := List.mem_map.mp hc
          have hdh : d ∈ l.store.held id := by
            simpa [hheld, Store.walkChildren] using List.of_mem_zip hd |>.1
          exact (ih d area (hbelow hdh)).set (by decide) _

/-- A sound layout saves a document of the saved shape: the root's element may carry the
editor-area mark, and the folders of the windows, which are no splits, hold no editor area. -/
theorem Sound.shapedLayout_save (hs : l.Sound E) : l.save.ShapedLayout := by
  have hframe : ∀ f ∈ l.frames, (l.saveNode f).Shaped false := fun f hf =>
    hs.shaped_saveFrom _ f false fun _ => hs.not_under_area (by rw [hs.frames_folders f hf]; nofun)
  intro c hc
  simp only [save, saveNode, children_foldl_push, children_push, children_empty, List.nil_append,
    List.mem_append, List.mem_cons, List.mem_map, List.not_mem_nil, or_false] at hc
  rcases hc with ((rfl | ⟨w, hw, rfl⟩) | ⟨h, hh, rfl⟩) | ⟨p, -, rfl⟩
  · refine ⟨fun _ r hr => ?_, by simp⟩
    simp only [children_push, children_empty, List.nil_append, List.head?_cons,
      Option.mem_def, Option.some.injEq] at hr
    subst hr
    exact hs.shaped_saveFrom _ _ true nofun
  · refine ⟨by simp [floatRectMemento], fun _ f hf => ?_⟩
    simp only [floatRectMemento, children_push, children_set, children_empty, List.nil_append,
      List.head?_cons, Option.mem_def, Option.some.injEq] at hf
    subst hf
    exact hframe _ (List.mem_append_left _ (List.mem_map_of_mem hw))
  · refine ⟨by simp [floatRectMemento], fun _ f hf => ?_⟩
    simp only [floatRectMemento, children_push, children_set, children_empty, List.nil_append,
      List.head?_cons, Option.mem_def, Option.some.injEq] at hf
    subst hf
    exact hframe _ (List.mem_append_right _ (List.mem_map_of_mem hh))
  · exact ⟨by simp, by simp⟩

end Layout

end Docking
