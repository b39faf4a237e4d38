import Docking.Tree.Walk
/-!
# Reading the node table after an edit

The proofs about layouts look at the node table through four views of a handle: whether it
names a node (`contains`), the node's container link (`parent?`), the nodes it holds
(`held`: a container's children, or the container a collapsed node folds) and its `Form`
(what it is, without what it holds). This module says, for every edit of the table, what
each view gives afterwards, so that later proofs never unfold an edit.
-/

namespace Docking

/-- What a node is, without what it holds: the pane or placeholder it shows, or the kind of
container. Editing a container's children keeps its form. -/
inductive Form where
  | pane (p : Pane)
  | placeholder (part : PartId)
  | folder
  | split
  | collapsed
  deriving DecidableEq

/-- The form of a node kind. -/
def NodeKind.form : NodeKind → Form
  | .pane p => .pane p
  | .placeholder part => .placeholder part
  | .folder .. => .folder
  | .split .. => .split
  | .collapsed _ => .collapsed

namespace Store

/-- The nodes a node holds: a container's children, or the container a collapsed node
folds; none for a leaf or a handle without a node. -/
def held (s : Store) (id : NodeId) : List NodeId :=
  match s.get? id with
  | some n => walkChildren true n.kind
  | none => []

/-- The form of the node with a handle. -/
def form? (s : Store) (id : NodeId) : Option Form :=
  (s.get? id).map (·.kind.form)

theorem get?_eq_join (s : Store) (id : NodeId) : s.get? id = s.slots[id.val]?.join := by
  unfold get?
  cases s.slots[id.val]? with
  | none => rfl
  | some o => cases o <;> rfl

theorem val_eq_iff {a b : NodeId} : a.val = b.val ↔ a = b := by
  cases a; cases b; simp

/-! ### The table operations, node by node -/

theorem get?_modify (s : Store) (id x : NodeId) (f : Node → Node) :
    (s.modify id f).get? x = if id = x then (s.get? x).map f else s.get? x := by
  simp only [get?_eq_join, modify, Array.getElem?_modify, val_eq_iff]
  by_cases h : id = x
  · subst h
    cases s.slots[id.val]? with
    | none => simp
    | some o => cases o <;> simp
  · simp [h]

theorem get?_discard (s : Store) (id x : NodeId) :
    (s.discard id).get? x = if id = x then none else s.get? x := by
  simp only [get?_eq_join, discard, Array.getElem?_modify, val_eq_iff]
  by_cases h : id = x
  · subst h
    cases s.slots[id.val]? <;> simp
  · simp [h]

theorem get?_push (s : Store) (n : Node) (x : NodeId) :
    (⟨s.slots.push (some n)⟩ : Store).get? x = if x = s.nextId then some n else s.get? x := by
  simp only [get?_eq_join, Array.getElem?_push, nextId]
  by_cases h : x.val = s.slots.size
  · have : x = ⟨s.slots.size⟩ := by cases x; simp_all
    simp [this]
  · have : x ≠ ⟨s.slots.size⟩ := by intro he; subst he; exact h rfl
    simp [h, this]

@[simp] theorem alloc_fst (s : Store) (ident : String) (kind : NodeKind) :
    (s.alloc ident kind).1 = s.nextId := rfl

theorem get?_alloc (s : Store) (ident : String) (kind : NodeKind) (x : NodeId) :
    (s.alloc ident kind).2.get? x =
      if x = s.nextId then some (Node.fresh ident kind) else s.get? x :=
  get?_push s _ x

theorem allocContainer_eq (s : Store) (kind : NodeKind) :
    ∃ ident, s.allocContainer kind = s.alloc ident kind :=
  ⟨_, rfl⟩

theorem get?_nextId (s : Store) : s.get? s.nextId = none := by
  simp [get?_eq_join, nextId]

theorem lt_size_of_get? {s : Store} {x : NodeId} {n : Node} (h : s.get? x = some n) :
    x.val < s.slots.size := by
  rw [get?_eq_join] at h
  cases hx : s.slots[x.val]? with
  | none => simp [hx] at h
  | some o => exact (Array.getElem?_eq_some_iff.mp hx).1

theorem ne_nextId_of_get? {s : Store} {x : NodeId} {n : Node} (h : s.get? x = some n) :
    x ≠ s.nextId := by
  rintro rfl
  rw [get?_nextId] at h
  simp at h

/-! ### The views -/

@[simp] theorem contains_iff (s : Store) (x : NodeId) : s.contains x = true ↔ ∃ n, s.get? x = some n := by
  simp [contains, Option.isSome_iff_exists]

theorem ne_nextId_of_contains {s : Store} {x : NodeId} (h : s.contains x = true) : x ≠ s.nextId :=
  ne_nextId_of_get? ((contains_iff s x).mp h).choose_spec

theorem parent?_eq (s : Store) (x : NodeId) : s.parent? x = (s.get? x).bind (·.parent) := rfl

theorem held_of_get? {s : Store} {x : NodeId} {n : Node} (h : s.get? x = some n) :
    s.held x = walkChildren true n.kind := by
  simp [held, h]

theorem held_of_get?_none {s : Store} {x : NodeId} (h : s.get? x = none) : s.held x = [] := by
  simp [held, h]

theorem contains_of_mem_held {s : Store} {p c : NodeId} (h : c ∈ s.held p) : s.contains p = true := by
  unfold held at h
  split at h
  · simp_all
  · simp at h

theorem contains_of_parent? {s : Store} {c p : NodeId} (h : s.parent? c = some p) : s.contains c = true := by
  rw [parent?_eq] at h
  cases hc : s.get? c with
  | none => simp [hc] at h
  | some n => simp [hc]

theorem form?_eq_none_iff {s : Store} {x : NodeId} : s.form? x = none ↔ s.get? x = none := by
  simp [form?]

theorem contains_iff_form? (s : Store) (x : NodeId) : s.contains x = true ↔ (s.form? x).isSome := by
  simp [form?, Option.isSome_iff_exists]

/-! ### Edits that keep the shape

Bounds, selections and weights are not part of the shape: two tables have the same shape
when every handle has the same container link, holds the same nodes and has the same form. -/

/-- Two tables link the same nodes in the same way. -/
def SameShape (s s' : Store) : Prop :=
  ∀ x, s'.parent? x = s.parent? x ∧ s'.held x = s.held x ∧ s'.form? x = s.form? x

theorem SameShape.refl (s : Store) : SameShape s s := fun _ => ⟨rfl, rfl, rfl⟩

theorem SameShape.trans {s₁ s₂ s₃ : Store} (h₁ : SameShape s₁ s₂) (h₂ : SameShape s₂ s₃) :
    SameShape s₁ s₃ := fun x =>
  ⟨(h₂ x).1.trans (h₁ x).1, (h₂ x).2.1.trans (h₁ x).2.1, (h₂ x).2.2.trans (h₁ x).2.2⟩

theorem SameShape.contains_eq {s s' : Store} (h : SameShape s s') (x : NodeId) :
    s'.contains x = s.contains x := by
  have := (h x).2.2
  rw [Bool.eq_iff_iff, contains_iff_form?, contains_iff_form?, this]

/-- Changing a node without touching its link or its kind keeps the shape. -/
theorem sameShape_modify (s : Store) (id : NodeId) (f : Node → Node)
    (hp : ∀ n, (f n).parent = n.parent) (hk : ∀ n, walkChildren true (f n).kind = walkChildren true n.kind)
    (hf : ∀ n, (f n).kind.form = n.kind.form) : SameShape s (s.modify id f) := by
  intro x
  simp only [parent?_eq, held, form?, get?_modify]
  by_cases h : id = x
  · subst h
    cases s.get? id with
    | none => simp
    | some n => simp [hp, hk, hf]
  · simp [h]

theorem sameShape_setBounds (s : Store) (id : NodeId) (r : Rect) :
    SameShape s (s.setBounds id r) :=
  sameShape_modify s id _ (fun _ => rfl) (fun _ => rfl) (fun _ => rfl)

/-- Setting a kind with the same form and the same held nodes keeps the shape. -/
theorem sameShape_setKind {s : Store} {id : NodeId} {k : NodeKind}
    (h : ∀ n, s.get? id = some n → walkChildren true k = walkChildren true n.kind ∧ k.form = n.kind.form) :
    SameShape s (s.setKind id k) := by
  intro x
  simp only [setKind, parent?_eq, held, form?, get?_modify]
  by_cases hx : id = x
  · subst hx
    cases hn : s.get? id with
    | none => simp
    | some n => simp [(h n hn).1, (h n hn).2]
  · simp [hx]

theorem sameShape_fixSelection (s : Store) (folder : NodeId) :
    SameShape s (s.fixSelection folder) := by
  unfold fixSelection
  split
  · next n ident parent bounds cs sel h =>
    exact sameShape_setKind fun m hm => by
      rw [h] at hm
      cases hm
      exact ⟨rfl, rfl⟩
  · exact SameShape.refl s

theorem sameShape_select (s : Store) (child : NodeId) : SameShape s (s.select child).2 := by
  unfold select
  split
  · exact SameShape.refl s
  · split
    · exact SameShape.refl s
    · split
      · next ident parent bounds cs sel h =>
        split
        · exact SameShape.refl s
        · exact sameShape_setKind fun m hm => by
            rw [h] at hm
            cases hm
            exact ⟨rfl, rfl⟩
      · exact SameShape.refl s

/-! ### Links, kinds, new nodes and dropped nodes -/

theorem parent?_setParentField (s : Store) (id x : NodeId) (p : Option NodeId) :
    (s.modify id fun n => { n with parent := p }).parent? x =
      if id = x ∧ s.contains x = true then p else s.parent? x := by
  simp only [parent?_eq, get?_modify]
  by_cases h : id = x
  · subst h
    cases hn : s.get? id <;> simp [hn]
  · simp [h]

theorem held_setParentField (s : Store) (id x : NodeId) (p : Option NodeId) :
    (s.modify id fun n => { n with parent := p }).held x = s.held x := by
  simp only [held, get?_modify]
  by_cases h : id = x
  · subst h
    cases s.get? id <;> simp
  · simp [h]

theorem form?_setParentField (s : Store) (id x : NodeId) (p : Option NodeId) :
    (s.modify id fun n => { n with parent := p }).form? x = s.form? x := by
  simp only [form?, get?_modify]
  by_cases h : id = x
  · subst h
    cases s.get? id <;> simp
  · simp [h]

theorem setParent_eq_ok {s s' : Store} {id : NodeId} {p : Option NodeId}
    (h : s.setParent id p = .ok s') :
    s.contains id = true ∧ s' = s.modify id fun n => { n with parent := p } := by
  unfold setParent node at h
  cases hn : s.get? id with
  | none => rw [hn] at h; cases h
  | some n =>
    simp only [hn] at h
    cases h
    simp [hn]

theorem setParent_of_contains {s : Store} {id : NodeId} (p : Option NodeId)
    (h : s.contains id = true) :
    s.setParent id p = .ok (s.modify id fun n => { n with parent := p }) := by
  obtain ⟨n, hn⟩ := (contains_iff s id).mp h
  unfold setParent node
  rw [hn]
  rfl

theorem parent?_setKind (s : Store) (id x : NodeId) (k : NodeKind) :
    (s.setKind id k).parent? x = s.parent? x := by
  simp only [setKind, parent?_eq, get?_modify]
  by_cases h : id = x
  · subst h
    cases s.get? id <;> simp
  · simp [h]

theorem held_setKind (s : Store) (id x : NodeId) (k : NodeKind) :
    (s.setKind id k).held x =
      if id = x ∧ s.contains x = true then walkChildren true k else s.held x := by
  simp only [setKind, held, get?_modify]
  by_cases h : id = x
  · subst h
    cases hn : s.get? id <;> simp [hn]
  · simp [h]

theorem form?_setKind (s : Store) (id x : NodeId) (k : NodeKind) :
    (s.setKind id k).form? x = if id = x then (s.form? x).map fun _ => k.form else s.form? x := by
  simp only [setKind, form?, get?_modify]
  by_cases h : id = x
  · subst h
    cases s.get? id <;> simp
  · simp [h]

theorem contains_modify (s : Store) (id x : NodeId) (f : Node → Node) :
    (s.modify id f).contains x = s.contains x := by
  simp only [contains, get?_modify]
  by_cases h : id = x
  · subst h
    cases s.get? id <;> simp
  · simp [h]

theorem contains_setKind (s : Store) (id x : NodeId) (k : NodeKind) :
    (s.setKind id k).contains x = s.contains x := by
  simp only [contains, setKind, get?_modify]
  by_cases h : id = x
  · subst h
    cases s.get? id <;> simp
  · simp [h]

theorem parent?_discard (s : Store) (id x : NodeId) :
    (s.discard id).parent? x = if id = x then none else s.parent? x := by
  simp only [parent?_eq, get?_discard]
  split <;> simp

theorem held_discard (s : Store) (id x : NodeId) :
    (s.discard id).held x = if id = x then [] else s.held x := by
  by_cases h : id = x
  · subst h
    simp [held, get?_discard]
  · simp [held, get?_discard, h]

theorem form?_discard (s : Store) (id x : NodeId) :
    (s.discard id).form? x = if id = x then none else s.form? x := by
  simp only [form?, get?_discard]
  split <;> simp

theorem parent?_alloc (s : Store) (ident : String) (kind : NodeKind) (x : NodeId) :
    (s.alloc ident kind).2.parent? x = if x = s.nextId then none else s.parent? x := by
  simp only [parent?_eq, get?_alloc]
  split <;> simp [Node.fresh]

theorem held_alloc (s : Store) (ident : String) (kind : NodeKind) (x : NodeId) :
    (s.alloc ident kind).2.held x = if x = s.nextId then walkChildren true kind else s.held x := by
  by_cases h : x = s.nextId
  · subst h
    simp [held, get?_alloc, Node.fresh]
  · simp [held, get?_alloc, h]

theorem contains_alloc (s : Store) (ident : String) (kind : NodeKind) (x : NodeId) :
    (s.alloc ident kind).2.contains x = true ↔ x = s.nextId ∨ s.contains x = true := by
  rw [contains_iff, contains_iff, get?_alloc]
  by_cases hx : x = s.nextId <;> simp [hx]

theorem form?_alloc (s : Store) (ident : String) (kind : NodeKind) (x : NodeId) :
    (s.alloc ident kind).2.form? x = if x = s.nextId then some kind.form else s.form? x := by
  simp only [form?, get?_alloc]
  split <;> simp [Node.fresh]

/-! ### The kind of a node

A node's kind is all it holds and how it shows it: a folder's tabs and its selection, a split's
orientation, children and weights. The edits below change the kind of the node they name and
of no other. -/

/-- The kind of the node with a handle. -/
def kindOf (s : Store) (id : NodeId) : Option NodeKind := (s.get? id).map (·.kind)

theorem kindOf_modify_of_ne (s : Store) {id x : NodeId} (f : Node → Node) (h : id ≠ x) :
    (s.modify id f).kindOf x = s.kindOf x := by
  simp [kindOf, get?_modify, h]

theorem kindOf_setParentField (s : Store) (id x : NodeId) (p : Option NodeId) :
    (s.modify id fun n => { n with parent := p }).kindOf x = s.kindOf x := by
  by_cases h : id = x
  · subst h
    simp only [kindOf, get?_modify, if_true]
    cases s.get? id <;> rfl
  · exact kindOf_modify_of_ne s _ h

theorem kindOf_setKind_of_ne (s : Store) {id x : NodeId} (k : NodeKind) (h : id ≠ x) :
    (s.setKind id k).kindOf x = s.kindOf x :=
  kindOf_modify_of_ne s _ h

theorem kindOf_fixSelection_of_ne (s : Store) {folder x : NodeId} (h : folder ≠ x) :
    (s.fixSelection folder).kindOf x = s.kindOf x := by
  unfold fixSelection
  split
  · exact kindOf_setKind_of_ne s _ h
  · rfl

theorem kindOf_discard_of_ne (s : Store) {id x : NodeId} (h : id ≠ x) :
    (s.discard id).kindOf x = s.kindOf x := by
  simp [kindOf, get?_discard, h]

theorem kindOf_alloc_of_ne (s : Store) (ident : String) (kind : NodeKind) {x : NodeId}
    (h : x ≠ s.nextId) : (s.alloc ident kind).2.kindOf x = s.kindOf x := by
  simp [kindOf, get?_alloc, h]

theorem contains_iff_kindOf (s : Store) (x : NodeId) : s.contains x = true ↔ (s.kindOf x).isSome := by
  simp [kindOf, Option.isSome_iff_exists]

theorem form?_eq_of_kindOf {s s' : Store} {x : NodeId} (h : s'.kindOf x = s.kindOf x) :
    s'.form? x = s.form? x := by
  unfold kindOf at h
  unfold form?
  cases h₁ : s'.get? x <;> cases h₂ : s.get? x <;> simp_all

theorem children_eq_of_kindOf {s s' : Store} {x : NodeId} (h : s'.kindOf x = s.kindOf x) :
    s'.children x = s.children x := by
  unfold kindOf at h
  unfold children
  cases h₁ : s'.get? x <;> cases h₂ : s.get? x <;> simp_all

theorem contains_eq_of_kindOf {s s' : Store} {x : NodeId} (h : s'.kindOf x = s.kindOf x) :
    s'.contains x = s.contains x := by
  rw [Bool.eq_iff_iff, contains_iff_kindOf, contains_iff_kindOf, h]

theorem isFolder_eq_of_kindOf {s s' : Store} {x : NodeId} (h : s'.kindOf x = s.kindOf x) :
    s'.isFolder x = s.isFolder x := by
  unfold kindOf at h
  unfold isFolder
  cases h₁ : s'.get? x <;> cases h₂ : s.get? x <;> simp_all

theorem isPane_of_form {s : Store} {x : NodeId} {pn : Pane} (h : s.form? x = some (.pane pn)) :
    s.isPane x = true := by
  obtain ⟨xn, hxn, hk⟩ := Option.map_eq_some_iff.mp h
  unfold isPane
  rw [hxn]
  cases hkx : xn.kind <;> simp_all [NodeKind.form, NodeKind.isPane]

theorem isFolder_of_form? {s : Store} {x : NodeId} (h : s.form? x = some .folder) :
    s.isFolder x = true := by
  obtain ⟨n, hn, hk⟩ := Option.map_eq_some_iff.mp h
  rw [isFolder, hn]
  cases hkn : n.kind <;> simp_all [NodeKind.form, NodeKind.isFolder]

theorem contains_discard_self (s : Store) (id : NodeId) : (s.discard id).contains id = false := by
  simp [contains, get?_discard]

/-- The tab a folder shows: the tab at its selected index. -/
def selectedTab (s : Store) (f : NodeId) : Option NodeId :=
  match s.kindOf f with
  | some (.folder cs (some i)) => cs[i]?
  | _ => none

theorem selectedTab_of_get? {s : Store} {f : NodeId} {n : Node} (h : s.get? f = some n) :
    s.selectedTab f = match n.kind with
      | .folder cs (some i) => cs[i]?
      | _ => none := by
  rw [selectedTab, kindOf, h, Option.map_some]
  obtain ⟨-, -, -, k⟩ := n
  cases k with
  | folder cs sel => cases sel <;> rfl
  | _ => rfl

theorem selectedTab_eq_of_kindOf {s s' : Store} {f : NodeId} (h : s'.kindOf f = s.kindOf f) :
    s'.selectedTab f = s.selectedTab f := by
  simp only [selectedTab, h]

theorem selectedTab_mem_held {s : Store} {f t : NodeId} (h : s.selectedTab f = some t) :
    t ∈ s.held f := by
  unfold selectedTab at h
  split at h
  · next cs i hk =>
    obtain ⟨n, hn, hkind⟩ := Option.map_eq_some_iff.mp hk
    rw [held_of_get? hn, hkind]
    exact List.mem_of_getElem? h
  · cases h

theorem exists_kindOf_folder {s : Store} {f : NodeId} (h : s.form? f = some .folder) :
    ∃ cs sel, s.kindOf f = some (.folder cs sel) ∧ s.held f = cs := by
  unfold form? at h
  obtain ⟨⟨_, _, _, k⟩, hf, hk⟩ := Option.map_eq_some_iff.mp h
  cases k with
  | folder cs sel => exact ⟨cs, sel, by simp [kindOf, hf], by simp [held, hf, walkChildren]⟩
  | _ => cases hk

end Store

end Docking
