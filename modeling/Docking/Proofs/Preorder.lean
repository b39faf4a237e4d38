import Docking.Proofs.Showing
import Docking.Proofs.Reachable
/-!
# The walk is a pre-order traversal

`Store.walk` lists a subtree with a stack of handles. Over a forest it is the recursive
pre-order walk: the node, then the walks from its children left to right, the node held by a
collapsed container entered only when asked (`Forest.walk_of_get?`, from
`Forest.walk_eq_walkFrom`). The searches built on the walk follow the same recursion:
`findPane` and `findPlaceholder` return the node itself when it matches and otherwise the
first match among its children's subtrees, left to right, and `countPanes` counts the panes
the walk meets.
-/

namespace Docking

namespace Store

variable {s : Store}

@[simp] theorem walkStack_nil (b : Bool) (fuel : Nat) : s.walkStack b fuel [] = [] := by
  cases fuel <;> rfl

theorem walk_of_get?_none {t : NodeId} (ht : s.get? t = none) (b : Bool) : s.walk t b = [] := by
  simp [walk, depthBound, walkStack, ht]

theorem isSome_paneAt (x : NodeId) : (s.paneAt x).isSome = s.isPane x := by
  unfold paneAt isPane
  cases s.get? x with
  | none => rfl
  | some n =>
    obtain ⟨_, _, _, kind⟩ := n
    cases kind <;> rfl

section Forest

variable (hf : s.Forest)
include hf

/-- One level of the walk: the node, then the walks from its children, left to right. -/
theorem Forest.walk_of_get? {t : NodeId} {n : Node} (ht : s.get? t = some n) (b : Bool) :
    s.walk t b = t :: (walkChildren b n.kind).flatMap (s.walk · b) := by
  rw [hf.walk_eq_walkFrom, hf.walkFrom_depthBound_of_get? ht]
  congr 1
  exact List.flatMap_congr fun c _ => (hf.walk_eq_walkFrom c b).symm

theorem Forest.find?_walk {t : NodeId} {n : Node} (ht : s.get? t = some n) (b : Bool)
    (p : NodeId → Bool) :
    (s.walk t b).find? p =
      if p t then some t else (walkChildren b n.kind).findSome? fun c => (s.walk c b).find? p := by
  rw [hf.walk_of_get? ht, List.find?_cons, List.find?_flatMap]
  cases p t <;> rfl

theorem Forest.findPane_of_get? {t : NodeId} {n : Node} (ht : s.get? t = some n)
    (part : PartId) :
    s.findPane t part =
      if n.kind.pane?.map (·.part) = some part then some t
      else (walkChildren false n.kind).findSome? (s.findPane · part) := by
  rw [findPane, hf.find?_walk ht]
  -- the test the search makes on `t` reads its kind
  obtain ⟨_, _, _, kind⟩ := n
  cases kind <;> simp [ht, NodeKind.pane?, findPane]

theorem Forest.findPlaceholder_of_get? {t : NodeId} {n : Node} (ht : s.get? t = some n)
    (part : PartId) :
    s.findPlaceholder t part =
      if n.kind.form = .placeholder part then some t
      else (walkChildren true n.kind).findSome? (s.findPlaceholder · part) := by
  rw [findPlaceholder, hf.find?_walk ht]
  obtain ⟨_, _, _, kind⟩ := n
  cases kind <;> simp [ht, NodeKind.form, findPlaceholder]

theorem Forest.countPanes_eq_countP (t : NodeId) :
    s.countPanes t = (s.walk t false).countP s.isPane := by
  rw [countPanes, ← length_shownParts, ← hf.walk_eq_walkFrom, List.length_filterMap_eq_countP]
  exact List.countP_congr fun x _ => by rw [isSome_paneAt]

end Forest

/-- What the walk from each node of a table is: the recursive pre-order walk, children left to
right and the node under a collapsed container entered only by the walk that asks to, listing
each node of the subtree once; the searches along it return the first match in that order, and
the panes counted below a node are the panes the walk meets. -/
structure PreorderWalk (s : Store) : Prop where
  /-- A handle without a node lists nothing. -/
  missing : ∀ t b, s.get? t = none → s.walk t b = []
  /-- The node first, then the walks from its children in order. -/
  unfold : ∀ t n b, s.get? t = some n →
    s.walk t b = t :: (walkChildren b n.kind).flatMap (s.walk · b)
  nodup : ∀ t b, (s.walk t b).Nodup
  /-- Entering collapsed containers, the walk lists the whole subtree. -/
  mem_true : ∀ t x, x ∈ s.walk t true ↔ s.contains x = true ∧ Under s.parent? t x
  /-- Skipping them, it lists the nodes with no collapsed container between. -/
  mem_false : ∀ t x, x ∈ s.walk t false ↔ s.contains x = true ∧ Under s.parent? t x ∧
    ∀ a, Above s.parent? a x → Under s.parent? t a → s.form? a ≠ some .collapsed
  findPane : ∀ t n part, s.get? t = some n →
    s.findPane t part =
      if n.kind.pane?.map (·.part) = some part then some t
      else (walkChildren false n.kind).findSome? (s.findPane · part)
  findPlaceholder : ∀ t n part, s.get? t = some n →
    s.findPlaceholder t part =
      if n.kind.form = .placeholder part then some t
      else (walkChildren true n.kind).findSome? (s.findPlaceholder · part)
  countPanes : ∀ t, s.countPanes t = (s.walk t false).countP s.isPane

/-- Over a forest the walk with a stack of handles is the pre-order traversal. -/
theorem Forest.walk_preorder (hf : s.Forest) : s.PreorderWalk where
  missing _ _ ht := walk_of_get?_none ht _
  unfold _ _ b ht := hf.walk_of_get? ht b
  nodup := hf.nodup_walk
  mem_true _ _ := hf.mem_walk_iff
  mem_false _ _ := hf.mem_walk_false_iff
  findPane _ _ part ht := hf.findPane_of_get? ht part
  findPlaceholder _ _ part ht := hf.findPlaceholder_of_get? ht part
  countPanes := hf.countPanes_eq_countP

end Store

/-- The table of the layout with one pane added beside the editor area is a forest, and its
walks are pre-order traversals. -/
theorem Store.walk_preorder_withPane :
    let l := (Script.layoutStep ⟨Layout.withEditorArea (Host.fresh true), []⟩
      (.addPane ⟨"A", .view⟩)).2.layout
    l.store.Forest ∧ l.store.PreorderWalk :=
  have hl := (Layout.Reachable.step [] (.addPane ⟨"A", .view⟩)
    (.withEditorArea (Host.fresh true)) fun _ h => by cases h).sound.forest
  ⟨hl, Store.Forest.walk_preorder hl⟩

end Docking
