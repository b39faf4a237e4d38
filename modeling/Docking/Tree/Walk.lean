import Docking.Tree.Store
/-!
# Walking the node table

Walks down a subtree in pre-order, counts the panes below a node, climbs to a window root,
tests ancestry and frees whole subtrees. The walk that lists a subtree keeps its own stack of
handles; the other walks recurse.

Each walk goes down or up at most as many levels as the table has slots: in a forest a
path from a node to its root, or from a root down to a node, visits each node at most once.
The walks therefore take the table's size as their bound (`Store.depthBound`), and the
public functions hide it.
-/

namespace Docking

namespace Store

/-- A bound on the length of every path of the forest kept in the table. -/
def depthBound (s : Store) : Nat := s.slots.size + 1

/-- The children a walk goes into: a collapsed container is entered only when asked. -/
def walkChildren (intoCollapsed : Bool) : NodeKind → List NodeId
  | .folder cs _ => cs
  | .split _ cs _ => cs
  | .collapsed inner => if intoCollapsed then [inner] else []
  | _ => []

/-- The pre-order walk from `id` read as a recursion, at most `fuel` levels deep: the node,
then the walks from its children in order; a handle without a node lists nothing. -/
def walkFrom (s : Store) (intoCollapsed : Bool) : Nat → NodeId → List NodeId
  | 0, _ => []
  | fuel + 1, id =>
    match s.get? id with
    | none => []
    | some n => id :: (walkChildren intoCollapsed n.kind).flatMap (s.walkFrom intoCollapsed fuel)

/-- The loop of a walk over a stack of handles, its top first: it pops the top, lists the node
and pushes the node's children so that the first child comes off next; a handle without a node
is dropped. At most `fuel` pops. -/
def walkStack (s : Store) (intoCollapsed : Bool) : Nat → List NodeId → List NodeId
  | 0, _ => []
  | _ + 1, [] => []
  | fuel + 1, id :: stack =>
    match s.get? id with
    | none => s.walkStack intoCollapsed fuel stack
    | some n => id :: s.walkStack intoCollapsed fuel (walkChildren intoCollapsed n.kind ++ stack)

/-- The nodes of the subtree under `root`, in pre-order (each container before its children,
children in order), listed by a stack that starts with `root`. With `intoCollapsed` the walk
also enters collapsed containers. In a forest each node is pushed at most once, so the walk
pops at most as many handles as the table has slots, and one more. -/
def walk (s : Store) (root : NodeId) (intoCollapsed : Bool) : List NodeId :=
  s.walkStack intoCollapsed s.depthBound [root]

/-- The pane of a part in the subtree under `root`, not looking into collapsed containers. -/
def findPane (s : Store) (root : NodeId) (part : PartId) : Option NodeId :=
  (s.walk root false).find? fun id =>
    match s.get? id with
    | some { kind := .pane p, .. } => p.part == part
    | _ => false

/-- The placeholder of a part in the subtree under `root`, collapsed containers included. -/
def findPlaceholder (s : Store) (root : NodeId) (part : PartId) : Option NodeId :=
  (s.walk root true).find? fun id =>
    match s.get? id with
    | some { kind := .placeholder q, .. } => q == part
    | _ => false

/-- The panes below `id`, at most `fuel` levels deep. Placeholders and collapsed containers
hold none; a folder or a split holds what its children hold, added up. -/
def panesBelow (s : Store) : Nat → NodeId → Nat
  | 0, _ => 0
  | fuel + 1, id =>
    match s.get? id with
    | some { kind := .pane _, .. } => 1
    | some { kind := .folder cs _, .. } => (cs.map (s.panesBelow fuel)).foldr (· + ·) 0
    | some { kind := .split _ cs _, .. } => (cs.map (s.panesBelow fuel)).foldr (· + ·) 0
    | _ => 0

/-- The number of panes shown below a node (the node itself if it is a pane). -/
def countPanes (s : Store) (id : NodeId) : Nat :=
  s.panesBelow s.depthBound id

/-- Whether a pane is shown below a node. -/
def hasPane (s : Store) (id : NodeId) : Bool := s.countPanes id > 0

/-- Climbs from `id` through its containers, at most `fuel` steps. -/
def climb (s : Store) : Nat → NodeId → NodeId
  | 0, id => id
  | fuel + 1, id =>
    match s.parent? id with
    | some p => s.climb fuel p
    | none => id

/-- The root of the window a node is in, found by climbing through its containers
(collapsed ones included). -/
def rootOf (s : Store) (id : NodeId) : NodeId := s.climb s.depthBound id

/-- Whether `ancestor` is met climbing up from `id`'s container, at most `fuel` steps. -/
def meets (s : Store) (ancestor : NodeId) : Nat → Option NodeId → Bool
  | 0, _ => false
  | _, none => false
  | fuel + 1, some n => n == ancestor || s.meets ancestor fuel (s.parent? n)

/-- Whether `ancestor` is a strict ancestor of `id`. -/
def isAncestor (s : Store) (ancestor id : NodeId) : Bool :=
  s.meets ancestor s.depthBound (s.parent? id)

/-- Drops the node `id` and everything below it, collapsed containers included, at most
`fuel` levels deep. -/
def freeFrom (s : Store) : Nat → NodeId → Store
  | 0, _ => s
  | fuel + 1, id =>
    match s.get? id with
    | none => s
    | some n =>
      (walkChildren true n.kind).foldl (fun acc c => acc.freeFrom fuel c) (s.discard id)

/-- Drops a node and its whole subtree. -/
def free (s : Store) (id : NodeId) : Store := s.freeFrom s.depthBound id

end Store

end Docking
