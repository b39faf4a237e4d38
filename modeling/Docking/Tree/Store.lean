import Docking.Layout.Error
import Docking.Geometry.Weights
/-!
# The node table

Every layout node of a page, across all of its windows, lives in one table. A handle is
a position in the table: a new node goes at the end, so the next handle is the table's
size and no handle is ever given out twice; a freed node leaves an empty slot.

Containers own their children through their child lists; the link to the container is a
plain handle for walking up. The operations here keep the two in step: a child placed in
a container gets the container as its link, and a child taken out loses it. A tab folder's
selected index is kept on a visible tab by `fixSelection` after every change of its tabs.
-/

namespace Docking

/-- The table of layout nodes, indexed by handle. -/
structure Store where
  slots : Array (Option Node) := #[]
  deriving Inhabited

namespace Store

/-- The node with a handle, if it is in the table. -/
def get? (s : Store) (id : NodeId) : Option Node :=
  match s.slots[id.val]? with
  | some (some n) => some n
  | _ => none

/-- Whether a handle names a node. -/
def contains (s : Store) (id : NodeId) : Bool := (s.get? id).isSome

/-- The node with a handle, which must be in the table. -/
def node (s : Store) (id : NodeId) : Except LayoutError Node :=
  match s.get? id with
  | some n => .ok n
  | none => .error (.unknownNode id)

/-- The handle the next new node gets. -/
def nextId (s : Store) : NodeId := ⟨s.slots.size⟩

/-- Adds a fresh node; returns its handle. -/
def alloc (s : Store) (ident : String) (kind : NodeKind) : NodeId × Store :=
  (s.nextId, ⟨s.slots.push (some (Node.fresh ident kind))⟩)

/-- Adds a fresh container whose identity is made from its kind and handle, such as
`folder-7`. -/
def allocContainer (s : Store) (kind : NodeKind) : NodeId × Store :=
  let prefix_ := match kind with
    | .folder .. => "folder"
    | .split .. => "split"
    | _ => "node"
  s.alloc (prefix_ ++ "-" ++ toString s.nextId.val) kind

/-- Changes the node with a handle; a handle without a node changes nothing. -/
def modify (s : Store) (id : NodeId) (f : Node → Node) : Store :=
  ⟨s.slots.modify id.val (·.map f)⟩

/-- Drops a single node, leaving its children in the table. -/
def discard (s : Store) (id : NodeId) : Store :=
  ⟨s.slots.modify id.val (fun _ => none)⟩

/-- The container of a node. -/
def parent? (s : Store) (id : NodeId) : Option NodeId :=
  (s.get? id).bind (·.parent)

/-- The children a node shows; none for a node not in the table. -/
def children (s : Store) (id : NodeId) : List NodeId :=
  match s.get? id with
  | some n => n.kind.children
  | none => []

/-- Whether the node with a handle is a pane. -/
def isPane (s : Store) (id : NodeId) : Bool :=
  match s.get? id with
  | some n => n.kind.isPane
  | none => false

/-- Whether the node with a handle is a tab folder. -/
def isFolder (s : Store) (id : NodeId) : Bool :=
  match s.get? id with
  | some n => n.kind.isFolder
  | none => false

/-- Sets the container link of a node, which must be in the table. -/
def setParent (s : Store) (id : NodeId) (p : Option NodeId) : Except LayoutError Store := do
  let _ ← s.node id
  pure (s.modify id fun n => { n with parent := p })

/-- Sets the kind (and so the children) of a node. -/
def setKind (s : Store) (id : NodeId) (k : NodeKind) : Store :=
  s.modify id fun n => { n with kind := k }

/-- Sets the bounds of a node. -/
def setBounds (s : Store) (id : NodeId) (r : Rect) : Store :=
  s.modify id fun n => { n with bounds := r }

/-- The position of `child` among the children of `parent`: a collapsed container sits at
position 0 of the node that folds it. -/
def childIndex (s : Store) (parent child : NodeId) : Except LayoutError Nat := do
  let p ← s.node parent
  match p.kind with
  | .collapsed inner => if inner = child then return 0 else throw (.orphan child)
  | k =>
    match k.children.idxOf? child with
    | some i => pure i
    | none => throw (.orphan child)

/-- The first index, searching from `start` down to `0` and then up from `start + 1`, whose
tab is visible. -/
def pickVisible (visible : List Bool) (start : Nat) : Option Nat :=
  ((List.range (start + 1)).reverse ++ (List.range visible.length).drop (start + 1)).find?
    fun i => visible.getD i false

/-- The selection a folder should have: the old one while it is a visible tab, else the
nearest visible tab at or before it, else the first visible one after it. -/
def nextSelection (visible : List Bool) (selected : Option Nat) : Option Nat :=
  match selected with
  | some i => if visible.getD i false then some i else
      if visible.isEmpty then none else pickVisible visible (min i (visible.length - 1))
  | none => if visible.isEmpty then none else pickVisible visible 0

/-- Keeps a folder's selection on a visible tab; a tab is visible when its node is a pane. -/
def fixSelection (s : Store) (folder : NodeId) : Store :=
  match s.get? folder with
  | some { kind := .folder cs sel, .. } =>
    let visible := cs.map s.isPane
    s.setKind folder (.folder cs (nextSelection visible sel))
  | _ => s

/-- Puts `new` into the slot `old` holds in `parent`, keeping the order of the siblings and
the weight of the slot. -/
def replaceChild (s : Store) (parent old new : NodeId) : Except LayoutError Store := do
  let index ← s.childIndex parent old
  if !s.contains new then throw (.unknownNode new)
  let p ← s.node parent
  let kind ← match p.kind with
    | .folder cs sel => pure (NodeKind.folder (cs.set index new) sel)
    | .split o cs ws => pure (.split o (cs.set index new) ws)
    | .collapsed _ => pure (.collapsed new)
    | _ => throw (.invalidTarget parent)
  let s := s.setKind parent kind
  let s ← s.setParent old none
  let s ← s.setParent new (some parent)
  pure (s.fixSelection parent)

/-- Inserts `child` into `parent` at `index` (at most the end); a split gives it `weight`,
and a folder keeps its selection on the same tab. -/
def insertChild (s : Store) (parent : NodeId) (index : Nat) (child : NodeId) (weight : Float32) :
    Except LayoutError Store := do
  if !s.contains child then throw (.unknownNode child)
  let p ← s.node parent
  let kind ← match p.kind with
    | .folder cs sel =>
      let i := min index cs.length
      let sel' := match sel with
        | some c => if i ≤ c then some (c + 1) else some c
        | none => none
      pure (NodeKind.folder (cs.insertIdx i child) sel')
    | .split o cs ws =>
      let i := min index cs.length
      pure (.split o (cs.insertIdx i child) (ws.insertIdx (min i ws.length) weight))
    | _ => throw (.invalidTarget parent)
  let s := s.setKind parent kind
  let s ← s.setParent child (some parent)
  pure (s.fixSelection parent)

/-- Appends `child` to `parent`; in a split it gets the mean of the weights there. -/
def pushChild (s : Store) (parent child : NodeId) : Except LayoutError Store := do
  let p ← s.node parent
  s.insertChild parent p.kind.children.length child (meanWeight p.kind.weights)

/-- The selection of a folder after its tab at `index` was taken out, `count` tabs staying. -/
def selectionAfterRemoval (count index : Nat) : Option Nat → Option Nat
  | sel => if count = 0 then none else
      match sel with
      | some c => if index < c then some (c - 1) else if c = index then some (index - 1) else some c
      | none => none

/-- Takes `child` out of `parent`; returns the weight its slot held in a split (the default
weight elsewhere). -/
def removeChild (s : Store) (parent child : NodeId) : Except LayoutError (Float32 × Store) := do
  let index ← s.childIndex parent child
  let p ← s.node parent
  let (kind, weight) ← match p.kind with
    | .folder cs sel =>
      let cs' := cs.eraseIdx index
      pure (NodeKind.folder cs' (selectionAfterRemoval cs'.length index sel), defaultWeight)
    | .split o cs ws =>
      pure (.split o (cs.eraseIdx index) (ws.eraseIdx index), ws.getD index defaultWeight)
    | _ => throw (.invalidTarget parent)
  let s := s.setKind parent kind
  let s ← s.setParent child none
  pure (weight, s.fixSelection parent)

/-- Selects `child` in its folder; says whether the selection changed. -/
def select (s : Store) (child : NodeId) : Bool × Store :=
  match s.parent? child with
  | none => (false, s)
  | some parent =>
    match s.childIndex parent child with
    | .error _ => (false, s)
    | .ok index =>
      match s.get? parent with
      | some { kind := .folder cs sel, .. } =>
        if sel = some index then (false, s)
        else (true, s.setKind parent (.folder cs (some index)))
      | _ => (false, s)

end Store

end Docking
