import Docking.Layout.Save
/-!
# Restoring a layout

`Layout.restore` builds a layout from a `layout` memento on a host. Nodes get fresh handles
in the order they are read: a container before its children, the node folded by a
collapsed container before the collapsed container itself. The `main` element must hold a
split first; every detached window must hold a folder first; each element must carry the
keys its type needs, with values of the right type and range.

Nothing touches the host until the whole document has been read: then the detached windows
reopen in order. A window the host refuses, and every parked window, comes back parked with
its panes turned into placeholders. A zoom is kept only on a node of a shown window.
-/

namespace Docking

/-- The state of a layout being read back: the table so far and the marked nodes. -/
structure Builder where
  store : Store := {}
  editorArea : Option NodeId := none
  zoomed : Option NodeId := none

/-- Reading a document into a builder; the first fault ends it. -/
abbrev BuildM := StateT Builder (Except RestoreError)

namespace Builder

/-- Fails the reading. -/
def fail {α : Type} (e : RestoreError) : BuildM α := fun _ => .error e

/-- Lifts a checked read of the document. -/
def read {α : Type} (x : Except RestoreError α) : BuildM α := fun b =>
  match x with
  | .ok a => .ok (a, b)
  | .error e => .error e

/-- Adds a node. -/
def alloc (ident : String) (kind : NodeKind) : BuildM NodeId := fun b =>
  let (id, s) := b.store.alloc ident kind
  .ok (id, { b with store := s })

/-- Edits the table; a refused edit is an invalid `children` of the element `m`. -/
def edit (m : Memento) (f : Store → Except LayoutError Store) : BuildM Unit := fun b =>
  match f b.store with
  | .ok s => .ok ((), { b with store := s })
  | .error _ => .error (.invalidValue m.kind "children")

/-- The bounds saved on an element: none at all, or all four values in range. -/
def savedRect (m : Memento) : Except RestoreError Rect := do
  if (m.get? "x").isNone then return Rect.zero
  let x ← m.requireU16 "x"
  let y ← m.requireU16 "y"
  let w ← m.requireU16 "width"
  let h ← m.requireU16 "height"
  pure (Rect.clamped x y w h)

/-- The weight a split's child was saved with: the default when none is saved, else a
positive share of `weightScale`. -/
def savedWeight (c : Memento) : Except RestoreError Float32 :=
  match c.int? "weight" with
  | none => .ok defaultWeight
  | some share => if share > 0 then .ok (Float32.ofInt share / weightScale)
      else .error (.invalidValue c.kind "weight")

/-- The orientation saved on a split. -/
def savedOrientation (m : Memento) : Except RestoreError Orientation := do
  match Orientation.ofLetter? (← m.requireStr "orientation") with
  | some o => pure o
  | none => throw (.invalidValue m.kind "orientation")

/-- The kind saved on a pane. -/
def savedKind (m : Memento) : Except RestoreError PartKind := do
  match PartKind.parse? (← m.requireStr "kind") with
  | some k => pure k
  | none => throw (.invalidValue m.kind "kind")

/-- The index a folder saved as selected, if it is a position. -/
def savedSelection (m : Memento) : Option Nat :=
  match m.int? "selected" with
  | some i => if 0 ≤ i then some i.toNat else none
  | none => none

mutual

/-- Reads a node and everything below it; gives its handle. -/
def node : Memento → BuildM NodeId
  | m@⟨kind, _, children⟩ => do
    let ident ← read (m.requireStr "ident")
    let id ← match kind with
      | "pane" => do
        let part ← read (m.requireStr "part")
        let k ← read (savedKind m)
        alloc ident (.pane ⟨part, k⟩)
      | "placeholder" => do
        let part ← read (m.requireStr "part")
        alloc ident (.placeholder part)
      | "collapsed" => do
        let inner ← first m children
        let id ← alloc ident (.collapsed inner)
        edit m (·.setParent inner (some id))
        pure id
      | "folder" => do
        let id ← alloc ident .emptyFolder
        tabs m id children
        let b ← get
        match (savedSelection m).bind fun i => (b.store.children id)[i]? with
        | some sel => set { b with store := (b.store.select sel).2 }
        | none => pure ()
        modify fun b => { b with store := b.store.fixSelection id }
        pure id
      | "split" => do
        let o ← read (savedOrientation m)
        let id ← alloc ident (.emptySplit o)
        slots m id children
        pure id
      | other => fail (.unknownNodeType other)
    let r ← read (savedRect m)
    modify fun b => { b with store := b.store.setBounds id r }
    if m.bool? "editor-area" == some true then modify fun b => { b with editorArea := some id }
    if m.bool? "zoomed" == some true then modify fun b => { b with zoomed := some id }
    pure id

/-- Reads the first child of a collapsed container. -/
def first (m : Memento) : List Memento → BuildM NodeId
  | [] => fail (.missingChild m.kind "node")
  | c :: _ => node c

/-- Reads the tabs of a folder, in order. -/
def tabs (m : Memento) (folder : NodeId) : List Memento → BuildM Unit
  | [] => pure ()
  | c :: rest => do
    let child ← node c
    edit m (·.pushChild folder child)
    tabs m folder rest

/-- Reads the children of a split with their weights, in order. -/
def slots (m : Memento) (split : NodeId) : List Memento → BuildM Unit
  | [] => pure ()
  | c :: rest => do
    let w ← read (savedWeight c)
    let child ← node c
    edit m fun s => s.insertChild split (s.children split).length child w
    slots m split rest

end

end Builder

/-- The bounds saved on a window element. -/
def savedFloatRect (m : Memento) : Except RestoreError FloatRect := do
  let x ← m.requireI32 "x"
  let y ← m.requireI32 "y"
  let w ← m.requireU16 "width"
  let h ← m.requireU16 "height"
  pure ⟨x, y, w, h⟩

/-- The folder element a window element holds first. -/
def savedFolder (m : Memento) : Except RestoreError Memento :=
  match m.children with
  | c :: _ => if c.kind == "folder" then .ok c else .error (.missingChild m.kind "folder")
  | [] => .error (.missingChild m.kind "folder")

namespace Layout

/-- Turns the panes of a folder into placeholders of their parts. -/
def parkPanes (l : Layout) (folder : NodeId) : Layout :=
  (l.store.children folder).foldl (fun l child =>
    match (l.store.get? child).bind (·.kind.pane?) with
    | none => l
    | some p =>
      let (holder, s) := l.store.alloc p.part (.placeholder p.part)
      match s.replaceChild folder child holder with
      | .ok s => { l with store := s.free child }
      | .error _ => { l with store := s.discard holder }) l

/-- Reopens a restored window, or parks it when it was parked or the host refuses it. -/
def reopen (l : Layout) (folder : NodeId) (bounds : FloatRect) (parked : Bool) : Layout :=
  let l := if parked then (false, l) else
    match (LayoutM.openWindow folder bounds).run l with
    | .ok w l' => (w.isSome, l')
    | .error _ l' => (false, l')
  if l.1 then l.2
  else
    let l := l.2.parkPanes folder
    { l with parked := l.parked ++ [⟨bounds, folder⟩] }

/-- Builds a layout from a `layout` memento, on a host. -/
def restore (host : Host) (m : Memento) : Except RestoreError Layout := do
  let main ← m.requireChild "main"
  let rootSaved ← match main.children with
    | [] => throw (.missingChild main.kind "split")
    | c :: _ => pure c
  if rootSaved.kind != "split" then throw (.invalidValue main.kind "type")
  let (root, b) ← (Builder.node rootSaved).run {}
  let saved := (m.childrenOf "detached").map (·, false) ++
    (m.childrenOf "detached-placeholder").map (·, true)
  let (windows, b) ← saved.foldlM (fun (acc, b) (w, parked) => do
      let bounds ← savedFloatRect w
      let folderSaved ← savedFolder w
      let (folder, b) ← (Builder.node folderSaved).run b
      pure (acc ++ [(folder, bounds, parked)], b)) (([] : List (NodeId × FloatRect × Bool)), b)
  let fast ← (m.childrenOf "fast").mapM (·.requireStr "part")
  let l : Layout :=
    { store := b.store
      root := root
      editorArea := b.editorArea
      windows := []
      parked := []
      nextWindow := 0
      zoomed := none
      fastViews := fast
      host := host }
  let l := windows.foldl (fun l (folder, bounds, parked) => l.reopen folder bounds parked) l
  pure { l with zoomed := b.zoomed.filter fun z => (l.windowOf z).isSome }

/-- Puts a layout in the place of an older one on the same host: the new layout's windows
are already open, and the older layout's windows close. -/
def handOver (old new : Layout) : Layout :=
  let closed := match LayoutM.closeWindows.run { old with host := new.host } with
    | .ok _ c => c.host
    | .error _ c => c.host
  { new with host := closed }

end Layout

end Docking
