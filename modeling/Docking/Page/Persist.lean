import Docking.Page.Parts
import Docking.Layout.Save
import Docking.Layout.Restore
/-!
# Saving and restoring a page

A page is saved as a `page` element: the active part under `active`, then the layout and
the activation history as children. Restoring applies a saved page to the parts the page
owns now: saved panes of parts that are not open become placeholders, open parts the
document does not place go to their default position, and the history keeps only owned parts,
with the owned parts it does not mention added as least recent. A layout that cannot be read
back is replaced by the default layout, and the answer says that the document was not applied
in full.
-/

namespace Docking

/-- The saved form of a page. -/
def Page.save (p : Page) : Memento :=
  let m := Memento.empty "page"
  let m := match p.active with
    | some a => m.set "active" (.str a)
    | none => m
  (m.push p.layout.save).push p.history.save

namespace PageM

/-- Adds an owned part's pane at its default position, unless it is shown or a fast view. -/
def placeOwned (id : PartId) : PageM Unit := do
  let p ← get
  if (p.layout.findPane id).isSome || p.layout.isFast id then return
  match p.controller.kindOf? id with
  | none => pure ()
  | some kind =>
    let _ ← onLayout (LayoutM.addPane ⟨id, kind⟩)

/-- Makes a layout the page's layout: the old layout's windows close, panes and fast views
of parts the page does not own go, and owned parts the layout does not show are added. -/
def install (l : Layout) : PageM Unit := do
  modify fun p => { p with layout := p.layout.handOver l }
  let owned := (← get).controller.ownedIds
  let _ ← onLayout (LayoutM.retainPanes owned.contains)
  let stale := (← get).layout.fastViews.filter (!owned.contains ·)
  stale.forM fun id => do
    let _ ← onLayout (LayoutM.clearFast id)
  owned.forM placeOwned

/-- Installs the layout a document describes, or the default layout when it cannot be read
back; says whether the document was used. -/
def loadLayout (saved : Except RestoreError Memento) : PageM Bool := do
  let p ← get
  match saved.bind (Layout.restore p.layout.host) with
  | .ok l =>
    install l
    pure true
  | .error _ =>
    install (Page.defaultLayout p.editorArea p.layout.host)
    pure false

/-- Makes a history the page's history, keeping only owned parts and adding the owned parts
it lacks at its head. -/
def mergeHistory (h : History) : PageM Unit := do
  let c := (← get).controller
  let owned := c.ownedIds
  let add := fun (h : History) (id : PartId) =>
    if h.contains id then h
    else match c.kindOf? id with
      | some kind => h.recordOpened id kind
      | none => h
  onHistory fun _ => owned.foldl add (h.retain owned.contains)

/-- Applies a saved page to the parts the page owns; says whether the document was applied in
full. The saved active part is activated when the page owns it, else the active part stays
active. -/
def restore (m : Memento) : PageM Bool := do
  let wasZoomed ← zoomed
  let complete ← loadLayout (m.requireChild "layout")
  let current := (← get).history
  let (h, complete) := match (m.child? "history").map History.restore with
    | some (.ok h) => (h, complete)
    | some (.error _) => (current, false)
    | none => (current, complete)
  mergeHistory h
  changed wasZoomed
  let c := (← get).controller
  let target := match m.str? "active" with
    | some a => if c.isOwned a then some a else c.active
    | none => c.active
  match target with
  | some t => let _ ← activate t
  | none => pure ()
  pure complete

/-- Replaces the arrangement with a layout document; open parts keep their identity and go
to the document's slot for them, or to their default position. -/
def resetLayout (template : Memento) : PageM Bool := do
  let wasZoomed ← zoomed
  let complete ← loadLayout (.ok template)
  changed wasZoomed
  pure complete

end PageM

end Docking
