import Docking.Page.Event
import Docking.Page.Controller
import Docking.Activation.History
import Docking.Instances.Factory
import Docking.Layout.Basic
/-!
# Pages

A page is one arrangement of a workbench window: its layout, the parts it owns and which
of them is active, the recency order of its parts, the factory of its view instances, and
the events it has reported. Requests on a page never fail loudly: a request for a part the
page does not own, or one the layout refuses, is answered with `false` or `none`, and the
layout keeps whatever changed before the refusal.

`PageM` runs requests on a page; `Page.events` collects what they report, oldest first.
-/

namespace Docking

/-- A page: its layout and everything it keeps beside the layout. -/
structure Page where
  layout : Layout
  history : History := {}
  controller : Controller
  factory : Factory
  /-- Whether the page's default layout has an editor area. -/
  editorArea : Bool
  events : List PageEvent := []
  deriving Inhabited

/-- A request on a page. -/
abbrev PageM := StateM Page

namespace Page

/-- A fresh layout for a page, with or without the editor area. -/
def defaultLayout (editorArea : Bool) (host : Host) : Layout :=
  if editorArea then Layout.withEditorArea host else Layout.empty host

/-- A page with nothing open, on a host, building views from a registry. -/
def fresh (policy : ActivationPolicy) (editorArea : Bool) (host : Host) (registry : Registry) :
    Page :=
  { layout := defaultLayout editorArea host, controller := { policy },
    factory := { registry }, editorArea }

/-- The active part. -/
def active (p : Page) : Option PartId := p.controller.active

/-- Whether the layout is zoomed onto a node. -/
def isZoomed (p : Page) : Bool := p.layout.zoomed.isSome

/-- The owned parts that a predicate calls dirty, in key order. -/
def dirtyParts (p : Page) (isDirty : PartId → Bool) : List PartId :=
  p.controller.ownedIds.filter isDirty

end Page

namespace PageM

/-- Reports an event. -/
def emit (e : PageEvent) : PageM Unit :=
  modify fun p => { p with events := p.events ++ [e] }

/-- Changes the history. -/
def onHistory (f : History → History) : PageM Unit :=
  modify fun p => { p with history := f p.history }

/-- Changes the owned parts. -/
def onController (f : Controller → Controller) : PageM Unit :=
  modify fun p => { p with controller := f p.controller }

/-- Runs a layout request; the layout keeps its changes whether or not it is refused. -/
def onLayout {α : Type} (x : LayoutM α) : PageM (Except LayoutError α) := do
  let p ← get
  match x.run p.layout with
  | .ok a l => set { p with layout := l }; pure (.ok a)
  | .error e l => set { p with layout := l }; pure (.error e)

/-- Whether the page owns a part. -/
def owns (id : PartId) : PageM Bool := do return (← get).controller.isOwned id

/-- Whether the layout is zoomed. -/
def zoomed : PageM Bool := do return (← get).isZoomed

end PageM

end Docking
