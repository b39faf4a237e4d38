import Docking.Script.Layout
import Docking.Page.Operation
import Docking.Page.Persist
/-!
# Page scripts

A page script drives one page command by command. Beside the page it keeps what the parts
and the embedding application hold: a dirty flag per part id, how many times each part was
asked for focus, how many times a view was built for each requested id, the saved documents
by name, and the tokens of deferred work by name. The events of a step are the ones the page
reports while it runs: none for a step refused when read.

The read-only queries of a layout script (and its layout passes) also run on a page's layout.
-/

namespace Docking

/-- A command of a page script. -/
inductive PageCommand where
  | openEditor (part : PartId) (kind : PartKind)
  | showView (part : PartId)
  | hideView (part : PartId)
  | closeEditor (part : PartId)
  | activate (part : PartId)
  | bringToTop (part : PartId)
  | toggleFastView (part : PartId)
  | zoomIn (part : PartId)
  | isOwned (part : PartId)
  | zoomOut
  | cycleEditors (forward : Bool)
  | movePart (part : PartId) (side : Side) (reference : PartId)
  | stack (part reference : PartId)
  | detach (part : PartId) (bounds : FloatRect)
  | resizeSash (split : NodeId) (index : Nat) (delta : Int)
  | drop (source : NodeId) (target : DropTarget) (pointer : PointerSpec)
  | applyDrop (decision : DropDecision)
  | setDirty (part : PartId) (dirty : Bool)
  /-- Begins deferred work on a part, keeping the page's token, when it gives one, under a name. -/
  | beginOperation (part : PartId) (keepAs : Option String)
  | cancel (token : String)
  | completeOperation (token : Token) (action : DeferredAction)
  | saveState (name : String)
  | restoreState (doc : Memento)
  | resetLayout (doc : Memento)
  /-- A query or layout pass of a layout script, run on the page's layout. -/
  | onLayout (c : LayoutCommand)
  deriving Inhabited

/-- A page with what its script keeps beside it. -/
structure PageSession where
  page : Page
  /-- The part ids whose dirty flag is set, in key order. -/
  dirty : List PartId := []
  /-- How many times each part id was asked for focus, in key order. -/
  focus : List (String × Nat) := []
  /-- How many times a construction ran for each requested view id, in key order. -/
  built : List (String × Nat) := []
  documents : List (String × Memento) := []
  tokens : List (String × Token) := []
  deriving Inhabited

namespace PageSession

/-- A fresh page session. -/
def start (policy : ActivationPolicy) (editorArea floating : Bool) (registry : Registry) :
    PageSession :=
  { page := Page.fresh policy editorArea (Host.fresh floating) registry }

/-- The owned parts whose dirty flag is set, in key order. -/
def dirtyParts (s : PageSession) : List PartId := s.page.dirtyParts s.dirty.contains

/-- The session before a step: the page's events are those of the step to come. -/
def clearEvents (s : PageSession) : PageSession := { s with page := { s.page with events := [] } }

/-- Counts the focus requests that go with the activations among a command's events. -/
def countFocus (focus : List (String × Nat)) (events : List PageEvent) : List (String × Nat) :=
  events.foldl (fun acc e => match e with
    | .activated id _ => Keyed.bump id acc
    | _ => acc) focus

end PageSession

namespace Script

/-- Runs a page request, answering with what it gives. -/
def onPage {α : Type} (s : PageSession) (x : PageM α) (f : α → Reply) :
    Except Fault Reply × PageSession :=
  let (a, p) := x.run s.page
  (.ok (f a), { s with page := p })

/-- Runs one command of a page script, before its events are counted. -/
def pageCommand (s : PageSession) (c : PageCommand) : Except Fault Reply × PageSession :=
  let l := s.page.layout
  match c with
  | .openEditor part kind => onPage s (PageM.openEditor part kind) .flag
  | .showView part =>
    let built := if s.page.factory.constructs part then Keyed.bump part s.built else s.built
    let (r, p) := (PageM.showView part).run s.page
    let s := { s with page := p, built }
    match r with
    | .ok i => (.ok (.inst i), s)
    | .error e => (.error (.creation e), s)
  | .hideView part => onPage s (PageM.hideView part) .flag
  | .closeEditor part => onPage s (PageM.closeEditor part) .flag
  | .activate part => onPage s (PageM.activate part) .flag
  | .bringToTop part => onPage s (PageM.bringToTop part) .flag
  | .toggleFastView part => onPage s (PageM.toggleFastView part) .flag
  | .zoomIn part => onPage s (PageM.zoomIn part) .flag
  | .isOwned part => (.ok (.flag (s.page.controller.isOwned part)), s)
  | .zoomOut => onPage s PageM.zoomOut .flag
  | .cycleEditors forward => onPage s (PageM.cycleEditors forward) .maybePart
  | .movePart part side ref => onPage s (PageM.movePart part side ref) .flag
  | .stack part ref => onPage s (PageM.stack part ref) .flag
  | .detach part b => onPage s (PageM.detach part b) .maybeWindow
  | .resizeSash n index delta =>
    let (r, p) := (PageM.resizeSash n index delta).run s.page
    let s := { s with page := p }
    match r with
    | .ok b => (.ok (.flag b), s)
    | .error o => (.error (.overflow o), s)
  | .drop src t pointer =>
    match pointerAt l t pointer >>= fun p => (l.evaluateDrop src t p).mapError .overflow with
    | .error e => (.error e, s)
    | .ok d => onPage s (PageM.applyDrop d) (.droppedOnPage d)
  | .applyDrop d => onPage s (PageM.applyDrop d) .flag
  | .setDirty part b =>
    (.ok .none, { s with dirty := if b then Keyed.insertKey part s.dirty else s.dirty.filter (· != part) })
  | .beginOperation part keepAs =>
    match s.page.beginOperation part, keepAs with
    | some t, some name => (.ok (.flag true), { s with tokens := Keyed.insert name t s.tokens })
    | some _, none => (.ok (.flag true), s)
    | none, _ => (.ok (.flag false), s)
  | .cancel name =>
    (.ok .none, { s with tokens := Keyed.modify name (fun t => { t with cancelled := true }) s.tokens })
  | .completeOperation t action => onPage s (PageM.completeOperation t action) .flag
  | .saveState name =>
    let m := s.page.save
    (.ok (.memento m), { s with documents := Keyed.insert name m s.documents })
  | .restoreState m => onPage s (PageM.restore m) .flag
  | .resetLayout m => onPage s (PageM.resetLayout m) .flag
  | .onLayout c =>
    let (r, ls) := layoutStep { layout := l } c
    (r, { s with page := { s.page with layout := ls.layout } })

/-- Runs one command of a page script: the parts activated by it were asked for focus. -/
def pageStep (s : PageSession) (c : PageCommand) : Except Fault Reply × PageSession :=
  let (r, s) := pageCommand s c
  (r, { s with focus := PageSession.countFocus s.focus s.page.events })

end Script

end Docking
