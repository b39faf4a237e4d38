import Docking.Page.Basic
import Docking.Layout.Zoom
/-!
# Moving activation between parts

`switch` hands activation from one part to another (or to none). It reports the
deactivation, then makes the next part active, asks it for focus, moves it to the tail of
the history and reports the activation; every report says whether the switch was forced.
Asking a part for focus goes with reporting its activation, so the focus requests of a part
are its `activated` events.

When the active part is minimized, `activateNext` hands activation to the most recent part
that is not; when the active part is retired, the part before it in the history takes over.
After the layout changes, `changed` marks the fast views minimized in the history, moves
activation off a minimized part, and reports the change.
-/

namespace Docking

namespace PageM

/-- Hands activation from `previous` to `next`. -/
def switch (previous next : Option (PartId × PartKind)) : PageM Unit := do
  let policy := (← get).controller.policy
  let forced := match next with
    | some n => policy.isForced previous n
    | none => policy != .never
  match previous with
  | some (id, _) => emit (.deactivated id forced)
  | none => pure ()
  match next with
  | some (id, kind) =>
    onController fun c => { c with active := some id }
    onHistory (·.recordActivated id kind)
    emit (.activated id forced)
  | none => onController fun c => { c with active := none }

/-- Gives activation to an owned part; says whether the active part changed. A part that is
already active only moves to the tail of the history; a part the page does not own is
refused. -/
def grant (id : PartId) : PageM Bool := do
  let c := (← get).controller
  match c.kindOf? id with
  | none => pure false
  | some kind =>
    if c.isActive id then
      onHistory (·.recordActivated id kind)
      pure false
    else
      switch c.activeWithKind (some (id, kind))
      pure true

/-- Once the active part is minimized, hands activation to the most recent part that is
not; says whether activation moved. -/
def activateNext : PageM Bool := do
  let p ← get
  match p.controller.activeWithKind with
  | none => pure false
  | some previous =>
    if !p.history.isMinimized previous.1 then pure false
    else
      switch (some previous) (p.history.current.bind p.controller.withKind)
      pure true

/-- Forgets a closed or hidden part and reports it closed. When it was active, the part
before it in the history takes over; gives the part activated instead. A part the page does
not own is refused and nothing changes. -/
def retire (id : PartId) : PageM (Option PartId) := do
  let p ← get
  match p.controller.kindOf? id with
  | none => pure none
  | some kind =>
    let wasActive := p.controller.isActive id
    let next := if wasActive then p.history.previous.bind p.controller.withKind else none
    onHistory fun h => (h.remove id).2
    onController (·.forget id)
    if wasActive then switch (some (id, kind)) next
    emit (.closed id)
    pure (next.map (·.1))

/-- Raises a part's tab without moving activation; refused for a part that is not owned or
not shown, or while the layout is zoomed onto something else. -/
def bringToTop (id : PartId) : PageM Bool := do
  let p ← get
  if !p.controller.isOwned id then return false
  match p.layout.findPane id with
  | none => pure false
  | some n =>
    if !p.layout.isWithinZoom n then pure false
    else
      match ← onLayout (LayoutM.bringToTop id) with
      | .error _ => pure false
      | .ok _ =>
        emit (.broughtToTop id)
        pure true

/-- Brings the history and activation in line with a changed layout, then reports the change:
the zoom first when it began or ended since `wasZoomed`. -/
def changed (wasZoomed : Bool) : PageM Unit := do
  let p ← get
  let marked := p.controller.ownedIds.foldl
    (fun h id => h.setMinimized id (p.layout.isFast id)) p.history
  set { p with history := marked }
  let _ ← activateNext
  let now ← zoomed
  if now != wasZoomed then emit (.zoomChanged now)
  emit .layoutChanged

/-- Runs a layout request; when it succeeds the page catches up with the change, and when it
is refused the answer is none. -/
def mutate {α : Type} (x : LayoutM α) : PageM (Option α) := do
  let wasZoomed ← zoomed
  match ← onLayout x with
  | .ok a =>
    changed wasZoomed
    pure (some a)
  | .error _ => pure none

end PageM

end Docking
