import Docking.Proofs.Reachable
/-!
# Refused requests undo nothing but their prelude

A refused request keeps the changes it made before it was refused (`Script.request`). Most
requests check everything before they change anything. Those that move a node end the zoom
first, and showing or disposing of a part drops it from the fast views first: that is their
prelude (`LayoutCommand.prelude`). On a reachable layout a refused request leaves the layout
as it found it, or as its prelude made it (`Layout.Reachable.refusedRequestKeepsLayout`): the
node table, the windows, the parked windows and the host are untouched. So a refused move of
a zoomed layout has still ended the zoom.

Two requests are left out. A drop that minimizes hides the source's views one request at a
time, and a later hiding may be refused after earlier ones were carried out. Stacking or
floating a pane or folder that a collapsed node folds (`Store.Folded`) may change the table
before it is refused.
-/

namespace Docking

namespace LayoutCommand

/-- What a command does to a layout before its first check: the requests that move a node end
the zoom, and showing or disposing of a part also drops the part from the fast views. -/
def prelude : LayoutCommand → Layout → Layout
  | .addPane p, l => { l with zoomed := none, fastViews := l.fastViews.filter (· != p.part) }
  | .disposePane part, l => { l with zoomed := none, fastViews := l.fastViews.filter (· != part) }
  | .removePane _, l | .movePane .., l | .moveNode .., l | .stack .., l | .stackNode .., l
  | .detach .., l | .detachNode .., l => { l with zoomed := none }
  | .applyDrop d, l =>
    match d.action with
    | .split .. | .stack _ | .detach _ => { l with zoomed := none }
    | _ => l
  | _, l => l

/-- Whether a command runs one request on the layout: showing, hiding or disposing of a pane,
moving, stacking or floating one, moving a window, zooming in, bringing a tab to the top,
making or showing a fast view, dragging a sash, or carrying out a drop decision other than
minimizing. -/
def isRequest : LayoutCommand → Bool
  | .addPane _ | .removePane _ | .disposePane _ | .movePane .. | .moveNode .. | .stack ..
  | .stackNode .. | .detach .. | .detachNode .. | .moveWindow .. | .zoomIn _ | .zoomNode _
  | .bringToTop _ | .setFast _ | .restoreFast _ | .resizeSash .. => true
  | .applyDrop d => d.action != .minimize
  | _ => false

/-- The node a command puts into a folder or a new window, when the command names it as a
node: stacking or floating a node, and a drop that stacks or floats. -/
def movedInto? : LayoutCommand → Option NodeId
  | .stackNode source _ | .detachNode source _ => some source
  | .applyDrop d =>
    match d.action with
    | .stack _ | .detach _ => some d.source
    | _ => none
  | _ => none

end LayoutCommand

namespace LayoutM

open Layout

variable {l : Layout}

/-- Carrying out a drop decision other than minimizing is refused as the request it names is:
a split as a move, a stack or a float as stacking or floating the source, which must not be a
folded pane or folder, and a window move before anything changes. -/
theorem ends_applyDrop_atomic (hs : l.Sound []) (d : DropDecision) (hd : d.action ≠ .minimize)
    (hfold : ∀ n, (LayoutCommand.applyDrop d).movedInto? = some n → l.store.Movable n →
      ¬ l.store.Folded n) :
    Ends (applyDrop d) l (fun _ _ => True)
      fun _ l' => l' = l ∨ l' = (LayoutCommand.applyDrop d).prelude l := by
  unfold applyDrop
  split
  · trivial
  · next target side heq =>
    rw [ends_bind]
    refine (ends_moveNode_atomic hs _ side target).mono (fun _ _ _ => trivial) fun _ _ h => .inr ?_
    simp only [LayoutCommand.prelude, heq]
    exact h.2 rfl
  · next target heq =>
    have hnf := hfold d.source (by simp only [LayoutCommand.movedInto?, heq])
    rw [ends_bind]
    refine (ends_stackNode_atomic hs _ target).mono (fun _ _ _ => trivial) fun _ _ h => .inr ?_
    simp only [LayoutCommand.prelude, heq]
    exact h.2 hnf
  · next bounds heq =>
    have hnf := hfold d.source (by simp only [LayoutCommand.movedInto?, heq])
    rw [ends_bind]
    refine (ends_detachNode_atomic hs _ bounds).mono (fun _ _ _ => trivial) fun _ _ h => .inr ?_
    simp only [LayoutCommand.prelude, heq]
    exact h.2 hnf
  · next w bounds heq =>
    rw [ends_bind]
    exact (ends_moveWindow hs w bounds).mono (fun _ _ _ => trivial) fun _ _ h => .inl h
  · next heq => exact absurd heq hd

end LayoutM

namespace Script

open Layout LayoutM

variable {l : Layout}

theorem request_refused {α : Type} {x : LayoutM α} {ok : α → Layout → Prop}
    {keep : Layout → Prop} (h : Ends x l ok fun _ l' => keep l') (f : α → Reply) {e : LayoutError}
    (he : (request x f l).1 = .error (.layout e)) : keep (request x f l).2 := by
  unfold request at he ⊢
  cases hx : x.run l with
  | ok a l' =>
    rw [hx] at he
    cases he
  | error e' l' => exact h.run_error hx

/-- One command on a sound layout with no node held out: a refused request leaves the layout
as it found it, or as its prelude made it. -/
theorem layoutStep_refused {s : LayoutSession} (hs : s.layout.Sound []) {c : LayoutCommand}
    (hc : c.isRequest = true)
    (hfold : ∀ n, c.movedInto? = some n → s.layout.store.Movable n → ¬ s.layout.store.Folded n)
    {e : LayoutError} (he : (layoutStep s c).1 = .error (.layout e)) :
    (layoutStep s c).2.layout = s.layout ∨ (layoutStep s c).2.layout = c.prelude s.layout := by
  cases c
  case addPane p => exact (request_refused (ends_addPane_total hs p) .node he).elim
  case removePane part => exact .inr (request_refused (ends_removePane_atomic hs part) .node he).1
  case disposePane part =>
    exact .inr (request_refused (ends_disposePane_atomic hs part) (fun _ => .none) he)
  case movePane part side ref =>
    exact (request_refused (ends_movePane_atomic hs part side ref) (fun _ => .none) he).2 rfl
  case moveNode source side ref =>
    exact .inr ((request_refused (ends_moveNode_atomic hs source side ref) (fun _ => .none) he).2 rfl)
  case stack part ref => exact (request_refused (ends_stack_atomic hs part ref) (fun _ => .none) he).2
  case stackNode source ref =>
    exact .inr ((request_refused (ends_stackNode_atomic hs source ref) (fun _ => .none) he).2
      (hfold source rfl))
  case detach part b => exact (request_refused (ends_detach_atomic hs part b) .maybeWindow he).2
  case detachNode source b =>
    exact .inr ((request_refused (ends_detachNode_atomic hs source b) .maybeWindow he).2
      (hfold source rfl))
  case moveWindow w b => exact .inl (request_refused (ends_moveWindow hs w b) (fun _ => .none) he)
  case zoomIn part => exact .inl (request_refused (ends_zoomIn_atomic hs part) .flag he)
  case zoomNode n => exact .inl (request_refused (ends_zoomNode_atomic hs n) .flag he)
  case bringToTop part => exact .inl (request_refused (ends_bringToTop_atomic hs part) .flag he)
  case setFast part => exact .inl (request_refused (ends_setFast_atomic hs part) (fun _ => .none) he)
  case restoreFast part => exact .inl (request_refused (ends_restoreFast_atomic hs part) .node he)
  case resizeSash n index delta =>
    -- a sash drag reports an overflow as a value, and a refusal as a layout error
    have h := ends_resizeSash_atomic hs n index delta
    revert he
    dsimp only [layoutStep]
    split
    · intro he
      cases he
    · intro he
      cases he
    · next heq => exact fun _ => .inl (h.run_error heq)
  case applyDrop d =>
    have hd : d.action ≠ .minimize := by simpa [LayoutCommand.isRequest] using hc
    exact request_refused (ends_applyDrop_atomic hs d hd hfold) .flag he
  all_goals simp [LayoutCommand.isRequest] at hc

end Script

namespace Layout

/-- A refused request leaves a reachable layout as it found it, or as its prelude made it: the
node table, the windows, the parked windows and the host are those it found, and so are the
zoom and the fast views unless the prelude changed them. Drops that minimize, and stacking or
floating a folded pane or folder, are left out. -/
theorem Reachable.refusedRequestKeepsLayout {l : Layout} (h : l.Reachable)
    (docs : List (String × Memento)) {c : LayoutCommand} (hc : c.isRequest = true)
    (hfold : ∀ n, c.movedInto? = some n → l.store.Movable n → ¬ l.store.Folded n)
    {e : LayoutError} (he : (Script.layoutStep ⟨l, docs⟩ c).1 = .error (.layout e)) :
    (Script.layoutStep ⟨l, docs⟩ c).2.layout = l ∨
      (Script.layoutStep ⟨l, docs⟩ c).2.layout = c.prelude l :=
  Script.layoutStep_refused h.sound hc hfold he

-- Two panes side by side with the first zoomed: docking it against a node that does not exist
-- is refused, but only after the zoom has ended.
example :
    let l := (Script.layoutStep ⟨(Script.layoutStep ⟨(Script.layoutStep
      ⟨Layout.empty (Host.fresh true), []⟩ (.addPane ⟨"A", .view⟩)).2.layout, []⟩
      (.addPane ⟨"B", .view⟩)).2.layout, []⟩ (.zoomIn "A")).2.layout
    (Script.layoutStep ⟨l, []⟩ (.moveNode ⟨1⟩ .left ⟨999⟩)).1 =
        .error (.layout (.unknownNode ⟨999⟩)) ∧
      l.zoomed = some ⟨1⟩ ∧
      (Script.layoutStep ⟨l, []⟩ (.moveNode ⟨1⟩ .left ⟨999⟩)).2.layout.zoomed = none :=
  ⟨rfl, rfl, rfl⟩

end Layout

end Docking
