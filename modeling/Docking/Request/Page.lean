import Docking.Request.Layout
import Docking.Script.Page
/-!
# Reading page steps

A step of a page script names what it does under `do` and reads its fields in order against
the session it runs on. Beyond nodes and documents, a step reads tokens of deferred work: one
that names a token the script never kept is refused before its other fields are read. Beginning
deferred work reads the name to keep the token under only when the page gives a token, that is
when it owns the part. The queries and layout passes of a layout script are read as in a layout
script, on the page's layout.
-/

namespace Docking

open Request

/-- The steps of a layout script that a page script runs on its layout. -/
def PageSession.layoutSteps : List String :=
  ["layout", "regions", "node", "find_pane", "find_placeholder", "window_of", "window_of_part",
    "is_within_zoom", "panes", "is_fast", "evaluate_drop", "windows"]

def deferredNamed : String → Read DeferredAction :=
  named "action" [("activate", .activate), ("bring_to_top", .bringToTop),
    ("close_editor", .closeEditor), ("hide_view", .hideView)]

/-- The token a step names under `token`. -/
def PageSession.tokenOf (s : PageSession) (j : JsonValue) : Read (String × Token) := do
  let name ← stringAt j "token"
  match Keyed.find? name s.tokens with
  | some t => return (name, t)
  | none => .error .unknownToken

/-- Reads a step of a page script against the session it runs on. -/
def PageSession.readStep (s : PageSession) (j : JsonValue) : Read PageCommand := do
  let l := s.page.layout
  match ← stringAt j "do" with
  | "open_editor" =>
    let id ← stringAt j "id"
    return .openEditor id (← kindOr j "kind" .editor)
  | "show_view" => return .showView (← stringAt j "id")
  | "hide_view" => return .hideView (← stringAt j "id")
  | "close_editor" => return .closeEditor (← stringAt j "id")
  | "activate" => return .activate (← stringAt j "id")
  | "bring_to_top" => return .bringToTop (← stringAt j "id")
  | "toggle_fast_view" => return .toggleFastView (← stringAt j "id")
  | "zoom_in" => return .zoomIn (← stringAt j "id")
  | "is_owned" => return .isOwned (← stringAt j "id")
  | "zoom_out" => return .zoomOut
  | "cycle_editors" => return .cycleEditors (← boolAt j "forward")
  | "move_part" =>
    let id ← stringAt j "id"
    let side ← sideAt j "side"
    return .movePart id side (← stringAt j "ref")
  | "stack" =>
    let id ← stringAt j "id"
    return .stack id (← stringAt j "ref")
  | "detach" =>
    let id ← stringAt j "id"
    return .detach id (← floatRectAt j "at")
  | "resize_sash" =>
    let (n, i, d) ← sashOf l j
    return .resizeSash n i d
  | "drop" =>
    let (src, t, p) ← gestureOf l j
    return .drop src t p
  | "apply_drop" => return .applyDrop (← decision l (← field j "decision"))
  | "set_dirty" =>
    let id ← stringAt j "id"
    return .setDirty id (← boolAt j "dirty")
  | "begin_operation" =>
    let id ← stringAt j "id"
    match s.page.beginOperation id with
    | none => return .beginOperation id none
    | some _ => return .beginOperation id (some (← stringAt j "token"))
  | "cancel" =>
    let (name, _) ← s.tokenOf j
    return .cancel name
  | "complete_operation" =>
    let (_, t) ← s.tokenOf j
    return .completeOperation t (← deferredNamed (← stringAt j "action"))
  | "save_state" => return .saveState (stringOr j "name" "last")
  | "restore_state" => return .restoreState (← document s.documents j)
  | "reset_layout" => return .resetLayout (← document s.documents j)
  | op =>
    if PageSession.layoutSteps.contains op then
      return .onLayout (← LayoutSession.command { layout := l } op j)
    else .error (.unknownStep "page" op)

end Docking
