import Docking.Page.Parts
/-!
# Deferred operations

Work that finishes after the request that started it, such as a save, carries a token: the
part it is for and the part's ownership stamp when it began. When the work comes back the
token is checked again. A cancelled token, or one whose part was closed or opened again in
the meantime (its stamp changed), leaves the page as it is.
-/

namespace Docking

/-- A token for work on a part that completes later. -/
structure Token where
  part : PartId
  stamp : Nat
  cancelled : Bool := false
  deriving DecidableEq, Repr, Inhabited

/-- What to do with the token's part once the work is done. -/
inductive DeferredAction where
  | activate
  | bringToTop
  | closeEditor
  | hideView
  deriving DecidableEq, Repr, Inhabited

/-- A token for work on an owned part; none for a part the page does not own. -/
def Page.beginOperation (p : Page) (id : PartId) : Option Token :=
  (p.controller.stamp? id).map fun stamp => { part := id, stamp }

namespace PageM

/-- Finishes deferred work with an action on the token's part; says whether the action was
carried out and what it answered. -/
def completeOperation (t : Token) (action : DeferredAction) : PageM Bool := do
  if t.cancelled then return false
  if !(← get).controller.holds t.part t.stamp then return false
  match action with
  | .activate => activate t.part
  | .bringToTop => bringToTop t.part
  | .closeEditor => closeEditor t.part
  | .hideView => hideView t.part

end PageM

end Docking
