import Docking.Part
/-!
# Page events

A page tells its subscribers what happened, in order: parts activated and deactivated
(with whether the switch was forced), opened, closed and brought to the top of their
folder, the layout changed, and the zoom began or ended.
-/

namespace Docking

/-- Something a page reports to its subscribers. -/
inductive PageEvent where
  | activated (part : PartId) (forced : Bool)
  | deactivated (part : PartId) (forced : Bool)
  | opened (part : PartId)
  | closed (part : PartId)
  | broughtToTop (part : PartId)
  | layoutChanged
  | zoomChanged (zoomed : Bool)
  deriving DecidableEq, Repr, Inhabited

end Docking
