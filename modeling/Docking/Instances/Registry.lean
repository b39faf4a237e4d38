import Docking.Keyed
import Docking.Part
/-!
# Part instances and the view registry

A part instance is a live editor or view: it reports an id and a kind. Views are built by
the registry, which maps a primary id to a descriptor: the kind of the views it builds and
how its construction goes. A construction builds an instance with the requested id, fails
with a reason, or builds an instance that reports another id. Lookups go by the primary id,
so `view.console:2` is built by the descriptor of `view.console`.

`CreationError` says why a view could not be had; `CreationError.message` is its text.
-/

namespace Docking

/-- A live part: the id it reports and its kind. -/
structure Instance where
  id : PartId
  kind : PartKind
  deriving DecidableEq, Repr, Inhabited

/-- How a descriptor's construction goes. -/
inductive Construction where
  /-- An instance with the requested id. -/
  | builds
  /-- A failure with a reason. -/
  | fails (reason : String)
  /-- An instance that reports the given id. -/
  | misreports (reported : PartId)
  deriving DecidableEq, Repr, Inhabited

/-- What the registry knows of a view type. -/
structure Descriptor where
  kind : PartKind
  construction : Construction
  deriving DecidableEq, Repr, Inhabited

/-- Descriptors by primary id, in key order. -/
structure Registry where
  descriptors : List (String × Descriptor) := []
  deriving DecidableEq, Repr, Inhabited

namespace Registry

/-- Registers a descriptor under a primary id, replacing an earlier one. -/
def register (r : Registry) (primary : String) (d : Descriptor) : Registry :=
  ⟨Keyed.insert primary d r.descriptors⟩

/-- The descriptor for a part id, found by its primary id. -/
def descriptor? (r : Registry) (id : PartId) : Option Descriptor :=
  Keyed.find? id.primary r.descriptors

/-- Runs the construction for a part id: `none` when no descriptor matches, else the
instance or the reason it failed. -/
def construct (r : Registry) (id : PartId) : Option (Except String Instance) :=
  (r.descriptor? id).map fun d =>
    match d.construction with
    | .builds => .ok ⟨id, d.kind⟩
    | .fails reason => .error reason
    | .misreports reported => .ok ⟨reported, d.kind⟩

end Registry

/-- Why a view could not be had. -/
inductive CreationError where
  | unknownView (id : PartId)
  | failed (id : PartId) (reason : String)
  | identityMismatch (requested reported : PartId)
  deriving DecidableEq, Repr, Inhabited

/-- The text of a creation error. -/
def CreationError.message : CreationError → String
  | .unknownView id => "no view is registered for `" ++ id ++ "`"
  | .failed id reason => "could not open view `" ++ id ++ "`: " ++ reason
  | .identityMismatch requested reported =>
    "view requested as `" ++ requested ++ "` reported identity `" ++ reported ++ "`"

end Docking
