import Docking.Part
/-!
# When an activation switch is forced

A forced switch tears the action bars down and builds them again; an unforced one only
toggles what they enable. The first activation of a page is forced unless the policy is
`never`; after that `kindChange` forces a switch between an editor and a view,
`typeChange` also one between two descriptors (primary ids), and `always` and `never`
say what their names say.
-/

namespace Docking

/-- When an activation switch is reported as forced. -/
inductive ActivationPolicy where
  | kindChange
  | typeChange
  | always
  | never
  deriving DecidableEq, Repr, Inhabited

/-- Whether switching from `previous` (if any part was active) to `next` is forced. -/
def ActivationPolicy.isForced (policy : ActivationPolicy) (previous : Option (PartId × PartKind))
    (next : PartId × PartKind) : Bool :=
  match previous with
  | none => policy != .never
  | some (prevId, prevKind) =>
    match policy with
    | .always => true
    | .never => false
    | .kindChange => prevKind != next.2
    | .typeChange => prevKind != next.2 || prevId.primary != next.1.primary

end Docking
