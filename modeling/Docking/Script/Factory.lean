import Docking.Script.Reply
/-!
# Factory scripts

A factory script acquires and releases view instances command by command, and counts for
every requested id how many times a construction ran for it.
-/

namespace Docking

/-- A command of a factory script. -/
inductive FactoryCommand where
  | acquire (id : PartId)
  | release (id : PartId)
  | peek (id : PartId)
  | referenceCount (id : PartId)
  deriving DecidableEq, Repr, Inhabited

/-- A factory with the number of constructions run for each requested id, in key order. -/
structure FactorySession where
  factory : Factory
  built : List (String × Nat) := []
  deriving Inhabited

/-- Acquires an instance, counting the construction when one runs. -/
def FactorySession.acquire (s : FactorySession) (id : PartId) :
    Except CreationError Instance × FactorySession :=
  let built := if s.factory.constructs id then Keyed.bump id s.built else s.built
  let (r, f) := s.factory.acquire id
  (r, { factory := f, built })

namespace Script

/-- Runs one command of a factory script. -/
def factoryStep (s : FactorySession) : FactoryCommand → Except Fault Reply × FactorySession
  | .acquire id =>
    match s.acquire id with
    | (.ok i, s') => (.ok (.inst i), s')
    | (.error e, s') => (.error (.creation e), s')
  | .release id =>
    let (r, f) := s.factory.release id
    (.ok (.released r), { s with factory := f })
  | .peek id => (.ok (.maybePart ((s.factory.peek id).map (·.id))), s)
  | .referenceCount id => (.ok (.count (s.factory.referenceCount id)), s)

end Script

end Docking
