import Docking.Window
/-!
# The host's surfaces

Floating windows need surfaces from the toolkit that embeds the engine. `Host` is a host
without a display: when it supports floating windows it hands out surface numbers from 1
on, remembers the bounds of every open surface, and lists the surfaces it closed in the
order they were closed. Without floating support it refuses every surface.
-/

namespace Docking

/-- A host without a display. Open surfaces are kept in the order of their numbers. -/
structure Host where
  floating : Bool
  lastSurface : Nat := 0
  «open» : List (SurfaceId × FloatRect) := []
  closed : List SurfaceId := []
  deriving DecidableEq, Repr, Inhabited

namespace Host

/-- A fresh host, with or without floating support. -/
def fresh (floating : Bool) : Host := { floating }

/-- Opens a surface with the given bounds; `none` when the host has no floating support. -/
def createSurface (h : Host) (bounds : FloatRect) : Option SurfaceId × Host :=
  if !h.floating then (none, h)
  else
    let id : SurfaceId := ⟨h.lastSurface + 1⟩
    (some id, { h with lastSurface := h.lastSurface + 1, «open» := h.open ++ [(id, bounds)] })

/-- Moves an open surface; a surface that is not open is left alone. -/
def resizeSurface (h : Host) (surface : SurfaceId) (bounds : FloatRect) : Host :=
  { h with «open» := h.open.map fun (s, b) => if s = surface then (s, bounds) else (s, b) }

/-- Closes an open surface and records it as closed; a surface that is not open is left
alone. -/
def closeSurface (h : Host) (surface : SurfaceId) : Host :=
  if h.open.any (·.1 == surface) then
    { h with «open» := h.open.filter (·.1 != surface), closed := h.closed ++ [surface] }
  else h

end Host

end Docking
