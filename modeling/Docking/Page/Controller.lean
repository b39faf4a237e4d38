import Docking.Keyed
import Docking.Activation.Policy
/-!
# Owned parts and the active part

A page owns the parts it has opened and knows which of them is active. Each part is owned
under its id with its kind and an ownership stamp: stamps count up from 1 and are never
given twice, so a part closed and opened again gets a new stamp, and work started on the
part before that can tell. Registering an owned part again keeps its stamp.

Every request on a part first certifies it: a part the page does not own is refused.
-/

namespace Docking

/-- What the page keeps of a part it owns. -/
structure Owned where
  kind : PartKind
  stamp : Nat
  deriving DecidableEq, Repr, Inhabited

/-- The owned parts in key order, the active part, and the policy that says when an
activation switch is forced. -/
structure Controller where
  policy : ActivationPolicy
  active : Option PartId := none
  parts : List (PartId × Owned) := []
  lastStamp : Nat := 0
  deriving DecidableEq, Repr, Inhabited

namespace Controller

/-- Whether a part is the active one. -/
def isActive (c : Controller) (id : PartId) : Bool := c.active == some id

/-- The kind of an owned part; none for a part the page does not own. -/
def kindOf? (c : Controller) (id : PartId) : Option PartKind :=
  (Keyed.find? id c.parts).map (·.kind)

/-- Whether the page owns a part. -/
def isOwned (c : Controller) (id : PartId) : Bool := (Keyed.find? id c.parts).isSome

/-- The ownership stamp of an owned part. -/
def stamp? (c : Controller) (id : PartId) : Option Nat :=
  (Keyed.find? id c.parts).map (·.stamp)

/-- The owned parts' ids in key order. -/
def ownedIds (c : Controller) : List PartId := c.parts.map (·.1)

/-- The active part with its kind, when it is owned. -/
def activeWithKind (c : Controller) : Option (PartId × PartKind) :=
  c.active.bind fun id => (c.kindOf? id).map (id, ·)

/-- An owned part with its kind. -/
def withKind (c : Controller) (id : PartId) : Option (PartId × PartKind) :=
  (c.kindOf? id).map (id, ·)

/-- Takes ownership of a part; an owned part keeps its stamp. -/
def register (c : Controller) (id : PartId) (kind : PartKind) : Controller :=
  if c.isOwned id then c
  else { c with lastStamp := c.lastStamp + 1,
                parts := Keyed.insert id ⟨kind, c.lastStamp + 1⟩ c.parts }

/-- Drops ownership of a part that never made it into the layout; it stops being active. -/
def unregister (c : Controller) (id : PartId) : Controller :=
  { c with active := if c.isActive id then none else c.active, parts := Keyed.erase id c.parts }

/-- Drops ownership of a part and nothing else. -/
def forget (c : Controller) (id : PartId) : Controller :=
  { c with parts := Keyed.erase id c.parts }

/-- Whether a part is owned under the given stamp. -/
def holds (c : Controller) (id : PartId) (stamp : Nat) : Bool := c.stamp? id == some stamp

theorem isOwned_iff (c : Controller) (id : PartId) :
    c.isOwned id = true ↔ ∃ o, Keyed.find? id c.parts = some o := by
  unfold isOwned
  cases Keyed.find? id c.parts <;> simp

theorem isSome_kindOf?_iff (c : Controller) (id : PartId) :
    (c.kindOf? id).isSome ↔ id ∈ c.ownedIds := by
  simp [kindOf?, ownedIds, ← Keyed.isSome_find?_iff]

theorem mem_ownedIds_of_withKind {c : Controller} {id : PartId} {n : PartId × PartKind}
    (h : c.withKind id = some n) : n.1 ∈ c.ownedIds := by
  unfold withKind at h
  obtain ⟨k, hk, rfl⟩ := Option.map_eq_some_iff.mp h
  exact (c.isSome_kindOf?_iff id).mp (by simp [hk])

@[simp] theorem register_of_isOwned {c : Controller} {id : PartId} (k : PartKind)
    (h : c.isOwned id = true) : c.register id k = c := by
  simp [register, h]

theorem stamp?_register_fresh {c : Controller} {id : PartId} (k : PartKind)
    (h : c.isOwned id = false) : (c.register id k).stamp? id = some (c.lastStamp + 1) := by
  simp [register, h, stamp?]

theorem stamp?_register_of_ne {c : Controller} {id x : PartId} (k : PartKind) (hx : x ≠ id) :
    (c.register id k).stamp? x = c.stamp? x := by
  unfold register
  split
  · rfl
  · simp [stamp?, Keyed.find?_insert_of_ne _ _ hx]

@[simp] theorem stamp?_forget_self (c : Controller) (id : PartId) : (c.forget id).stamp? id = none := by
  simp [forget, stamp?]

@[simp] theorem lastStamp_register (c : Controller) (id : PartId) (k : PartKind) :
    (c.register id k).lastStamp = if c.isOwned id then c.lastStamp else c.lastStamp + 1 := by
  unfold register
  split <;> simp_all

end Controller

end Docking
