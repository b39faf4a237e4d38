import Docking.Instances.Registry
/-!
# The instance factory

The factory keeps one live instance per view id, alive while it is referenced. `acquire`
gives the live instance and takes a reference, building the instance from the registry on
first use; a failed construction caches nothing. `release` gives a reference back and drops
the instance with its last reference.
-/

namespace Docking

/-- A cached instance with its reference count. -/
structure Cached where
  inst : Instance
  references : Nat
  deriving DecidableEq, Repr, Inhabited

/-- What releasing a reference did. -/
inductive Release where
  /-- The last reference went; the instance is dropped. -/
  | disposed (inst : Instance)
  /-- The instance stays, referenced this many times. -/
  | retained (references : Nat)
  /-- Nothing was cached under the id. -/
  | unknown
  deriving DecidableEq, Repr, Inhabited

/-- Live view instances by id, in key order, built from a registry. -/
structure Factory where
  registry : Registry
  cache : List (String × Cached) := []
  deriving DecidableEq, Repr, Inhabited

namespace Factory

/-- Whether an id has a live instance. -/
def isLive (f : Factory) (id : PartId) : Bool := (Keyed.find? id f.cache).isSome

/-- The live instance of an id, building it on first use; takes one reference. -/
def acquire (f : Factory) (id : PartId) : Except CreationError Instance × Factory :=
  match Keyed.find? id f.cache with
  | some c =>
    (.ok c.inst, { f with cache := Keyed.modify id (fun c => { c with references := c.references + 1 }) f.cache })
  | none =>
    match f.registry.construct id with
    | none => (.error (.unknownView id), f)
    | some (.error reason) => (.error (.failed id reason), f)
    | some (.ok inst) =>
      if inst.id != id then (.error (.identityMismatch id inst.id), f)
      else (.ok inst, { f with cache := Keyed.insert id ⟨inst, 1⟩ f.cache })

/-- Whether acquiring an id runs a construction: it has no live instance and the registry
has a descriptor for it. -/
def constructs (f : Factory) (id : PartId) : Bool :=
  !f.isLive id && (f.registry.descriptor? id).isSome

/-- Gives back one reference to an id's instance. -/
def release (f : Factory) (id : PartId) : Release × Factory :=
  match Keyed.find? id f.cache with
  | none => (.unknown, f)
  | some c =>
    let n := c.references - 1
    if n > 0 then
      (.retained n, { f with cache := Keyed.modify id (fun c => { c with references := n }) f.cache })
    else (.disposed c.inst, { f with cache := Keyed.erase id f.cache })

/-- The live instance of an id, without taking a reference. -/
def peek (f : Factory) (id : PartId) : Option Instance :=
  (Keyed.find? id f.cache).map (·.inst)

/-- How many references an id's instance has; none for an id without one. -/
def referenceCount (f : Factory) (id : PartId) : Nat :=
  ((Keyed.find? id f.cache).map (·.references)).getD 0

/-- The live ids with their reference counts, in key order. -/
def live (f : Factory) : List (PartId × Nat) :=
  f.cache.map fun (k, c) => (k, c.references)

theorem referenceCount_acquire_of_isLive {f : Factory} {id : PartId} (h : f.isLive id = true) :
    (f.acquire id).2.referenceCount id = f.referenceCount id + 1 := by
  unfold isLive at h
  cases hc : Keyed.find? id f.cache with
  | none => simp [hc] at h
  | some c => simp [acquire, referenceCount, hc]

theorem referenceCount_release (f : Factory) (id : PartId) :
    (f.release id).2.referenceCount id = f.referenceCount id - 1 := by
  unfold release referenceCount
  cases hc : Keyed.find? id f.cache with
  | none => simp [hc]
  | some c =>
    simp only
    split
    · simp [hc]
    · simp
      omega

theorem isLive_acquire_of_ok {f : Factory} {id : PartId} {i : Instance}
    (h : (f.acquire id).1 = .ok i) : (f.acquire id).2.isLive id = true := by
  unfold acquire at h ⊢
  cases hc : Keyed.find? id f.cache with
  | some c => simp [hc, isLive]
  | none =>
    simp only [hc] at h ⊢
    cases hr : f.registry.construct id with
    | none => simp [hr] at h
    | some r =>
      cases r with
      | error e => simp [hr] at h
      | ok inst =>
        simp only [hr] at h ⊢
        split at h
        · simp at h
        · simp [*, isLive]

end Factory

end Docking
