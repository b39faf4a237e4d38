import Docking.Keyed
/-!
# Mementos: saved state as a tree of typed elements

A memento is an element with a type name, leaf attributes (a boolean, a 64-bit integer or
a text under each key, kept in key order) and an ordered list of child elements. Layouts,
activation histories and whole pages are saved as mementos and read back from them.

Reading is checked: `requireStr`, `requireInt` and `requireRange` fail with a
`RestoreError` that says which element lacked which key (`missingKey`), or held a value of
the wrong type or range under it (`invalidValue`); `requireChild` fails with
`missingChild`.
-/

namespace Docking

/-- A leaf value of a memento. -/
inductive Value where
  | bool (b : Bool)
  | int (i : Int)
  | str (s : String)
  deriving DecidableEq, Repr, Inhabited

/-- A saved element: a type name, attributes in key order, and children in order. -/
structure Memento where
  kind : String
  attributes : List (String × Value) := []
  children : List Memento := []
  deriving Repr, Inhabited

/-- Why a saved document cannot be read back. -/
inductive RestoreError where
  | missingChild (element child : String)
  | missingKey (element key : String)
  | invalidValue (element key : String)
  | unknownNodeType (type : String)
  deriving DecidableEq, Repr, Inhabited

/-- The text of a restore error. -/
def RestoreError.message : RestoreError → String
  | .missingChild e c => "`" ++ e ++ "` element is missing child `" ++ c ++ "`"
  | .missingKey e k => "`" ++ e ++ "` element is missing `" ++ k ++ "`"
  | .invalidValue e k => "`" ++ e ++ "` element has an invalid `" ++ k ++ "`"
  | .unknownNodeType t => "unknown layout node type `" ++ t ++ "`"

namespace Memento

/-- An element of the given type with nothing in it. -/
def empty (kind : String) : Memento := { kind }

/-- Sets an attribute. -/
def set (m : Memento) (key : String) (v : Value) : Memento :=
  { m with attributes := Keyed.insert key v m.attributes }

/-- Appends a child. -/
def push (m : Memento) (child : Memento) : Memento :=
  { m with children := m.children ++ [child] }

/-- The value under a key. -/
def get? (m : Memento) (key : String) : Option Value :=
  (m.attributes.find? (·.1 == key)).map (·.2)

/-- The text under a key, if a text is there. -/
def str? (m : Memento) (key : String) : Option String :=
  match m.get? key with
  | some (.str s) => some s
  | _ => none

/-- The integer under a key, if an integer is there. -/
def int? (m : Memento) (key : String) : Option Int :=
  match m.get? key with
  | some (.int i) => some i
  | _ => none

/-- The boolean under a key, if a boolean is there. -/
def bool? (m : Memento) (key : String) : Option Bool :=
  match m.get? key with
  | some (.bool b) => some b
  | _ => none

/-- The error for a key without a usable value: invalid when the key is there,
missing when it is not. -/
def missingOrInvalid (m : Memento) (key : String) : RestoreError :=
  if (m.get? key).isSome then .invalidValue m.kind key else .missingKey m.kind key

/-- The text under a key, which must be there. -/
def requireStr (m : Memento) (key : String) : Except RestoreError String :=
  match m.str? key with
  | some s => .ok s
  | none => .error (m.missingOrInvalid key)

/-- The integer under a key, which must be there. -/
def requireInt (m : Memento) (key : String) : Except RestoreError Int :=
  match m.int? key with
  | some i => .ok i
  | none => .error (m.missingOrInvalid key)

/-- The integer under a key, which must be there and lie in `[lo, hi]`. -/
def requireRange (m : Memento) (key : String) (lo hi : Int) : Except RestoreError Int := do
  let i ← m.requireInt key
  if lo ≤ i ∧ i ≤ hi then pure i else throw (.invalidValue m.kind key)

/-- A 16-bit size under a key. -/
def requireU16 (m : Memento) (key : String) : Except RestoreError UInt16 := do
  let i ← m.requireRange key 0 65535
  pure i.toNat.toUInt16

/-- A signed 32-bit coordinate under a key. -/
def requireI32 (m : Memento) (key : String) : Except RestoreError Int32 := do
  let i ← m.requireRange key (-2147483648) 2147483647
  pure (Int32.ofInt i)

/-- The children of a given type, in order. -/
def childrenOf (m : Memento) (kind : String) : List Memento :=
  m.children.filter (·.kind == kind)

/-- The first child of a given type. -/
def child? (m : Memento) (kind : String) : Option Memento :=
  m.children.find? (·.kind == kind)

/-- The first child of a given type, which must be there. -/
def requireChild (m : Memento) (kind : String) : Except RestoreError Memento :=
  match m.child? kind with
  | some c => .ok c
  | none => .error (.missingChild m.kind kind)

end Memento

end Docking
