import Docking.Request.Refusal
import Docking.Part
import Docking.Geometry.Rect
import Docking.Window
import Docking.Drop.Policy
import Docking.Activation.Policy
/-!
# Reading the fields of a request

A required field is refused as missing when the request has no field of that name (or is not
an object at all); a `null` there is a value of the wrong type. An optional field is absent
when missing or `null`. Optional texts are lenient: a value that is not a string is taken as
absent. Optional flags are strict: a value that is not a boolean is refused.

An integer field must hold an integer (a number read as a 64-bit integer, never a float) within
the range of the field's type; a box is an array `[x,y,w,h]` and a point an array `[x,y]`, and
each item is read as an integer of its own range under the field's name. Names of kinds, sides,
positions, policies and actions are their lower-case spellings.
-/

namespace Docking

namespace Request

/-- The result of reading part of a request. -/
abbrev Read (α : Type) := Except Refusal α

/-- The largest 64-bit unsigned integer. -/
def maxWord : Int := 18446744073709551615

/-- The least and greatest 64-bit signed integers. -/
def minLong : Int := -9223372036854775808
def maxLong : Int := 9223372036854775807

/-- A required field. -/
def field (j : JsonValue) (key : String) : Read JsonValue :=
  match j.get? key with
  | some v => .ok v
  | none => .error (.missingField key)

/-- An optional field: none when missing or `null`. -/
def optional (j : JsonValue) (key : String) : Option JsonValue :=
  match j.get? key with
  | some .null => none
  | v => v

def string (key : String) : JsonValue → Read String
  | .str s => .ok s
  | _ => .error (.notString key)

def bool (key : String) : JsonValue → Read Bool
  | .bool b => .ok b
  | _ => .error (.notBool key)

def list (key : String) : JsonValue → Read (List JsonValue)
  | .arr xs => .ok xs
  | _ => .error (.notList key)

/-- An integer within `[lo, hi]`. -/
def integer (key : String) (lo hi : Int) : JsonValue → Read Int
  | .int i => if lo ≤ i ∧ i ≤ hi then .ok i else .error (.outOfRange key)
  | _ => .error (.notInteger key)

def nat (key : String) (v : JsonValue) : Read Nat := do
  return (← integer key 0 maxWord v).toNat

def word16 (key : String) (v : JsonValue) : Read UInt16 := do
  return (← integer key 0 65535 v).toNat.toUInt16

def int32 (key : String) (v : JsonValue) : Read Int32 := do
  return Int32.ofInt (← integer key (-2147483648) 2147483647 v)

/-- The items of an array of `n` items; `shape` is how the array is written. -/
def shaped (key shape : String) (n : Nat) : JsonValue → Read (List JsonValue)
  | .arr xs => if xs.length = n then .ok xs else .error (.notShaped key shape)
  | _ => .error (.notShaped key shape)

/-- A box `[x,y,w,h]` of 16-bit corners and sizes, its far edges cut at 65535. -/
def rect (key : String) (v : JsonValue) : Read Rect := do
  match ← shaped key "[x,y,w,h]" 4 v with
  | [x, y, w, h] => return Rect.clamped (← word16 key x) (← word16 key y) (← word16 key w) (← word16 key h)
  | _ => .error (.notShaped key "[x,y,w,h]")

/-- The bounds `[x,y,w,h]` of a window: a 32-bit corner and 16-bit sizes. -/
def floatRect (key : String) (v : JsonValue) : Read FloatRect := do
  match ← shaped key "[x,y,w,h]" 4 v with
  | [x, y, w, h] => return ⟨← int32 key x, ← int32 key y, ← word16 key w, ← word16 key h⟩
  | _ => .error (.notShaped key "[x,y,w,h]")

/-- A point `[x,y]` of 32-bit coordinates. -/
def point (key : String) (v : JsonValue) : Read (Int32 × Int32) := do
  match ← shaped key "[x,y]" 2 v with
  | [x, y] => return (← int32 key x, ← int32 key y)
  | _ => .error (.notShaped key "[x,y]")

/-- A window: `"main"`, or the number of a detached window. -/
def window (key : String) : JsonValue → Read WindowRef
  | .str "main" => .ok .main
  | v@(.int _) => do return .detached ⟨← nat key v⟩
  | v@(.float ..) => do return .detached ⟨← nat key v⟩
  | _ => .error .badWindow

def stringAt (j : JsonValue) (key : String) : Read String := do string key (← field j key)
def boolAt (j : JsonValue) (key : String) : Read Bool := do bool key (← field j key)
def natAt (j : JsonValue) (key : String) : Read Nat := do nat key (← field j key)
def rectAt (j : JsonValue) (key : String) : Read Rect := do rect key (← field j key)
def floatRectAt (j : JsonValue) (key : String) : Read FloatRect := do floatRect key (← field j key)
def windowAt (j : JsonValue) (key : String) : Read WindowRef := do window key (← field j key)
def listAt (j : JsonValue) (key : String) : Read (List JsonValue) := do list key (← field j key)

/-- An optional text: none unless the field holds a string. -/
def stringOpt (j : JsonValue) (key : String) : Option String :=
  match j.get? key with
  | some (.str s) => some s
  | _ => none

/-- An optional text with a default. -/
def stringOr (j : JsonValue) (key d : String) : String := (stringOpt j key).getD d

/-- An optional flag with a default. -/
def boolOr (j : JsonValue) (key : String) (d : Bool) : Read Bool :=
  match optional j key with
  | some v => bool key v
  | none => .ok d

/-- The thing a name names in a table, or a refusal naming the sort of thing. -/
def named {α : Type} (sort : String) (table : List (String × α)) (name : String) : Read α :=
  match table.lookup name with
  | some a => .ok a
  | none => .error (.badName sort name)

def kindNamed (name : String) : Read PartKind :=
  match PartKind.parse? name with
  | some k => .ok k
  | none => .error (.badName "kind" name)

/-- An optional kind: a string must name one. -/
def kindOr (j : JsonValue) (key : String) (d : PartKind) : Read PartKind :=
  match stringOpt j key with
  | some s => kindNamed s
  | none => .ok d

def sideNamed : String → Read Side :=
  named "side" ([Side.left, .right, .top, .bottom].map fun s => (s.name, s))

def sideAt (j : JsonValue) (key : String) : Read Side := do sideNamed (← stringAt j key)

def positionNamed : String → Read DropPosition :=
  named "position" ([DropPosition.center, .left, .right, .top, .bottom, .offscreen, .invalid].map
    fun p => (p.name, p))

def policyNamed : String → Read ActivationPolicy :=
  named "policy" [("kind_change", .kindChange), ("type_change", .typeChange), ("always", .always),
    ("never", .never)]

/-- The activation policy of a request, by default the change of kind. -/
def policyOf (j : JsonValue) : Read ActivationPolicy :=
  match stringOpt j "policy" with
  | some s => policyNamed s
  | none => .ok .kindChange

/-- The strings of a list field; items of other types are passed over. -/
def stringsAt (j : JsonValue) (key : String) : Read (List String) := do
  return (← listAt j key).filterMap fun
    | .str s => some s
    | _ => none

end Request

end Docking
