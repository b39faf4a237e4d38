import Docking.Request.Field
import Docking.Memento.Basic
/-!
# Mementos as JSON

A memento is written as an object with its type name under `type`, its attributes (if any) as
an object under `attributes`, and its children (if any) as an array under `children`. An
attribute is a boolean, a string or an integer of 64 signed bits.

Reading also takes the three parts as the items of an array, in that order, where attributes
and children may be left out from the end. It refuses anything else: a missing or non-string
type, attributes or children of the wrong type (`null` included), an attribute of another type
or range, or an array of no item or of more than three.
-/

namespace Docking

/-- The JSON of an attribute value. -/
def Value.toJson : Value → JsonValue
  | .bool b => .bool b
  | .int i => .int i
  | .str s => .str s

/-- An attribute value read from JSON. -/
def Value.ofJson? : JsonValue → Option Value
  | .bool b => some (.bool b)
  | .str s => some (.str s)
  | .int i => if Request.minLong ≤ i ∧ i ≤ Request.maxLong then some (.int i) else none
  | _ => none

namespace Memento

mutual

/-- The JSON of a memento: empty attributes and children are left out. -/
def toJson : Memento → JsonValue
  | ⟨kind, attributes, children⟩ =>
    .obj ([("type", .str kind)] ++
      (if attributes.isEmpty then [] else
        [("attributes", .obj (attributes.map fun (k, v) => (k, v.toJson)))]) ++
      (if children.isEmpty then [] else [("children", .arr (listToJson children))]))

/-- The JSON of a list of mementos. -/
def listToJson : List Memento → List JsonValue
  | [] => []
  | m :: ms => toJson m :: listToJson ms

end

/-- The type, attributes and children of a memento as written: the fields of an object, or the
items of an array in that order, of which the last two may be left out. -/
def parts? : JsonValue → Option (JsonValue × Option JsonValue × Option JsonValue)
  | .obj fs => do
    let j := JsonValue.obj fs
    return (← j.get? "type", j.get? "attributes", j.get? "children")
  | .arr [kind] => some (kind, none, none)
  | .arr [kind, attributes] => some (kind, some attributes, none)
  | .arr [kind, attributes, children] => some (kind, some attributes, some children)
  | _ => none

/-- A memento read from JSON, nested at most `fuel` deep. -/
def ofJsonWith : Nat → JsonValue → Option Memento
  | 0, _ => none
  | fuel + 1, j => do
    let (kind, attributes, children) ← parts? j
    let kind ← match kind with
      | .str s => some s
      | _ => none
    let attributes ← match attributes with
      | none => some []
      | some (.obj fs) => (JsonValue.obj fs).entries.foldlM (fun acc (k, v) => do
          return Keyed.insert k (← Value.ofJson? v) acc) []
      | some _ => none
    let children ← match children with
      | none => some []
      | some (.arr cs) => cs.mapM (ofJsonWith fuel)
      | some _ => none
    return { kind, attributes, children }

/-- A memento read from JSON. A line nests at most 127 deep, so 128 levels are enough. -/
def ofJson? (j : JsonValue) : Option Memento := ofJsonWith 128 j

end Memento

end Docking
