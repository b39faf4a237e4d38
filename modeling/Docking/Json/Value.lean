import Docking.Keyed
/-!
# JSON values

What a request line holds once read. A number keeps the kind it was read as: one written as an
integer that fits 64 bits (unsigned, or signed when negative) is an `int`; every other number,
one with a point or an exponent, `-0`, or an integer beyond 64 bits, is a `float`, kept as its
sign, decimal significand and decimal exponent. So no float is ever taken for an integer,
`1.0` and `1e2` included.

The fields of an object stay in the order written, a repeated name included. Looking a field
up (`get?`) finds the last of a name, and `entries` lists each name once, with its last value,
in the order of names.
-/

namespace Docking

/-- A JSON value as read from a line. -/
inductive JsonValue where
  | null
  | bool (b : Bool)
  | int (i : Int)
  /-- The number `(-1)^negative * significand * 10^exponent`, read as a double. -/
  | float (negative : Bool) (significand : Nat) (exponent : Int)
  | str (s : String)
  | arr (items : List JsonValue)
  | obj (fields : List (String × JsonValue))
  deriving Repr, Inhabited

namespace JsonValue

/-- The value of an object's field, the last one of the name; none for a value that is not an
object. -/
def get? (v : JsonValue) (key : String) : Option JsonValue :=
  match v with
  | .obj fields => (fields.reverse.find? (·.1 == key)).map (·.2)
  | _ => none

/-- An object's fields, each name once with its last value, in the order of names; none for a
value that is not an object. -/
def entries (v : JsonValue) : List (String × JsonValue) :=
  match v with
  | .obj fields => fields.foldl (fun acc (k, x) => Keyed.insert k x acc) []
  | _ => []

/-- A list of values. -/
def list {α : Type} (f : α → JsonValue) (xs : List α) : JsonValue := .arr (xs.map f)

/-- A count or index. -/
def nat (n : Nat) : JsonValue := .int n

/-- A value when there is one, and `null` otherwise. -/
def option {α : Type} (f : α → JsonValue) : Option α → JsonValue
  | some a => f a
  | none => .null

end JsonValue

end Docking
