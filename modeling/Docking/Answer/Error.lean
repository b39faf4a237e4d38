import Docking.Script.Reply
/-!
# Errors as answers

Every error is answered as an object naming its kind under `error` with its text under
`message`: the kind of a layout, restore or creation error is its cause, a refused request is
`BadInput` (or `Unresolved` for a node name that names no node, and `InvalidMemento`, without a
text, for a memento that cannot be read), and an overflow is a `Panic`.
-/

namespace Docking

namespace Answer

/-- A success. -/
def ok (v : JsonValue) : JsonValue := .obj [("ok", v)]

/-- An error of a kind, with its text. -/
def error (kind message : String) : JsonValue := .obj [("error", .str kind), ("message", .str message)]

end Answer

def RestoreError.toJson (e : RestoreError) : JsonValue :=
  let kind := match e with
    | .missingChild .. => "MissingChild"
    | .missingKey .. => "MissingKey"
    | .invalidValue .. => "InvalidValue"
    | .unknownNodeType .. => "UnknownNodeType"
  Answer.error kind e.message

def LayoutError.toJson (e : LayoutError) : JsonValue :=
  let kind := match e with
    | .unknownNode _ => "UnknownNode"
    | .unknownPart _ => "UnknownPart"
    | .orphan _ => "Orphan"
    | .invalidTarget _ => "InvalidTarget"
    | .selfReference _ => "SelfReference"
    | .immovable => "Immovable"
    | .notMinimizable _ => "NotMinimizable"
    | .unknownWindow _ => "UnknownWindow"
  Answer.error kind e.message

def CreationError.toJson (e : CreationError) : JsonValue :=
  let kind := match e with
    | .unknownView _ => "UnknownView"
    | .failed .. => "Failed"
    | .identityMismatch .. => "IdentityMismatch"
  Answer.error kind e.message

def Overflow.toJson (o : Overflow) : JsonValue := Answer.error "Panic" o.message

def Refusal.toJson (r : Refusal) : JsonValue :=
  match r with
  | .unresolved _ => Answer.error "Unresolved" r.message
  | .invalidMemento => .obj [("error", .str "InvalidMemento")]
  | _ => Answer.error "BadInput" r.message

def Fault.toJson : Fault → JsonValue
  | .layout e => e.toJson
  | .restore e => e.toJson
  | .creation e => e.toJson
  | .pointerOutOfRange => Answer.error "BadInput" "pointer out of range"
  | .overflow o => o.toJson

end Docking
