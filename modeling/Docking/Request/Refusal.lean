import Docking.Json.Print
import Docking.Json.Error
/-!
# Refused requests

A request line, or a step of a script, is refused before it runs when its text is not JSON, a
field is missing or has the wrong type or shape, a name names nothing, or it names a node, a
token or a saved document that the session does not have. The refusal says which, and
`Refusal.message` gives its text; a node reference that names no node is quoted as written.
-/

namespace Docking

/-- Why a request is refused before it runs. -/
inductive Refusal where
  | unreadable (e : JsonError)
  | missingField (key : String)
  | notString (key : String)
  | notBool (key : String)
  | notList (key : String)
  | notObject (key : String)
  | notInteger (key : String)
  | outOfRange (key : String)
  /-- Not an array of the shape written, such as `[x,y,w,h]`. -/
  | notShaped (key shape : String)
  /-- A name that names nothing of its sort: a kind, side, position, action, policy or role. -/
  | badName (sort name : String)
  | badViewDescriptor
  | badWindow
  | unknownReference
  | unknownOp (op : String)
  | unknownStep (script step : String)
  /-- A node reference, as written, that names no node. -/
  | unresolved (written : JsonValue)
  | invalidMemento
  | noDocument (name : String)
  | unknownToken
  deriving Inhabited

/-- The text of a refusal. -/
def Refusal.message : Refusal → String
  | .unreadable e => "invalid JSON: " ++ e.message
  | .missingField k => "missing field `" ++ k ++ "`"
  | .notString k => "`" ++ k ++ "` must be a string"
  | .notBool k => "`" ++ k ++ "` must be a bool"
  | .notList k => "`" ++ k ++ "` must be a list"
  | .notObject k => "`" ++ k ++ "` must be an object"
  | .notInteger k => "`" ++ k ++ "` must be an integer"
  | .outOfRange k => "`" ++ k ++ "` out of range"
  | .notShaped k shape => "`" ++ k ++ "` must be " ++ shape
  | .badName sort name => "bad " ++ sort ++ " `" ++ name ++ "`"
  | .badViewDescriptor => "bad view descriptor"
  | .badWindow => "window must be \"main\" or a window number"
  | .unknownReference => "unknown node reference"
  | .unknownOp op => "unknown op `" ++ op ++ "`"
  | .unknownStep script step => "unknown " ++ script ++ " step `" ++ step ++ "`"
  | .unresolved written => "no node for " ++ written.render
  | .invalidMemento => "the memento cannot be read"
  | .noDocument name => "no saved memento `" ++ name ++ "`"
  | .unknownToken => "unknown token"

end Docking
