import Docking.Answer.Error
import Docking.Request.Memento
/-!
# Replies as answers

How the values a command replies with are written: a box as `[x,y,w,h]`, a node by its handle,
a window as `"main"` or its number, a drop decision as an object of its source, position and
action, a node of the table with its handle, identity, container, bounds and what it is (a split
with its weights as the bits of single-precision floats), and the host as the surfaces it has
open, each with its bounds, and those it closed.
-/

namespace Docking

namespace Answer

def rect (r : Rect) : JsonValue :=
  .arr [.nat r.x.toNat, .nat r.y.toNat, .nat r.width.toNat, .nat r.height.toNat]

def floatRect (r : FloatRect) : JsonValue :=
  .arr [.int r.x.toInt, .int r.y.toInt, .nat r.width.toNat, .nat r.height.toNat]

def node (n : NodeId) : JsonValue := .nat n.val

def nodes (ns : List NodeId) : JsonValue := .list node ns

def action : DropAction → JsonValue
  | .split t s => .obj [("kind", .str "split"), ("target", node t), ("side", .str s.name)]
  | .stack t => .obj [("kind", .str "stack"), ("target", node t)]
  | .detach b => .obj [("kind", .str "detach"), ("at", floatRect b)]
  | .moveWindow w b =>
    .obj [("kind", .str "move_window"), ("window", .nat w.val), ("at", floatRect b)]
  | .minimize => .obj [("kind", .str "minimize")]
  | .reject => .obj [("kind", .str "reject")]

def decision (d : DropDecision) : JsonValue :=
  .obj [("source", node d.source), ("position", .str d.position.name), ("action", action d.action)]

def place : Option WindowRef → JsonValue
  | some .main => .str "main"
  | some (.detached w) => .nat w.val
  | none => .null

def regions (rs : List (PartId × Rect)) : JsonValue :=
  .list (fun (p, r) => .arr [.str p, .nat r.x.toNat, .nat r.y.toNat, .nat r.width.toNat,
    .nat r.height.toNat]) rs

/-- A node of the table under a handle, or `null` when the table has none there. -/
def info (n : NodeId) : Option Node → JsonValue
  | none => .null
  | some x =>
    let base : List (String × JsonValue) := [("id", node n), ("ident", .str x.ident),
      ("parent", .option node x.parent), ("bounds", rect x.bounds)]
    let what : List (String × JsonValue) := match x.kind with
      | .pane p => [("kind", .str "pane"), ("part", .str p.part), ("part_kind", .str p.kind.name)]
      | .placeholder p => [("kind", .str "placeholder"), ("part", .str p)]
      | .folder cs sel => [("kind", .str "folder"), ("children", nodes cs), ("selected", .option .nat sel)]
      | .split o cs ws => [("kind", .str "split"), ("orientation", .str o.letter),
          ("children", nodes cs), ("weights", .list (fun w => .nat w.toBits.toNat) ws)]
      | .collapsed c => [("kind", .str "collapsed"), ("collapsed", node c)]
    .obj (base ++ what)

def windows (ws : List Window) (ps : List ParkedWindow) : JsonValue :=
  .obj [("detached", .list (fun w => .obj [("id", .nat w.id.val), ("bounds", floatRect w.bounds),
      ("folder", node w.folder), ("surface", .option (fun s => .nat s.val) w.surface)]) ws),
    ("hidden", .list (fun p => .obj [("bounds", floatRect p.bounds), ("folder", node p.folder)]) ps)]

def inst (i : Instance) : JsonValue := .obj [("id", .str i.id), ("kind", .str i.kind.name)]

def host (h : Host) : JsonValue :=
  .obj [("open", .list (fun (s, b) => .arr [.nat s.val, .int b.x.toInt, .int b.y.toInt,
      .nat b.width.toNat, .nat b.height.toNat]) h.open),
    ("closed", .list (fun s => .nat s.val) h.closed)]

end Answer

/-- The JSON of a reply. -/
def Reply.toJson : Reply → JsonValue
  | .none => .null
  | .flag b => .bool b
  | .node n => Answer.node n
  | .maybeNode n => .option Answer.node n
  | .maybeWindow w => .option (fun w => .nat w.val) w
  | .place w => Answer.place w
  | .regions rs => Answer.regions rs
  | .decision d => Answer.decision d
  | .dropped d a => .obj [("decision", Answer.decision d), ("applied", match a with
      | .ok b => Answer.ok (.bool b)
      | .error e => e.toJson)]
  | .droppedOnPage d a => .obj [("decision", Answer.decision d), ("applied", .bool a)]
  | .memento m => m.toJson
  | .info n x => Answer.info n x
  | .parts ps => .list .str ps
  | .maybePart p => .option .str p
  | .windows ws ps => Answer.windows ws ps
  | .count n => .nat n
  | .released (.disposed i) => .obj [("disposed", .str i.id)]
  | .released (.retained n) => .obj [("retained", .nat n)]
  | .released .unknown => .str "unknown"
  | .inst i => Answer.inst i

/-- The JSON of what a step of a script comes to. -/
def Outcome.toJson : Outcome → JsonValue
  | .error r => r.toJson
  | .ok (.ok r) => Answer.ok r.toJson
  | .ok (.error f) => f.toJson

end Docking
