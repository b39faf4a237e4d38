import Docking.Answer.Reply
import Docking.Layout.Describe
import Docking.Script.Layout
import Docking.Script.History
import Docking.Script.Factory
import Docking.Script.Page
/-!
# Script states as answers

A script answers, for every step, what the step came to and the state after it. The state of a
layout is its description, its zoomed node and its host; of a history, its entries (part, kind,
whether minimized), the minimized parts and the two recency queries; of a factory, the live
instances with their reference counts and the constructions run per requested id; of a page,
its layout, active part, history, owned parts, references, dirty parts, focus requests,
constructions, the events of the step and its host.
-/

namespace Docking

namespace Answer

def layoutState (l : Layout) : JsonValue :=
  .obj [("layout", .str l.describe), ("zoomed", .option node l.zoomed), ("host", host l.host)]

def historyEntries (h : History) : JsonValue :=
  .list (fun e => .arr [.str e.part, .str e.kind.name, .bool (h.isMinimized e.part)]) h.entries

def historyState (h : History) : JsonValue :=
  .obj [("entries", historyEntries h), ("minimized", .list .str (h.parts.filter h.isMinimized)),
    ("current", .option .str h.current), ("previous", .option .str h.previous)]

/-- Counts by key, as an object. -/
def counts (xs : List (String × Nat)) : JsonValue := .obj (xs.map fun (k, n) => (k, .nat n))

/-- Counts by key, as pairs in key order. -/
def pairs (xs : List (String × Nat)) : JsonValue := .list (fun (k, n) => .arr [.str k, .nat n]) xs

def factoryState (s : FactorySession) : JsonValue :=
  .obj [("live", pairs s.factory.live), ("built", counts s.built)]

def event : PageEvent → JsonValue
  | .activated id f => .obj [("activated", .str id), ("forced", .bool f)]
  | .deactivated id f => .obj [("deactivated", .str id), ("forced", .bool f)]
  | .opened id => .obj [("opened", .str id)]
  | .closed id => .obj [("closed", .str id)]
  | .broughtToTop id => .obj [("brought_to_top", .str id)]
  | .layoutChanged => .str "layout_changed"
  | .zoomChanged b => .obj [("zoom", .bool b)]

def pageState (s : PageSession) : JsonValue :=
  let p := s.page
  .obj [("layout", .str p.layout.describe), ("active", .option .str p.active),
    ("history", historyEntries p.history), ("owned", .list .str p.controller.ownedIds),
    ("refs", pairs p.factory.live), ("dirty", .list .str s.dirtyParts),
    ("focus", pairs (s.focus.filter (·.2 > 0))), ("built", counts s.built),
    ("events", .list event p.events), ("host", host p.layout.host)]

/-- The answer of a script: every step's outcome with the state after it. -/
def script {σ : Type} (outcomes : List (Outcome × σ)) (state : σ → JsonValue) : JsonValue :=
  ok (.list (fun (r, s) => .obj [("result", r.toJson), ("state", state s)]) outcomes)

end Answer

end Docking
