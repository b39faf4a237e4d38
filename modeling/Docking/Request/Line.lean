import Docking.Request.History
import Docking.Request.Page
import Docking.Answer.State
import Docking.Layout.Restore
import Docking.Json.Read
/-!
# Answering a request line

A request line is one JSON object whose `op` names what is asked: a part id taken apart, an
activation policy, a drop zone, a drop policy, a memento, or a layout, history, factory or page
script. `answerLine` reads the line, reads the request's fields in order, runs what it asks and
writes the answer as one compact JSON text. A line that cannot be read, a missing field or one
of the wrong type, and a name that names nothing are refused with a `BadInput` answer.
-/

namespace Docking

open Request

/-- What a request line asks for. -/
inductive Operation where
  | partId
  | policy
  | dropZone
  | dropEval
  | memento
  | layout
  | restoreLayout
  | history
  | factory
  | page
  deriving DecidableEq, Repr

def Operation.named? : String → Option Operation
  | "part_id" => some .partId
  | "policy" => some .policy
  | "drop_zone" => some .dropZone
  | "drop_eval" => some .dropEval
  | "memento" => some .memento
  | "layout" => some .layout
  | "restore_layout" => some .restoreLayout
  | "history" => some .history
  | "factory" => some .factory
  | "page" => some .page
  | _ => none

namespace Request

/-- The views a script knows when it names none: three that build, one whose construction
fails, one that reports a different id, and one editor. -/
def defaultRegistry : Registry :=
  [("view.outline", ⟨.view, .builds⟩), ("view.console", ⟨.view, .builds⟩),
   ("view.tasks", ⟨.view, .builds⟩), ("view.broken", ⟨.view, .fails "no backend"⟩),
   ("view.liar", ⟨.view, .misreports "view.other"⟩), ("edit.form", ⟨.editor, .builds⟩)].foldl
    (fun r (k, d) => r.register k d) {}

/-- A construction by its result name: `ok` builds, `fail` fails with the reason and `liar`
reports another id; any other name is refused. -/
def construction (result reason reported : String) : Read Construction :=
  match result with
  | "ok" => .ok .builds
  | "fail" => .ok (.fails reason)
  | "liar" => .ok (.misreports reported)
  | _ => .error (.badName "view result" result)

/-- A view descriptor: a result name alone describes a view. -/
def descriptor (j : JsonValue) : Read Descriptor :=
  match j with
  | .str r => do return ⟨.view, ← construction r "" ""⟩
  | .obj _ => do
    let kind ← kindOr j "kind" .view
    return ⟨kind, ← construction (stringOr j "result" "ok") (stringOr j "reason" "")
      (stringOr j "reported" "")⟩
  | _ => .error .badViewDescriptor

/-- The registry a request names under `views`, or the default one. -/
def registry (j : JsonValue) : Read Registry :=
  match optional j "views" with
  | none => .ok defaultRegistry
  | some (.obj fs) => (JsonValue.obj fs).entries.foldlM (fun r (k, v) => do
      return r.register k (← descriptor v)) {}
  | some _ => .error (.notObject "views")

/-- An optional node number. -/
def nodeOpt (j : JsonValue) (key : String) : Read (Option NodeId) :=
  match optional j key with
  | some v => do return some ⟨← nat "node" v⟩
  | none => .ok none

def role (j : JsonValue) : Read TargetRole := do
  match ← stringAt j "role" with
  | "pane" => return .pane (← nodeOpt j "folder")
  | "folder" => return .folder
  | "editor_area" => return .editorArea
  | "other" => return .other
  | s => .error (.badName "role" s)

/-- What is dragged in a drop query. -/
def dragSource (s : JsonValue) : Read DragSource := do
  let node ← natAt s "node"
  let window ← windowAt s "window"
  let bounds ← rectAt s "bounds"
  let folder ← nodeOpt s "folder"
  let aloneInFolder ← boolOr s "alone_in_folder" false
  let aloneInFloating ← boolOr s "alone_in_floating" false
  let minimizable ← boolOr s "minimizable" true
  return { node := ⟨node⟩, window, bounds, folder, aloneInFolder, aloneInFloating, minimizable }

/-- What is under the pointer in a drop query. -/
def targetFacts : JsonValue → Read TargetFacts
  | .str "shortcut_bar" => .ok .shortcutBar
  | .str "outside" => .ok .outside
  | t => do
    let node ← natAt t "node"
    let window ← windowAt t "window"
    let r ← role t
    return .node ⟨node⟩ window r (← rectAt t "bounds")

/-- The memento of a request, or the answer that it cannot be read. -/
def mementoAt (j : JsonValue) : Read (Option Memento) := do
  return Memento.ofJson? (← field j "memento")

def invalidMemento : JsonValue := .obj [("error", .str "InvalidMemento")]

/-- A required memento value as an answer. -/
def required {α : Type} (f : α → JsonValue) : Except RestoreError α → JsonValue
  | .ok a => Answer.ok (f a)
  | .error e => e.toJson

def partIdAnswer (j : JsonValue) : Read JsonValue := do
  let id ← stringAt j "id"
  return Answer.ok (.obj [("primary", .str (PartId.primary id)),
    ("secondary", .option .str (PartId.secondary? id)),
    ("kind", .option (fun k => .str k.name) (PartKind.parse? id))])

def policyAnswer (j : JsonValue) : Read JsonValue := do
  let p ← policyNamed (← stringAt j "policy")
  let previous ← match optional j "previous" with
    | some v => do
      let id ← string "previous" v
      pure (some (id, ← kindNamed (← stringAt j "previous_kind")))
    | none => pure none
  let id ← stringAt j "next"
  let next := (id, ← kindNamed (← stringAt j "next_kind"))
  return Answer.ok (.bool (p.isForced previous next))

def dropZoneAnswer (j : JsonValue) : Read JsonValue := do
  let r ← rectAt j "rect"
  let (x, y) ← point "pointer" (← field j "pointer")
  return match dropZone r x y with
    | Except.ok z => Answer.ok (.str (DropPosition.ofZone z).name)
    | Except.error o => o.toJson

def dropEvalAnswer (j : JsonValue) : Read JsonValue := do
  let source ← dragSource (← field j "source")
  let target ← targetFacts (← field j "target")
  let pointer ← point "pointer" (← field j "pointer")
  let floating ← boolOr j "floating" true
  return match DropQuery.decide { source, target, pointer, floating } with
    | .ok d => Answer.ok (Answer.decision d)
    | .error o => o.toJson

def mementoAnswer (j : JsonValue) : Read JsonValue := do
  let some m ← mementoAt j | return invalidMemento
  let key ← stringAt j "key"
  return Answer.ok (.obj [
    ("kind", .str m.kind),
    ("str", required .str (m.requireStr key)),
    ("int", required .int (m.requireInt key)),
    ("u16", required (fun v => .nat v.toNat) (m.requireU16 key)),
    ("i32", required (fun v => .int v.toInt) (m.requireI32 key)),
    ("bool", .option .bool (m.bool? key)),
    ("child", required (fun c => .str c.kind) (m.requireChild key)),
    ("children_of", .nat (m.childrenOf key).length),
    ("round_trip", m.toJson)])

def layoutAnswer (j : JsonValue) : Read JsonValue := do
  let steps ← listAt j "steps"
  let editorArea ← boolOr j "editor_area" false
  let floating ← boolOr j "floating" true
  return Answer.script
    (runScript id LayoutSession.readStep Script.layoutStep (LayoutSession.start editorArea floating) steps)
    fun s => Answer.layoutState s.layout

def restoreLayoutAnswer (j : JsonValue) : Read JsonValue := do
  let some m ← mementoAt j | return invalidMemento
  let floating ← boolOr j "floating" true
  return match Layout.restore (Host.fresh floating) m with
    | .error e => Answer.ok e.toJson
    | .ok l => Answer.ok (Answer.ok (.obj [("layout", .str l.describe),
        ("zoomed", .option Answer.node l.zoomed), ("editor_area", .option Answer.node l.editorArea),
        ("saved", l.save.toJson), ("host", Answer.host l.host)]))

def historyAnswer (j : JsonValue) : Read JsonValue := do
  let steps ← listAt j "steps"
  return Answer.script (runScript id (fun _ => HistoryCommand.read) Script.historyStep {} steps)
    Answer.historyState

def factoryAnswer (j : JsonValue) : Read JsonValue := do
  let steps ← listAt j "steps"
  let s : FactorySession := { factory := { registry := ← registry j } }
  return Answer.script (runScript id (fun _ => FactoryCommand.read) Script.factoryStep s steps)
    Answer.factoryState

def pageAnswer (j : JsonValue) : Read JsonValue := do
  let steps ← listAt j "steps"
  let policy ← policyOf j
  let editorArea ← boolOr j "editor_area" true
  let floating ← boolOr j "floating" true
  let s := PageSession.start policy editorArea floating (← registry j)
  return Answer.script (runScript PageSession.clearEvents PageSession.readStep Script.pageStep s steps)
    Answer.pageState

end Request

namespace Operation

/-- Reads the rest of a request and answers it. -/
def answer : Operation → JsonValue → Read JsonValue
  | .partId => partIdAnswer
  | .policy => policyAnswer
  | .dropZone => dropZoneAnswer
  | .dropEval => dropEvalAnswer
  | .memento => mementoAnswer
  | .layout => layoutAnswer
  | .restoreLayout => restoreLayoutAnswer
  | .history => historyAnswer
  | .factory => factoryAnswer
  | .page => pageAnswer

end Operation

/-- The answer to a request. -/
def JsonValue.answer (j : JsonValue) : JsonValue :=
  let reply : Read JsonValue := do
    let op ← stringAt j "op"
    match Operation.named? op with
    | some o => o.answer j
    | none => .error (.unknownOp op)
  match reply with
  | .ok r => r
  | .error e => e.toJson

/-- The answer to a request line, as compact JSON text. -/
def answerLine (line : String) : String :=
  match JsonValue.readLine line with
  | Except.ok j => j.answer.render
  | Except.error e => (Refusal.unreadable e).toJson.render

end Docking
