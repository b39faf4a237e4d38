/-!
# Parts: the editors and views a page shows

A part is named by a text id. An id may carry a secondary id after its first `:`
(`view.console:2`), so that several instances of one view stand side by side; the text
before that colon is the primary id, which picks the view's descriptor.
-/

namespace Docking

/-- Whether a part is an editor (a document) or a view (a tool beside the documents). -/
inductive PartKind where
  | editor
  | view
  deriving DecidableEq, Repr, Inhabited

namespace PartKind

/-- The lower-case name of a kind, as saved documents spell it. -/
def name : PartKind → String
  | .editor => "editor"
  | .view => "view"

/-- Reads a kind from its exact name; any other text names no kind. -/
def parse? : String → Option PartKind
  | "editor" => some .editor
  | "view" => some .view
  | _ => none

@[simp] theorem parse?_name (k : PartKind) : parse? k.name = some k := by
  cases k <;> rfl

end PartKind

/-- Part ids are texts; the part with a given id is unique on a page. -/
abbrev PartId := String

namespace PartId

/-- The text before the first `:`, or the whole id when it has none. -/
def primary (id : PartId) : String :=
  String.ofList (id.toList.takeWhile (· ≠ ':'))

/-- The text after the first `:`, if the id has one. -/
def secondary? (id : PartId) : Option String :=
  match id.toList.dropWhile (· ≠ ':') with
  | [] => none
  | _ :: rest => some (String.ofList rest)

end PartId

end Docking
