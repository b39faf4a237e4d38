import Docking.Request.Refusal
import Docking.Layout.Basic
import Docking.Drop.Policy
import Docking.Memento.Basic
import Docking.Instances.Factory
/-!
# Answers of scripted commands

A script drives a layout or a page step by step. Each step is read against the state it runs
on; a step refused when read (`Refusal`) changes nothing. A step that is read runs as a command
and answers a `Reply` or a `Fault`: a refusal of the layout, a document that cannot be read
back, a view that cannot be had, a pointer outside the coordinates, or an overflow, which ends
the script.
-/

namespace Docking

/-- What a command answers when it succeeds. -/
inductive Reply where
  | none
  | flag (b : Bool)
  | node (n : NodeId)
  | maybeNode (n : Option NodeId)
  | maybeWindow (w : Option WindowId)
  | place (w : Option WindowRef)
  | regions (rs : List (PartId × Rect))
  | decision (d : DropDecision)
  /-- A drop decided and carried out on a layout, with what carrying it out answered. -/
  | dropped (d : DropDecision) (applied : Except LayoutError Bool)
  /-- A drop decided and carried out on a page. -/
  | droppedOnPage (d : DropDecision) (applied : Bool)
  | memento (m : Memento)
  /-- A node and what the table holds under its handle. -/
  | info (n : NodeId) (node : Option Node)
  | parts (ps : List PartId)
  | maybePart (p : Option PartId)
  | windows (shown : List Window) (parked : List ParkedWindow)
  | inst (i : Instance)
  | count (n : Nat)
  | released (r : Release)
  deriving Inhabited

/-- Why a command gives no reply. -/
inductive Fault where
  | layout (e : LayoutError)
  | restore (e : RestoreError)
  | creation (e : CreationError)
  /-- A pointer given in percentages lands outside the 32-bit coordinates. -/
  | pointerOutOfRange
  | overflow (o : Overflow)
  deriving Inhabited

/-- Whether a fault ends the script. -/
def Fault.ends : Fault → Bool
  | .overflow _ => true
  | _ => false

/-- What a step of a script comes to: refused when read, or run to a reply or a fault. -/
abbrev Outcome := Except Refusal (Except Fault Reply)

/-- Runs the steps of a script in order from a state, pairing each outcome with the state after
it. Each step first passes through `start` (which clears what is kept per step), and is then
read against the state it runs on; a step refused when read changes nothing more, and a step
whose fault ends the script is the last one run. -/
def runScript {σ γ : Type} (start : σ → σ) (read : σ → JsonValue → Except Refusal γ)
    (step : σ → γ → Except Fault Reply × σ) : σ → List JsonValue → List (Outcome × σ)
  | _, [] => []
  | s, j :: rest =>
    let s := start s
    match read s j with
    | .error e => (.error e, s) :: runScript start read step s rest
    | .ok c =>
      let (r, s') := step s c
      match r with
      | .error f => if f.ends then [(.ok r, s')] else (.ok r, s') :: runScript start read step s' rest
      | .ok _ => (.ok r, s') :: runScript start read step s' rest

end Docking
