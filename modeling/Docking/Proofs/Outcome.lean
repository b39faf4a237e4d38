import Docking.Layout.Basic
/-!
# What a request ends with

A request on a layout either gives a value and a layout, or is refused with an error and
the layout it leaves (refused requests keep the changes made before the refusal).
`LayoutM.Ends x l ok err` says that running `x` from `l` ends in a state `ok` accepts when
it succeeds and in one `err` accepts when it is refused. Proofs about requests state both
sides: a property that must hold "whether each call returns `Ok` or `Err`" is an `Ends`
with the same predicate on both.

This module gives one rule per way a request is built (`pure`, `bind`, `get`, `set`,
`throw`, `onError`, a loop over a list, a loop climbing the table) and per shared primitive of `LayoutM` (`store`,
`edit`, `alloc`, `node`, `select`, ...), so that a proof about a request runs it step by step
with `rw` and never unfolds `EStateM`.
-/

namespace Docking

namespace LayoutM

/-- Running `x` from `l` ends in a state `ok` accepts when it succeeds, and in one `err`
accepts when it is refused. -/
def Ends {α : Type} (x : LayoutM α) (l : Layout) (ok : α → Layout → Prop)
    (err : LayoutError → Layout → Prop) : Prop :=
  match x l with
  | .ok a l' => ok a l'
  | .error e l' => err e l'

section Rules

variable {α β : Type} {l : Layout} {ok : β → Layout → Prop} {err : LayoutError → Layout → Prop}

theorem Ends.mono {x : LayoutM α} {ok ok' : α → Layout → Prop}
    {err' : LayoutError → Layout → Prop} (h : Ends x l ok err)
    (hok : ∀ a l', ok a l' → ok' a l') (herr : ∀ e l', err e l' → err' e l') :
    Ends x l ok' err' := by
  unfold Ends at *
  cases hx : x l with
  | ok a l' =>
    rw [hx] at h
    exact hok a l' h
  | error e l' =>
    rw [hx] at h
    exact herr e l' h

theorem Ends.of_unchanged {x : LayoutM α} {ok : α → Layout → Prop} {P : Layout → Prop}
    (h : Ends x l ok fun _ l' => l' = l) (hl : P l) : Ends x l ok fun _ l' => P l' :=
  h.mono (fun _ _ h => h) fun _ _ h => h ▸ hl

/-- Two facts about the same run hold together. -/
theorem Ends.and {x : LayoutM α} {ok₁ ok₂ : α → Layout → Prop}
    {err₁ err₂ : LayoutError → Layout → Prop} (h₁ : Ends x l ok₁ err₁) (h₂ : Ends x l ok₂ err₂) :
    Ends x l (fun a l' => ok₁ a l' ∧ ok₂ a l') fun e l' => err₁ e l' ∧ err₂ e l' := by
  unfold Ends at *
  cases hx : x l with
  | ok a l' =>
    rw [hx] at h₁ h₂
    exact ⟨h₁, h₂⟩
  | error e l' =>
    rw [hx] at h₁ h₂
    exact ⟨h₁, h₂⟩

theorem Ends.of_forall {x : LayoutM β} (hok : ∀ a l', ok a l') (herr : ∀ e l', err e l') :
    Ends x l ok err := by
  unfold Ends
  cases x l with
  | ok a l' => exact hok a l'
  | error e l' => exact herr e l'

theorem ends_pure (b : β) : Ends (pure b : LayoutM β) l ok err ↔ ok b l := Iff.rfl

theorem ends_bind (x : LayoutM α) (f : α → LayoutM β) :
    Ends (x >>= f) l ok err ↔ Ends x l (fun a l' => Ends (f a) l' ok err) err := by
  unfold Ends
  show (match EStateM.bind x f l with | .ok a l' => ok a l' | .error e l' => err e l') ↔ _
  unfold EStateM.bind
  cases x l <;> rfl

theorem ends_get {ok : Layout → Layout → Prop} :
    Ends (get : LayoutM Layout) l ok err ↔ ok l l := Iff.rfl

theorem ends_set (l' : Layout) {ok : Unit → Layout → Prop} :
    Ends (set l' : LayoutM Unit) l ok err ↔ ok () l' := Iff.rfl

theorem ends_modify (f : Layout → Layout) {ok : Unit → Layout → Prop} :
    Ends (modify f : LayoutM Unit) l ok err ↔ ok () (f l) := Iff.rfl

theorem ends_throw (e : LayoutError) : Ends (throw e : LayoutM β) l ok err ↔ err e l := Iff.rfl

theorem ends_onError (x : LayoutM β) (h : LayoutError → LayoutM β) :
    Ends (onError x h) l ok err ↔ Ends x l ok fun e l' => Ends (h e) l' ok err := by
  unfold Ends onError
  cases x l <;> rfl

theorem ends_guard {c : Prop} [Decidable c] {e : LayoutError} {k : Unit → LayoutM β}
    (hc : c → err e l) (hk : ¬ c → Ends (k ()) l ok err) :
    Ends (if c then (throw e : LayoutM Unit) >>= k else k ()) l ok err := by
  split
  · next h => exact hc h
  · next h => exact hk h

/-- A loop over a list keeps an invariant of the items left when each pass keeps it and
goes on to the next item. -/
theorem ends_forIn {γ : Type} (xs : List γ) (b : β) (f : γ → β → LayoutM (ForInStep β))
    (inv : List γ → β → Layout → Prop)
    (step : ∀ x rest b l, inv (x :: rest) b l →
      Ends (f x b) l (fun r l' => ∃ b', r = .yield b' ∧ inv rest b' l') err)
    (h : inv xs b l) : Ends (forIn xs b f) l (fun b' l' => inv [] b' l') err := by
  induction xs generalizing b l with
  | nil => exact h
  | cons x rest ih =>
    rw [List.forIn_cons, ends_bind]
    refine (step x rest b l h).mono (fun r l' hr => ?_) (fun _ _ h => h)
    obtain ⟨b', rfl, hi⟩ := hr
    exact ih b' hi

/-- One pass of an upward loop, then the rest of the loop from the node the pass goes on
from; the loop ends where a pass names no node. -/
theorem ends_climbFrom_succ (pass : NodeId → LayoutM (Option NodeId)) (k : Nat) (cur : NodeId)
    {ok : Unit → Layout → Prop} :
    Ends (climbFrom pass (k + 1) cur) l ok err ↔
      Ends (pass cur) l (fun r l' => r.elim (ok () l') fun next =>
        Ends (climbFrom pass k next) l' ok err) err := by
  rw [climbFrom, ends_bind]
  unfold Ends
  cases pass cur l with
  | ok r l' => cases r <;> rfl
  | error e l' => rfl

end Rules

/-! ### The primitives of `LayoutM` -/

section Primitives

variable {α : Type} {l : Layout} {err : LayoutError → Layout → Prop}

theorem ends_store {ok : Store → Layout → Prop} : Ends store l ok err ↔ ok l.store l := Iff.rfl

theorem ends_onStore (f : Store → Store) {ok : Unit → Layout → Prop} :
    Ends (onStore f) l ok err ↔ ok () { l with store := f l.store } := Iff.rfl

theorem ends_edit (f : Store → Except LayoutError Store) {ok : Unit → Layout → Prop} :
    Ends (edit f) l ok err ↔
      match f l.store with
      | .ok s => ok () { l with store := s }
      | .error e => err e l := by
  rw [edit, ends_bind, ends_get]
  cases f l.store <;> rfl

theorem ends_editWith (f : Store → Except LayoutError (α × Store)) {ok : α → Layout → Prop} :
    Ends (editWith f) l ok err ↔
      match f l.store with
      | .ok (a, s) => ok a { l with store := s }
      | .error e => err e l := by
  rw [editWith, ends_bind, ends_get]
  cases f l.store <;> rfl

theorem ends_edit_of_ok {f : Store → Except LayoutError Store} {s : Store}
    {ok : Unit → Layout → Prop} (h : f l.store = .ok s) :
    Ends (edit f) l ok err ↔ ok () { l with store := s } := by
  rw [ends_edit, h]

theorem ends_editWith_of_ok {f : Store → Except LayoutError (α × Store)} {a : α} {s : Store}
    {ok : α → Layout → Prop} (h : f l.store = .ok (a, s)) :
    Ends (editWith f) l ok err ↔ ok a { l with store := s } := by
  rw [ends_editWith, h]

theorem ends_alloc (ident : String) (kind : NodeKind) {ok : NodeId → Layout → Prop} :
    Ends (alloc ident kind) l ok err ↔
      ok l.store.nextId { l with store := (l.store.alloc ident kind).2 } := Iff.rfl

theorem ends_allocContainer (kind : NodeKind) {ok : NodeId → Layout → Prop} :
    Ends (allocContainer kind) l ok err ↔
      ok l.store.nextId { l with store := (l.store.allocContainer kind).2 } := Iff.rfl

theorem ends_node (id : NodeId) {ok : Node → Layout → Prop} :
    Ends (node id) l ok err ↔
      match l.store.get? id with
      | some n => ok n l
      | none => err (.unknownNode id) l := by
  rw [node, ends_bind, ends_store]
  unfold Store.node
  cases l.store.get? id <;> rfl

theorem ends_node_of {id : NodeId} {n : Node} {ok : Node → Layout → Prop}
    (h : l.store.get? id = some n) : Ends (node id) l ok err ↔ ok n l := by
  rw [ends_node, h]

theorem ends_select (id : NodeId) {ok : Bool → Layout → Prop} :
    Ends (select id) l ok err ↔
      ok (l.store.select id).1 { l with store := (l.store.select id).2 } := Iff.rfl

theorem ends_zoomOut {ok : Bool → Layout → Prop} :
    Ends zoomOut l ok err ↔ ok l.zoomed.isSome { l with zoomed := none } := Iff.rfl

theorem ends_dropFast (part : PartId) {ok : Unit → Layout → Prop} :
    Ends (dropFast part) l ok err ↔
      ok () { l with fastViews := l.fastViews.filter (· != part) } := Iff.rfl

end Primitives

end LayoutM

end Docking
