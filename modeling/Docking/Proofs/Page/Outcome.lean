import Docking.Proofs.FastViews
import Docking.Page.Basic
/-!
# What a page request ends with

A request on a page always answers. `PageM.Ends x p Q` says that running `x` from `p` gives an
answer and a page that `Q` accepts. As for layouts (`LayoutM.Ends`), there is one rule per way
a request is built and per primitive a page request uses (reading the zoom, running a layout
request, a loop over a list), so that proofs run a request step by step with `rw`.

`PageM.Keeps P x` says that `x` keeps a property `P` of pages. It composes along `do` blocks
(`keeps_bind`, `keeps_get_bind`), so that a request keeps `P` once every step does.
-/

namespace Docking

namespace PageM

/-- Running `x` from `p` gives an answer and a page that `Q` accepts. -/
def Ends {α : Type} (x : PageM α) (p : Page) (Q : α → Page → Prop) : Prop :=
  Q (x.run p).1 (x.run p).2

section Rules

variable {α β : Type} {p : Page} {Q : β → Page → Prop}

theorem Ends.mono {x : PageM β} {Q' : β → Page → Prop} (h : Ends x p Q)
    (hQ : ∀ a q, Q a q → Q' a q) : Ends x p Q' := hQ _ _ h

theorem ends_pure (b : β) : Ends (pure b : PageM β) p Q ↔ Q b p := Iff.rfl

theorem ends_bind (x : PageM α) (f : α → PageM β) :
    Ends (x >>= f) p Q ↔ Ends x p fun a p' => Ends (f a) p' Q := Iff.rfl

theorem ends_get {Q : Page → Page → Prop} : Ends get p Q ↔ Q p p := Iff.rfl

theorem ends_modify (f : Page → Page) {Q : Unit → Page → Prop} :
    Ends (modify f) p Q ↔ Q () (f p) := Iff.rfl

theorem ends_zoomed {Q : Bool → Page → Prop} : Ends zoomed p Q ↔ Q p.isZoomed p := Iff.rfl

theorem ends_onLayout (x : LayoutM α) {Q : Except LayoutError α → Page → Prop}
    (h : ∀ r, Q r { p with layout := x.leaves p.layout }) : Ends (onLayout x) p Q := by
  rw [onLayout, ends_bind, ends_get]
  revert h
  unfold LayoutM.leaves
  cases x.run p.layout <;> exact fun h => h _

theorem ends_forM {γ : Type} (xs : List γ) (f : γ → PageM PUnit) (I : List γ → Page → Prop)
    (hf : ∀ x rest p, I (x :: rest) p → Ends (f x) p fun _ p' => I rest p') (hp : I xs p) :
    Ends (xs.forM f) p fun _ p' => I [] p' := by
  induction xs generalizing p with
  | nil => exact hp
  | cons x rest ih =>
    rw [List.forM_eq_forM, List.forM_cons, ends_bind]
    exact ih (hf x rest p hp)

end Rules

/-- A page request keeps a property of pages. -/
def Keeps {α : Type} (P : Page → Prop) (x : PageM α) : Prop :=
  ∀ p, P p → Ends x p fun _ p' => P p'

section KeepRules

variable {α β : Type} {P : Page → Prop}

theorem keeps_pure (b : β) : Keeps P (pure b : PageM β) := fun _ h => h

theorem keeps_bind {x : PageM α} {f : α → PageM β} (hx : Keeps P x)
    (hf : ∀ a, Keeps P (f a)) : Keeps P (x >>= f) := fun p hp =>
  (hx p hp).mono fun a q hq => hf a q hq

/-- What is read from the page may steer the rest of the request, which then starts from
that same page. -/
theorem keeps_get_bind {f : Page → PageM β} (hf : ∀ p, P p → Keeps P (f p)) :
    Keeps P (get >>= f) := fun p hp => hf p hp p hp

theorem keeps_zoomed_bind {f : Bool → PageM β} (hf : ∀ b, Keeps P (f b)) :
    Keeps P (zoomed >>= f) := fun p hp => hf _ p hp

theorem keeps_owns_bind (id : PartId) {f : Bool → PageM β} (hf : ∀ b, Keeps P (f b)) :
    Keeps P (owns id >>= f) := fun p hp => hf _ p hp

end KeepRules

end PageM

end Docking
