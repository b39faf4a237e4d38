import Docking.Proofs.Page.Outcome
import Docking.Page.Parts
/-!
# Activation keeps a page's bookkeeping

A page keeps three records of the parts it owns: the controller's owned parts, the activation
history, and the layout's fast views. `PageM.Tracks c p` says that they agree on the owned
parts `c`: the controller owns exactly `c`, the history lists exactly their ids, and every fast
view is one of them.

Moving activation never breaks that agreement: the part taking over is always owned
(`keeps_switch`, `keeps_grant`), catching up with a changed layout marks fast views without
adding entries (`keeps_changed`), and activating runs layout requests that add no fast view
(`keeps_activate`). Apart from the activation requests themselves, moving activation keeps any
property that reads only the layout, the owned parts and the stamp counter
(`PageM.IgnoresActivation`).
-/

namespace Docking

namespace PageM

open Layout

/-- The page's bookkeeping follows the owned parts `c`: the controller owns exactly `c`, the
history lists exactly their ids, and every fast view is one of them. -/
structure Tracks (c : List (PartId × Owned)) (p : Page) : Prop where
  parts : p.controller.parts = c
  history : ∀ id, id ∈ p.history.parts ↔ id ∈ c.map (·.1)
  fast : p.layout.FastWithin (c.map (·.1))

section Tracks

variable {α β : Type} {c : List (PartId × Owned)}

theorem Tracks.withHistory {p : Page} (hp : Tracks c p) {h : History}
    (hh : h.parts = p.history.parts) : Tracks c { p with history := h } :=
  ⟨hp.parts, fun x => hh ▸ hp.history x, hp.fast⟩

theorem Tracks.mem_of_kindOf? {p : Page} (hp : Tracks c p) {id : PartId} {k : PartKind}
    (h : p.controller.kindOf? id = some k) : id ∈ c.map (·.1) := by
  rw [← hp.parts]
  exact (p.controller.isSome_kindOf?_iff id).mp (by simp [h])

theorem keeps_emit (e : PageEvent) : Keeps (Tracks c) (emit e) :=
  fun _ hp => ⟨hp.parts, hp.history, hp.fast⟩

theorem keeps_onLayout {x : LayoutM α} (hx : LayoutM.Keeps (FastWithin (c.map (·.1))) x) :
    Keeps (Tracks c) (onLayout x) := fun _ hp =>
  ends_onLayout x fun _ => ⟨hp.parts, hp.history, hx.leaves hp.fast⟩

theorem keeps_setActive (a : Option PartId) :
    Keeps (Tracks c) (onController fun ctl => { ctl with active := a }) :=
  fun _ hp => ⟨hp.parts, hp.history, hp.fast⟩

theorem keeps_recordActivated {id : PartId} (k : PartKind) (hid : id ∈ c.map (·.1)) :
    Keeps (Tracks c) (onHistory (·.recordActivated id k)) := fun p hp => by
  refine ⟨hp.parts, fun x => ?_, hp.fast⟩
  show x ∈ (p.history.recordActivated id k).parts ↔ _
  rw [History.mem_parts_recordActivated, hp.history]
  exact or_iff_left_of_imp fun hx => hx ▸ hid

theorem keeps_switch (previous : Option (PartId × PartKind)) {next : Option (PartId × PartKind)}
    (hnext : ∀ n ∈ next, n.1 ∈ c.map (·.1)) : Keeps (Tracks c) (switch previous next) := by
  refine keeps_get_bind fun _ _ => ?_
  -- the deactivation report comes first, then the join point activates `next`
  rcases next with _ | ⟨id, kind⟩
  · dsimp only
    split
    · exact keeps_bind (keeps_emit _) fun _ => keeps_setActive _
    · exact keeps_setActive _
  · have hon := fun forced => keeps_bind (keeps_setActive (some id)) fun _ =>
      keeps_bind (keeps_recordActivated kind (hnext _ rfl)) fun _ =>
        keeps_emit (c := c) (.activated id forced)
    dsimp only
    split
    · exact keeps_bind (keeps_emit _) fun _ => hon _
    · exact hon _

theorem keeps_grant (id : PartId) : Keeps (Tracks c) (grant id) := by
  refine keeps_get_bind fun p hp => ?_
  dsimp only
  split
  · exact keeps_pure false
  · rename_i kind hk
    have hid := hp.mem_of_kindOf? hk
    split
    · exact keeps_bind (keeps_recordActivated kind hid) fun _ => keeps_pure false
    · exact keeps_bind (keeps_switch _ fun _ hn => Option.mem_some_iff.mp hn ▸ hid) fun _ =>
        keeps_pure true

theorem keeps_activateNext : Keeps (Tracks c) activateNext := by
  refine keeps_get_bind fun p hp => ?_
  split
  · exact keeps_pure false
  · split
    · exact keeps_pure false
    · -- the part taking over is the most recent one the controller still owns
      have hnext : ∀ n ∈ p.history.current.bind p.controller.withKind, n.1 ∈ c.map (·.1) := by
        intro n hn
        obtain ⟨id, -, hw⟩ := Option.mem_bind_iff.mp hn
        rw [← hp.parts]
        exact Controller.mem_ownedIds_of_withKind hw
      exact keeps_bind (keeps_switch _ hnext) fun _ => keeps_pure true

theorem keeps_changed (wasZoomed : Bool) : Keeps (Tracks c) (changed wasZoomed) := by
  refine keeps_get_bind fun p hp => ?_
  dsimp only
  -- marking the fast views minimized leaves the history's parts as they are
  refine keeps_bind (fun _ _ => hp.withHistory (History.parts_foldl_setMinimized _ _ _))
    fun _ => ?_
  refine keeps_bind keeps_activateNext fun _ => keeps_zoomed_bind fun now => ?_
  split
  · exact keeps_bind (keeps_emit _) fun _ => keeps_emit _
  · exact keeps_emit _

theorem keeps_activate (id : PartId) : Keeps (Tracks c) (activate id) := by
  refine keeps_owns_bind id fun _ => ?_
  split
  · exact keeps_pure false
  refine keeps_zoomed_bind fun wasZoomed => keeps_get_bind fun p _ => ?_
  -- the continuations of the `do` block, from the last one back
  extract_lets finish afterRestore
  have hfinish : ∀ u, Keeps (Tracks c) (finish u) := fun _ =>
    keeps_bind (keeps_onLayout ((LayoutM.readsFast_fastWithin _).keeps_bringToTop id)) fun _ => keeps_grant id
  have hafter : ∀ restored, Keeps (Tracks c) (afterRestore restored) := by
    intro restored
    refine keeps_get_bind fun q _ => ?_
    extract_lets l afterZoom
    have hz : ∀ unzoomed, Keeps (Tracks c) (afterZoom unzoomed) := by
      intro unzoomed
      simp only [afterZoom]
      split
      · exact keeps_bind (keeps_changed _) hfinish
      · exact hfinish ()
    split
    · split
      · exact keeps_bind (keeps_pure _) hz
      · exact keeps_bind (keeps_onLayout (LayoutM.readsFast_fastWithin _).keeps_zoomOut) fun _ =>
          keeps_bind (keeps_pure _) hz
    · exact keeps_bind (keeps_pure _) hz
  split
  · exact keeps_bind (keeps_onLayout ((LayoutM.readsFast_fastWithin _).keeps_restoreFast (LayoutM.keeps_dropFast _))) fun _ =>
      keeps_bind (keeps_pure _) hafter
  · exact keeps_bind (keeps_pure _) hafter

end Tracks

/-! ### Requests that only move activation

Switching the active part, recording the history and reporting events leave the layout, the
owned parts and the stamp counter as they are: they keep every property that reads only
these. -/

/-- A property of pages that reads only the layout, the owned parts and the stamp counter:
moving activation, recording the history and reporting keep it. -/
def IgnoresActivation (P : Page → Prop) : Prop :=
  ∀ p q : Page, q.layout = p.layout → q.controller.parts = p.controller.parts →
    q.controller.lastStamp = p.controller.lastStamp → P p → P q

theorem ignoresActivation_layout (Q : Layout → Prop) : IgnoresActivation fun p => Q p.layout :=
  fun _ _ hl _ _ h => by
    dsimp only at h ⊢
    rwa [hl]

namespace IgnoresActivation

variable {P : Page → Prop} (hP : IgnoresActivation P)
include hP

theorem keeps_emit (e : PageEvent) : Keeps P (emit e) :=
  fun p h => hP p _ rfl rfl rfl h

theorem keeps_onHistory (f : History → History) : Keeps P (onHistory f) :=
  fun p h => hP p _ rfl rfl rfl h

theorem keeps_setActive (a : Option PartId) :
    Keeps P (onController fun c => { c with active := a }) :=
  fun p h => hP p _ rfl rfl rfl h

theorem keeps_switch (previous next : Option (PartId × PartKind)) :
    Keeps P (switch previous next) := by
  refine keeps_get_bind fun _ _ => ?_
  -- the deactivation report comes first, then the join point activates `next`
  rcases next with _ | ⟨id, kind⟩
  · dsimp only
    split
    · exact keeps_bind (hP.keeps_emit _) fun _ => hP.keeps_setActive _
    · exact hP.keeps_setActive _
  · have hon := fun forced => keeps_bind (hP.keeps_setActive (some id)) fun _ =>
      keeps_bind (hP.keeps_onHistory (·.recordActivated id kind)) fun _ =>
        hP.keeps_emit (.activated id forced)
    dsimp only
    split
    · exact keeps_bind (hP.keeps_emit _) fun _ => hon _
    · exact hon _

theorem keeps_grant (id : PartId) : Keeps P (grant id) := by
  refine keeps_get_bind fun _ _ => ?_
  dsimp only
  split
  · exact keeps_pure false
  · split
    · exact keeps_bind (hP.keeps_onHistory _) fun _ => keeps_pure false
    · exact keeps_bind (hP.keeps_switch _ _) fun _ => keeps_pure true

theorem keeps_activateNext : Keeps P activateNext := by
  refine keeps_get_bind fun _ _ => ?_
  split
  · exact keeps_pure false
  · split
    · exact keeps_pure false
    · exact keeps_bind (hP.keeps_switch _ _) fun _ => keeps_pure true

theorem keeps_changed (wasZoomed : Bool) : Keeps P (changed wasZoomed) := by
  refine keeps_get_bind fun p hp => ?_
  dsimp only
  -- marking the fast views minimized touches the history alone
  refine keeps_bind (fun _ _ => hP p _ rfl rfl rfl hp) fun _ => ?_
  refine keeps_bind hP.keeps_activateNext fun _ => keeps_zoomed_bind fun now => ?_
  split
  · exact keeps_bind (hP.keeps_emit _) fun _ => hP.keeps_emit _
  · exact hP.keeps_emit _

end IgnoresActivation

end PageM

end Docking
