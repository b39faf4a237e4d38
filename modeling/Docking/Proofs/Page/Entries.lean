import Docking.Proofs.Page.Cycling
/-!
# Every owned part has an entry in the history

A page keeps an entry in its activation history for every part it owns. Opening a part
registers it before the layout places it and records it at the head of the history only once
the layout has accepted it; `PageM.Recorded pend` allows that one part `pend` in between. Every
request also keeps the history in the shape `History.Kept` names: no part twice, and the
minimized parts in key order, each with an entry.

Main statement (`PageSession.history_lists_owned`): on a page reached by commands the history
has that shape, its parts are exactly the owned parts, and the active part is its most recent
entry.
-/

namespace Docking

namespace History

theorem Kept.foldl {add : History → PartId → History} (hadd : ∀ h id, Kept h → Kept (add h id))
    (ids : List PartId) {h : History} (hk : Kept h) : Kept (ids.foldl add h) := by
  induction ids generalizing h with
  | nil => exact hk
  | cons id rest ih => exact ih (hadd h id hk)

theorem Kept.foldl_setMinimized {h : History} (hk : Kept h) (ids : List PartId)
    (g : PartId → Bool) : Kept (ids.foldl (fun h id => h.setMinimized id (g id)) h) :=
  Kept.foldl (fun _ id hk => hk.setMinimized id (g id)) ids hk

end History

namespace PageM

/-- Once the history is marked, catching up with the layout activates the next part and reports
the change: what those keep, the rest of catching up keeps. -/
theorem keeps_changed_tail {P : Page → Prop} (hnext : Keeps P activateNext)
    (hemit : ∀ e, Keeps P (emit e)) (wasZoomed : Bool) :
    Keeps P (do
      let _ ← activateNext
      let now ← zoomed
      if now != wasZoomed then emit (.zoomChanged now)
      emit .layoutChanged) := by
  refine keeps_bind hnext fun _ => keeps_zoomed_bind fun now => ?_
  split
  · exact keeps_bind (hemit _) fun _ => hemit _
  · exact hemit _

/-- Every owned part has an entry in the history, but for the part `pend`, registered and not
recorded yet; and the history has the shape that the history's operations keep. -/
structure Recorded (pend : Option PartId) (p : Page) : Prop where
  kept : p.history.Kept
  entries : ∀ x, p.controller.isOwned x = true → x ∈ p.history.parts ∨ pend = some x

section Recorded

variable {α β : Type} {pend : Option PartId} {p : Page}

theorem Recorded.frame (hp : Recorded pend p) {q : Page}
    (hc : q.controller.parts = p.controller.parts) (hh : q.history = p.history) :
    Recorded pend q := by
  have hown : ∀ x, q.controller.isOwned x = p.controller.isOwned x := fun x => by
    rw [Controller.isOwned, Controller.isOwned, hc]
  refine ⟨hh ▸ hp.kept, fun x hx => ?_⟩
  rw [hh]
  exact hp.entries x (hown x ▸ hx)

/-- A new history of the same shape that drops no entry. -/
theorem Recorded.withHistory (hp : Recorded pend p) {h : History} (hk : h.Kept)
    (hh : ∀ x ∈ p.history.parts, x ∈ h.parts) : Recorded pend { p with history := h } :=
  ⟨hk, fun x hx => (hp.entries x hx).imp_left (hh x)⟩

theorem Recorded.keeps_onLayout (x : LayoutM α) : Keeps (Recorded pend) (onLayout x) :=
  keeps_onLayout_of (fun _ _ hq => hq.frame rfl rfl) x

theorem Recorded.keeps_emit (e : PageEvent) : Keeps (Recorded pend) (emit e) :=
  fun _ hp => hp.frame rfl rfl

theorem Recorded.keeps_setActive (a : Option PartId) :
    Keeps (Recorded pend) (onController fun c => { c with active := a }) :=
  fun _ hp => hp.frame rfl rfl

theorem Recorded.keeps_withFactory (f : Page → Factory) :
    Keeps (Recorded pend) (modify fun p => { p with factory := f p }) :=
  fun _ hp => hp.frame rfl rfl

theorem Recorded.keeps_recordActivated (id : PartId) (k : PartKind) :
    Keeps (Recorded pend) (onHistory (·.recordActivated id k)) := fun p hp =>
  hp.withHistory (hp.kept.recordActivated id k)
    fun x hx => (p.history.mem_parts_recordActivated id k x).mpr (.inl hx)

/-! ### Moving activation -/

theorem Recorded.keeps_switch (previous next : Option (PartId × PartKind)) :
    Keeps (Recorded pend) (switch previous next) := by
  refine keeps_get_bind fun _ _ => ?_
  -- the deactivation report comes first, then the join point activates `next`
  rcases next with _ | ⟨id, kind⟩
  · dsimp only
    split
    · exact keeps_bind (Recorded.keeps_emit _) fun _ => Recorded.keeps_setActive _
    · exact Recorded.keeps_setActive _
  · have hon := fun forced => (keeps_bind (Recorded.keeps_setActive (some id))
      fun _ => keeps_bind (Recorded.keeps_recordActivated id kind) fun _ =>
        Recorded.keeps_emit (.activated id forced) : Keeps (Recorded pend) _)
    dsimp only
    split
    · exact keeps_bind (Recorded.keeps_emit _) fun _ => hon _
    · exact hon _

theorem Recorded.keeps_grant (id : PartId) : Keeps (Recorded pend) (grant id) := by
  refine keeps_get_bind fun _ _ => ?_
  dsimp only
  split
  · exact keeps_pure false
  · split
    · exact keeps_bind (Recorded.keeps_recordActivated _ _) fun _ => keeps_pure false
    · exact keeps_bind (Recorded.keeps_switch _ _) fun _ => keeps_pure true

theorem Recorded.keeps_activateNext : Keeps (Recorded pend) activateNext := by
  refine keeps_get_bind fun _ _ => ?_
  split
  · exact keeps_pure false
  · split
    · exact keeps_pure false
    · exact keeps_bind (Recorded.keeps_switch _ _) fun _ => keeps_pure true

theorem Recorded.keeps_changed (wasZoomed : Bool) : Keeps (Recorded pend) (changed wasZoomed) := by
  refine keeps_get_bind fun p hp => ?_
  dsimp only
  -- marking the fast views minimized keeps the entries and the shape
  refine keeps_bind (fun _ _ => hp.withHistory (hp.kept.foldl_setMinimized _ _) fun x hx => ?_)
    fun _ => keeps_changed_tail Recorded.keeps_activateNext Recorded.keeps_emit wasZoomed
  rwa [History.parts_foldl_setMinimized]

theorem Recorded.keeps_activate (id : PartId) : Keeps (Recorded pend) (activate id) := by
  intro p hp
  by_cases hown : p.controller.isOwned id = true
  · exact ends_activate_of (fun _ _ hq => hq.frame rfl rfl) (fun _ _ hq => hq.frame rfl rfl)
      (fun _ hq => hq) (fun w => Recorded.keeps_changed w)
      (fun q hq => Recorded.keeps_grant id q hq) hown hp
  · have hno : p.controller.isOwned id = false := by simpa using hown
    rw [activate, ends_bind, ends_owns]
    simp only [hno, Bool.not_false, if_true]
    exact hp

theorem Recorded.keeps_mutate (x : LayoutM α) : Keeps (Recorded pend) (mutate x) := by
  refine keeps_zoomed_bind fun _ => keeps_bind (Recorded.keeps_onLayout x) fun _ => ?_
  split
  · exact keeps_bind (Recorded.keeps_changed _) fun _ => keeps_pure _
  · exact keeps_pure _

/-! ### Rearranging -/

theorem Recorded.keeps_bringToTop (id : PartId) : Keeps (Recorded pend) (bringToTop id) := by
  refine keeps_get_bind fun _ _ => ?_
  split
  · exact keeps_pure _
  split
  · exact keeps_pure _
  split
  · exact keeps_pure _
  refine keeps_bind (Recorded.keeps_onLayout _) fun _ => ?_
  split
  · exact keeps_pure _
  · exact keeps_bind (Recorded.keeps_emit _) fun _ => keeps_pure _

theorem Recorded.keeps_zoomIn (id : PartId) : Keeps (Recorded pend) (zoomIn id) := by
  refine keeps_owns_bind id fun _ => ?_
  split
  · exact keeps_pure _
  refine keeps_bind (Recorded.keeps_onLayout _) fun _ => ?_
  split
  · split
    · exact keeps_bind (Recorded.keeps_emit _) fun _ => keeps_pure _
    · exact keeps_pure _
  · exact keeps_pure _

theorem Recorded.keeps_zoomOut : Keeps (Recorded pend) zoomOut := by
  refine keeps_bind (Recorded.keeps_onLayout _) fun _ => ?_
  split
  · split
    · exact keeps_bind (Recorded.keeps_emit _) fun _ => keeps_pure _
    · exact keeps_pure _
  · exact keeps_pure _

theorem Recorded.keeps_toggleFastView (id : PartId) :
    Keeps (Recorded pend) (toggleFastView id) := by
  refine keeps_owns_bind id fun _ => ?_
  split
  · exact keeps_pure _
  refine keeps_get_bind fun _ _ => ?_
  split
  · exact keeps_bind (Recorded.keeps_mutate _) fun _ => keeps_pure _
  · exact keeps_bind (Recorded.keeps_mutate _) fun _ => keeps_pure _

theorem Recorded.keeps_ownedMutate (id : PartId) (x : LayoutM α) (f : Option α → β) (b : β) :
    Keeps (Recorded pend) (do
      if !(← owns id) then return b
      return f (← mutate x)) := by
  refine keeps_owns_bind id fun _ => ?_
  split
  · exact keeps_pure _
  · exact keeps_bind (Recorded.keeps_mutate _) fun _ => keeps_pure _

theorem Recorded.keeps_resizeSash (split : NodeId) (index : Nat) (delta : Int) :
    Keeps (Recorded pend) (resizeSash split index delta) := by
  refine keeps_zoomed_bind fun _ => keeps_bind (Recorded.keeps_onLayout _) fun _ => ?_
  split
  · exact keeps_bind (Recorded.keeps_changed _) fun _ => keeps_pure _
  · exact keeps_pure _
  · exact keeps_pure _

theorem Recorded.keeps_applyDrop (d : DropDecision) : Keeps (Recorded pend) (applyDrop d) := by
  unfold applyDrop
  split
  · exact keeps_pure _
  · exact keeps_bind (Recorded.keeps_mutate _) fun _ => keeps_pure _

/-- Rotating the editors permutes the entries; the answered editor is then activated. -/
theorem Recorded.keeps_cycleEditors (forward : Bool) :
    Keeps (Recorded pend) (cycleEditors forward) := fun p hp => by
  rw [cycleEditors, ends_bind, ends_get]
  dsimp only
  rw [ends_bind, ends_onHistory]
  have hr : Recorded pend { p with history := (p.history.cycle forward).2 } :=
    hp.withHistory (hp.kept.cycle forward)
      fun x hx => (History.parts_cycle_perm _ _).mem_iff.mpr hx
  split
  · exact hr
  · exact keeps_bind (Recorded.keeps_activate _) (fun _ => keeps_pure _) _ hr

/-! ### Opening and retiring a part -/

/-- A part leaves the history and the controller together. -/
theorem Recorded.forget (hp : Recorded pend p) (id : PartId) :
    Recorded pend
      { p with history := (p.history.remove id).2, controller := p.controller.forget id } := by
  refine ⟨hp.kept.remove id, fun x hx => ?_⟩
  obtain ⟨hx, hne⟩ := (p.controller.isOwned_forget id x).mp hx
  refine (hp.entries x hx).imp_left fun hmem => ?_
  show x ∈ (p.history.remove id).2.parts
  rw [History.parts_remove]
  exact (List.mem_erase_of_ne hne).mpr hmem

theorem Recorded.keeps_retire (id : PartId) : Keeps (Recorded pend) (retire id) := fun p hp => by
  rw [retire, ends_bind, ends_get]
  dsimp only
  split
  · exact hp
  rw [ends_bind, ends_onHistory, ends_bind, ends_onController]
  split
  · exact keeps_bind (Recorded.keeps_switch _ _) (fun _ => keeps_bind (Recorded.keeps_emit _)
      fun _ => keeps_pure _) _ (hp.forget id)
  · exact keeps_bind (Recorded.keeps_emit _) (fun _ => keeps_pure _) _ (hp.forget id)

theorem Recorded.keeps_hideView (id : PartId) : Keeps (Recorded pend) (hideView id) := by
  refine keeps_get_bind fun _ _ => ?_
  split
  · exact keeps_pure _
  refine keeps_bind (Recorded.keeps_withFactory _) fun _ => keeps_zoomed_bind fun _ => ?_
  refine keeps_bind (Recorded.keeps_onLayout _) fun _ => ?_
  extract_lets retireChanged
  have hrc : ∀ u, Keeps (Recorded pend) (retireChanged u) := fun _ =>
    keeps_bind (Recorded.keeps_retire id) fun _ =>
      keeps_bind (Recorded.keeps_changed _) fun _ => keeps_pure _
  split
  · exact hrc ()
  · exact keeps_bind (Recorded.keeps_onLayout _) fun _ => hrc ()

theorem Recorded.keeps_closeEditor (id : PartId) : Keeps (Recorded pend) (closeEditor id) := by
  refine keeps_get_bind fun _ _ => ?_
  split
  · exact keeps_pure _
  exact keeps_zoomed_bind fun _ => keeps_bind (Recorded.keeps_onLayout _) fun _ =>
    keeps_bind (Recorded.keeps_retire id) fun _ =>
      keeps_bind (Recorded.keeps_changed _) fun _ => keeps_pure _

/-- Registering a part makes it the pending one. -/
theorem Recorded.register (hp : Recorded none p) (id : PartId) (k : PartKind) :
    Recorded (some id) { p with controller := p.controller.register id k } := by
  refine ⟨hp.kept, fun x hx => ?_⟩
  rcases (p.controller.isOwned_register id k x).mp hx with hx | rfl
  · exact .inl ((hp.entries x hx).resolve_right (Option.some_ne_none x).symm)
  · exact .inr rfl

/-- A pending part the layout refused is dropped again. -/
theorem Recorded.unregister {id : PartId} (hp : Recorded (some id) p) :
    Recorded none { p with controller := p.controller.unregister id } := by
  refine ⟨hp.kept, fun x hx => ?_⟩
  obtain ⟨hx, hne⟩ := (p.controller.isOwned_unregister id x).mp hx
  exact .inl ((hp.entries x hx).resolve_right fun h => hne (Option.some_inj.mp h).symm)

/-- A pending part the layout accepted is recorded. -/
theorem Recorded.opened {id : PartId} (hp : Recorded (some id) p) (k : PartKind) :
    Recorded none { p with history := p.history.recordOpened id k } := by
  refine ⟨hp.kept.recordOpened id k, fun x hx => .inl ?_⟩
  refine (p.history.mem_parts_recordOpened id k x).mpr ?_
  exact (hp.entries x hx).imp_right fun h => (Option.some_inj.mp h).symm

theorem Recorded.keeps_openEditor (id : PartId) (kind : PartKind) :
    Keeps (Recorded none) (openEditor id kind) := fun p hp => by
  rw [openEditor]
  split
  · exact hp
  rw [ends_bind, ends_owns]
  split
  · exact keeps_bind (Recorded.keeps_activate id) (fun _ => keeps_pure false) p hp
  rw [ends_bind, ends_onController, ends_bind]
  refine (Recorded.keeps_mutate _ _ (hp.register id kind)).mono fun r q hq => ?_
  split
  · rw [ends_bind, ends_onController, ends_pure]
    exact hq.unregister
  · rw [ends_bind, ends_onHistory]
    exact keeps_bind (Recorded.keeps_emit _) (fun _ => keeps_bind (Recorded.keeps_activate id)
      fun _ => keeps_pure true) _ (hq.opened .editor)

theorem Recorded.keeps_showView (id : PartId) : Keeps (Recorded none) (showView id) :=
    fun p hp => by
  rw [showView, ends_bind, ends_get]
  dsimp only
  rw [ends_bind, ends_modify_eq]
  intro q hq
  -- taking the reference touches the factory alone
  have h₀ : Recorded none q := hp.frame (by rw [hq]) (by rw [hq])
  split
  · exact h₀
  next _ inst _ =>
  rw [ends_bind, ends_owns]
  split
  · rw [ends_bind, ends_onController, ends_bind, ends_zoomed, ends_bind]
    refine (Recorded.keeps_onLayout _ _ (h₀.register id inst.kind)).mono fun _ q₂ h₂ => ?_
    split
    · rw [ends_bind, ends_modify, ends_bind, ends_onController, ends_pure]
      exact (h₂.frame (q := { q₂ with factory := (q₂.factory.release id).2 }) rfl rfl).unregister
    · rw [ends_bind, ends_onHistory]
      exact keeps_bind (Recorded.keeps_emit _) (fun _ => keeps_bind (Recorded.keeps_changed _)
        fun _ => keeps_bind (Recorded.keeps_activate id) fun _ => keeps_pure _) _
        (h₂.opened .view)
  · rw [ends_bind, ends_zoomed, ends_bind]
    refine (Recorded.keeps_onLayout _ _ h₀).mono fun _ q₂ h₂ => ?_
    split
    · rw [ends_bind, ends_modify, ends_pure]
      exact h₂.frame rfl rfl
    · exact keeps_bind (Recorded.keeps_changed _) (fun _ =>
        keeps_bind (Recorded.keeps_activate id) fun _ => keeps_pure _) _ h₂

/-! ### Restoring and deferred work -/

/-- Merging a history of the kept shape: the merged history has that shape too, and it lists
every owned part. -/
theorem Recorded.ends_mergeHistory (pend : Option PartId) {h : History} (hk : h.Kept) (q : Page) :
    Ends (mergeHistory h) q fun _ q' => Recorded pend q' := by
  have hm := (mergeHistory_ends h q).2.2
  rw [mergeHistory, ends_bind, ends_get, onHistory, ends_modify]
  refine ⟨?_, fun x hx => .inl ((hm x).mpr ((Controller.mem_ownedIds_iff _ _).mpr hx))⟩
  refine History.Kept.foldl (fun h' id hk' => ?_) _ (hk.retain _)
  -- an owned part the history lacks is added at its head
  split
  · exact hk'
  · split
    · exact hk'.recordOpened _ _
    · exact hk'

theorem Recorded.keeps_restore (m : Memento) : Keeps (Recorded pend) (restore m) := fun p hp => by
  rw [restore, ends_bind, ends_zoomed, ends_bind]
  refine (keeps_loadLayout_of (fun _ _ hq => hq.frame rfl rfl) _ p hp).mono fun _ q hq => ?_
  rw [ends_bind, ends_get]
  dsimp only
  -- the saved history when it reads back, else the page's own: either has the kept shape
  rw [ends_bind]
  refine (Recorded.ends_mergeHistory pend ?_ q).mono fun _ q₁ h₁ => ?_
  · split
    · next h hr => exact History.kept_restore (Option.map_eq_some_iff.mp hr).choose_spec.2
    · exact hq.kept
    · exact hq.kept
  refine keeps_bind (Recorded.keeps_changed _) (fun _ => keeps_get_bind fun _ _ => ?_) q₁ h₁
  split
  · exact keeps_bind (Recorded.keeps_activate _) fun _ => keeps_pure _
  · exact keeps_pure _

theorem Recorded.keeps_resetLayout (template : Memento) :
    Keeps (Recorded pend) (resetLayout template) :=
  keeps_zoomed_bind fun _ =>
    keeps_bind (keeps_loadLayout_of (fun _ _ hq => hq.frame rfl rfl) _) fun _ =>
      keeps_bind (Recorded.keeps_changed _) fun _ => keeps_pure _

theorem Recorded.keeps_completeOperation (t : Token) (action : DeferredAction) :
    Keeps (Recorded pend) (completeOperation t action) := by
  unfold completeOperation
  split
  · exact keeps_pure _
  refine keeps_get_bind fun _ _ => ?_
  split
  · exact keeps_pure _
  cases action with
  | activate => exact Recorded.keeps_activate _
  | bringToTop => exact Recorded.keeps_bringToTop _
  | closeEditor => exact Recorded.keeps_closeEditor _
  | hideView => exact Recorded.keeps_hideView _

end Recorded

end PageM

namespace Script

open PageM

theorem recorded_pageCommand {s : PageSession} (h : Recorded none s.page) (cmd : PageCommand) :
    Recorded none (pageCommand s cmd).2.page := by
  cases cmd with
  | openEditor part kind => exact Recorded.keeps_openEditor part kind _ h
  | showView part =>
    simp only [pageCommand]
    split
    next r q hrun =>
    split <;> exact (Recorded.keeps_showView part _ h).of_run_eq hrun
  | hideView part => exact Recorded.keeps_hideView part _ h
  | closeEditor part => exact Recorded.keeps_closeEditor part _ h
  | activate part => exact Recorded.keeps_activate part _ h
  | bringToTop part => exact Recorded.keeps_bringToTop part _ h
  | toggleFastView part => exact Recorded.keeps_toggleFastView part _ h
  | zoomIn part => exact Recorded.keeps_zoomIn part _ h
  | isOwned part => exact h
  | zoomOut => exact Recorded.keeps_zoomOut _ h
  | cycleEditors forward => exact Recorded.keeps_cycleEditors forward _ h
  | movePart part side reference => exact Recorded.keeps_ownedMutate part _ _ false _ h
  | stack part reference => exact Recorded.keeps_ownedMutate part _ _ false _ h
  | detach part bounds => exact Recorded.keeps_ownedMutate part _ Option.join none _ h
  | resizeSash split index delta =>
    simp only [pageCommand]
    split
    next r q hrun =>
    split <;> exact (Recorded.keeps_resizeSash split index delta _ h).of_run_eq hrun
  | drop source target pointer =>
    simp only [pageCommand]
    split
    · exact h
    · exact Recorded.keeps_applyDrop _ _ h
  | applyDrop d => exact Recorded.keeps_applyDrop d _ h
  | setDirty part dirty => exact h
  | beginOperation part keepAs =>
    simp only [pageCommand]
    split <;> exact h
  | cancel token => exact h
  | completeOperation t action => exact Recorded.keeps_completeOperation t action _ h
  | saveState name => exact h
  | restoreState m => exact Recorded.keeps_restore m _ h
  | resetLayout m => exact Recorded.keeps_resetLayout m _ h
  | onLayout cmd =>
    simp only [pageCommand]
    exact h.frame rfl rfl

theorem recorded_pageRun {s : PageSession} (h : Recorded none s.page) (cs : List PageCommand) :
    Recorded none (pageRun s cs).page := by
  induction cs generalizing s with
  | nil => exact h
  | cons cmd rest ih => exact ih (recorded_pageCommand h cmd)

end Script

open PageM in
/-- On a page reached by commands, the history has the kept shape (no part twice, the
minimized parts in key order, each with an entry), its parts are exactly the owned parts, and
the active part is its most recent entry. -/
theorem PageSession.history_lists_owned (policy : ActivationPolicy) (editorArea floating : Bool)
    (registry : Registry) (cs : List PageCommand) :
    let p := (Script.pageRun (PageSession.start policy editorArea floating registry) cs).page
    p.history.Kept ∧ (∀ x, x ∈ p.history.parts ↔ p.controller.isOwned x = true) ∧
      ∀ a, p.active = some a → p.history.entries.getLast?.map (·.part) = some a := by
  intro p
  have hr : Recorded none p :=
    Script.recorded_pageRun ⟨History.kept_empty, fun _ h => by cases h⟩ cs
  obtain ⟨c, hf⟩ : Narrated ⟨∅, none⟩ [] p := Script.narrated_pageRun (Narrated.fresh _ _ _ _) cs
  -- the history lists owned parts only, and every owned part has an entry
  have hmem : ∀ x, x ∈ p.history.parts ↔ p.controller.isOwned x = true := fun x =>
    ⟨fun hx => (hf.isOwned_iff x).mpr (hf.history_owned x hx).1,
      fun hx => (hr.entries x hx).resolve_right (Option.some_ne_none x).symm⟩
  refine ⟨hr.kept, hmem, fun a ha => ?_⟩
  -- the active part has an entry, and none of the entries after the first ones is it
  have hin := (hmem a).mpr ((hf.isOwned_iff a).mpr (hf.active_owned a ha).1)
  obtain ⟨e, he, rfl⟩ := List.mem_map.mp hin
  rw [History.getLast?_of_not_mem_dropLast he (hf.settled trivial _ ha)]
  rfl

end Docking
