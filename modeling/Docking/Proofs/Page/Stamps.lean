import Docking.Proofs.Page.Narration
/-!
# Ownership stamps and deferred work

A page registers a part under a fresh stamp, one above every stamp it has given out
(`Controller.StampsGiven`). A token of deferred work carries the stamp its part had when the
work began, and completing the work checks the token against the part's stamp now. What one
page request may do to the stamps is `Controller.StampStep`: the counter does not go back, and
a part owned before and after the request keeps its stamp.

Main result (`PageSession.deferred_work_certified`): on a page reached by any commands, a token
is issued exactly for an owned part. After any further commands, completing the work carries
out the action when the token is not cancelled and the part stayed owned after every command;
otherwise it answers `false` and leaves the page as it was.
-/

namespace Docking

namespace Controller

/-- Every owned part's stamp is one the counter has given out. -/
def StampsGiven (c : Controller) : Prop := ∀ id σ, c.stamp? id = some σ → σ ≤ c.lastStamp

/-- From `c` to `c'` the stamp counter does not go back, and every stamp of `c'` is the stamp
its part had in `c` or one given out since. -/
def Advances (c c' : Controller) : Prop :=
  c.lastStamp ≤ c'.lastStamp ∧
    ∀ id σ, c'.stamp? id = some σ → c.stamp? id = some σ ∨ c.lastStamp < σ ∧ σ ≤ c'.lastStamp

/-- What one request may do to the owned parts: the stamps advance, and a part owned before and
after keeps its stamp. -/
structure StampStep (c c' : Controller) : Prop where
  advances : Advances c c'
  keeps : ∀ id σ σ', c.stamp? id = some σ → c'.stamp? id = some σ' → σ' = σ

section Stamps

variable {c c₁ c₂ c₃ : Controller}

theorem Advances.refl (c : Controller) : Advances c c := ⟨Nat.le_refl _, fun _ _ h => .inl h⟩

theorem Advances.trans (h₁ : Advances c₁ c₂) (h₂ : Advances c₂ c₃) : Advances c₁ c₃ := by
  refine ⟨Nat.le_trans h₁.1 h₂.1, fun id σ h => ?_⟩
  rcases h₂.2 id σ h with h | ⟨hlt, hle⟩
  · rcases h₁.2 id σ h with h | ⟨hlt', hle'⟩
    · exact .inl h
    · exact .inr ⟨hlt', Nat.le_trans hle' h₂.1⟩
  · exact .inr ⟨Nat.lt_of_le_of_lt h₁.1 hlt, hle⟩

theorem StampsGiven.advance (hc : c₁.StampsGiven) (h : Advances c₁ c₂) : c₂.StampsGiven := by
  intro id σ hσ
  rcases h.2 id σ hσ with h' | ⟨_, hle⟩
  · exact Nat.le_trans (hc id σ h') h.1
  · exact hle

theorem Advances.stamp?_ne {id : PartId} {σ : Nat} (h : Advances c₂ c₃)
    (hnone : c₂.stamp? id = none) (hσ : σ ≤ c₂.lastStamp) : c₃.stamp? id ≠ some σ := by
  intro h₃
  rcases h.2 id σ h₃ with h' | ⟨hlt, -⟩
  · rw [hnone] at h'
    cases h'
  · exact Nat.lt_irrefl _ (Nat.lt_of_le_of_lt hσ hlt)

theorem StampStep.refl (c : Controller) : StampStep c c :=
  ⟨.refl c, fun _ _ _ h h' => Option.some_inj.mp (h'.symm.trans h)⟩

theorem StampStep.congr (h : StampStep c c₁) (hp : c₂.parts = c₁.parts)
    (hl : c₂.lastStamp = c₁.lastStamp) : StampStep c c₂ := by
  have hs : ∀ x, c₂.stamp? x = c₁.stamp? x := fun x => by rw [stamp?, stamp?, hp]
  refine ⟨⟨hl ▸ h.advances.1, fun id σ hσ => ?_⟩, fun id σ σ' h₁ h₂ => ?_⟩
  · rw [hs, hl] at *
    exact h.advances.2 id σ hσ
  · rw [hs] at h₂
    exact h.keeps id σ σ' h₁ h₂

theorem stamp?_forget_of_ne (c : Controller) {id x : PartId} (hx : x ≠ id) :
    (c.forget id).stamp? x = c.stamp? x := by
  simp [forget, stamp?, Keyed.find?_erase_of_ne _ hx]

/-- Dropping a part after a request's change keeps it one request's change. -/
theorem StampStep.forget (h : StampStep c c₁) (id : PartId) : StampStep c (c₁.forget id) := by
  have hs : ∀ x σ, (c₁.forget id).stamp? x = some σ → c₁.stamp? x = some σ := by
    intro x σ hx
    by_cases hxi : x = id
    · subst hxi
      rw [stamp?_forget_self] at hx
      cases hx
    · rwa [stamp?_forget_of_ne _ hxi] at hx
  exact ⟨⟨h.advances.1, fun x σ hx => h.advances.2 x σ (hs x σ hx)⟩,
    fun x σ σ' h₁ h₂ => h.keeps x σ σ' h₁ (hs x σ' h₂)⟩

theorem stamp?_eq_none_of_isOwned {id : PartId} (h : c.isOwned id = false) : c.stamp? id = none := by
  simpa [isOwned, stamp?] using h

/-- Registering gives a part that is not owned a fresh stamp, one above every stamp given out. -/
theorem stampStep_register (c : Controller) (id : PartId) (k : PartKind) :
    StampStep c (c.register id k) := by
  cases hown : c.isOwned id
  · have hnone := stamp?_eq_none_of_isOwned hown
    have hlast : (c.register id k).lastStamp = c.lastStamp + 1 := by simp [hown]
    refine ⟨⟨by omega, fun x σ hx => ?_⟩, fun x σ σ' h₁ h₂ => ?_⟩
    · by_cases hxi : x = id
      · subst hxi
        rw [stamp?_register_fresh k hown] at hx
        cases hx
        exact .inr ⟨Nat.lt_succ_self _, by omega⟩
      · rw [stamp?_register_of_ne k hxi] at hx
        exact .inl hx
    · by_cases hxi : x = id
      · subst hxi
        rw [hnone] at h₁
        cases h₁
      · rw [stamp?_register_of_ne k hxi] at h₂
        exact Option.some_inj.mp (h₂.symm.trans h₁)
  · rw [register_of_isOwned k hown]
    exact .refl c

theorem stampsGiven_fresh (policy : ActivationPolicy) : ({ policy } : Controller).StampsGiven := by
  intro id σ h
  simp [stamp?, Keyed.find?] at h

end Stamps

end Controller

/-- The page request that a deferred action carries out on a part. -/
def DeferredAction.request : DeferredAction → PartId → PageM Bool
  | .activate => PageM.activate
  | .bringToTop => PageM.bringToTop
  | .closeEditor => PageM.closeEditor
  | .hideView => PageM.hideView

namespace PageM

open Controller

/-- A property of pages that reads only the owned parts with their stamps and the stamp
counter. -/
def ReadsStamps (P : Page → Prop) : Prop :=
  ∀ p q : Page, q.controller.parts = p.controller.parts →
    q.controller.lastStamp = p.controller.lastStamp → P p → P q

/-- The page's owned parts are one request's change away from `c`. -/
def StampedFrom (c : Controller) (p : Page) : Prop := StampStep c p.controller

theorem readsStamps_stampedFrom (c : Controller) : ReadsStamps (StampedFrom c) :=
  fun _ _ hp hl h => StampStep.congr h hp hl

/-! ### Requests that leave the owned parts alone -/

namespace ReadsStamps

variable {α β : Type} {P : Page → Prop} (hP : ReadsStamps P)
include hP

theorem ignores : IgnoresActivation P := fun p q _ hparts hstamp h => hP p q hparts hstamp h

theorem keeps_onLayout (x : LayoutM α) : Keeps P (onLayout x) :=
  keeps_onLayout_of (fun q _ hq => hP q _ rfl rfl hq) x

theorem keeps_withFactory (f : Page → Factory) :
    Keeps P (modify fun p => { p with factory := f p }) :=
  fun p h => hP p _ rfl rfl h

theorem keeps_mutate (x : LayoutM α) : Keeps P (mutate x) := by
  refine keeps_zoomed_bind fun _ => keeps_bind (hP.keeps_onLayout x) fun _ => ?_
  split
  · exact keeps_bind (hP.ignores.keeps_changed _) fun _ => keeps_pure _
  · exact keeps_pure _

theorem keeps_activate (id : PartId) : Keeps P (activate id) := by
  refine keeps_owns_bind id fun _ => ?_
  split
  · exact keeps_pure false
  refine keeps_zoomed_bind fun wasZoomed => keeps_get_bind fun p _ => ?_
  -- the continuations of the `do` block, from the last one back
  extract_lets finish afterRestore
  have hfinish : ∀ u, Keeps P (finish u) := fun _ =>
    keeps_bind (hP.keeps_onLayout _) fun _ => hP.ignores.keeps_grant id
  have hafter : ∀ restored, Keeps P (afterRestore restored) := by
    intro restored
    refine keeps_get_bind fun q _ => ?_
    extract_lets l afterZoom
    have hz : ∀ unzoomed, Keeps P (afterZoom unzoomed) := by
      intro unzoomed
      simp only [afterZoom]
      split
      · exact keeps_bind (hP.ignores.keeps_changed _) hfinish
      · exact hfinish ()
    split
    · split
      · exact keeps_bind (keeps_pure _) hz
      · exact keeps_bind (hP.keeps_onLayout _) fun _ => keeps_bind (keeps_pure _) hz
    · exact keeps_bind (keeps_pure _) hz
  split
  · exact keeps_bind (hP.keeps_onLayout _) fun _ => keeps_bind (keeps_pure _) hafter
  · exact keeps_bind (keeps_pure _) hafter

theorem keeps_bringToTop (id : PartId) : Keeps P (bringToTop id) := by
  refine keeps_get_bind fun _ _ => ?_
  split
  · exact keeps_pure _
  split
  · exact keeps_pure _
  split
  · exact keeps_pure _
  refine keeps_bind (hP.keeps_onLayout _) fun _ => ?_
  split
  · exact keeps_pure _
  · exact keeps_bind (hP.ignores.keeps_emit _) fun _ => keeps_pure _

theorem keeps_zoomIn (id : PartId) : Keeps P (zoomIn id) := by
  refine keeps_owns_bind id fun _ => ?_
  split
  · exact keeps_pure _
  refine keeps_bind (hP.keeps_onLayout _) fun _ => ?_
  split
  · split
    · exact keeps_bind (hP.ignores.keeps_emit _) fun _ => keeps_pure _
    · exact keeps_pure _
  · exact keeps_pure _

theorem keeps_zoomOut : Keeps P zoomOut := by
  refine keeps_bind (hP.keeps_onLayout _) fun _ => ?_
  split
  · split
    · exact keeps_bind (hP.ignores.keeps_emit _) fun _ => keeps_pure _
    · exact keeps_pure _
  · exact keeps_pure _

theorem keeps_toggleFastView (id : PartId) : Keeps P (toggleFastView id) := by
  refine keeps_owns_bind id fun _ => ?_
  split
  · exact keeps_pure _
  refine keeps_get_bind fun _ _ => ?_
  split
  · exact keeps_bind (hP.keeps_mutate _) fun _ => keeps_pure _
  · exact keeps_bind (hP.keeps_mutate _) fun _ => keeps_pure _

theorem keeps_ownedMutate (id : PartId) (x : LayoutM α) (f : Option α → β) (b : β) :
    Keeps P (do
      if !(← owns id) then return b
      return f (← mutate x)) := by
  refine keeps_owns_bind id fun _ => ?_
  split
  · exact keeps_pure _
  · exact keeps_bind (hP.keeps_mutate _) fun _ => keeps_pure _

theorem keeps_resizeSash (split : NodeId) (index : Nat) (delta : Int) :
    Keeps P (resizeSash split index delta) := by
  refine keeps_zoomed_bind fun _ => keeps_bind (hP.keeps_onLayout _) fun _ => ?_
  split
  · exact keeps_bind (hP.ignores.keeps_changed _) fun _ => keeps_pure _
  · exact keeps_pure _
  · exact keeps_pure _

theorem keeps_applyDrop (d : DropDecision) : Keeps P (applyDrop d) := by
  unfold applyDrop
  split
  · exact keeps_pure _
  · exact keeps_bind (hP.keeps_mutate _) fun _ => keeps_pure _

theorem keeps_cycleEditors (forward : Bool) : Keeps P (cycleEditors forward) := by
  refine keeps_get_bind fun _ _ => ?_
  dsimp only
  refine keeps_bind (hP.ignores.keeps_onHistory _) fun _ => ?_
  split
  · exact keeps_pure _
  · exact keeps_bind (hP.keeps_activate _) fun _ => keeps_pure _

theorem keeps_loadLayout (saved : Except RestoreError Memento) : Keeps P (loadLayout saved) :=
  keeps_loadLayout_of (fun q _ hq => hP q _ rfl rfl hq) saved

theorem keeps_mergeHistory (h : History) : Keeps P (mergeHistory h) :=
  keeps_get_bind fun _ _ => hP.ignores.keeps_onHistory _

theorem keeps_restore (m : Memento) : Keeps P (restore m) := by
  refine keeps_zoomed_bind fun _ => keeps_bind (hP.keeps_loadLayout _) fun _ => ?_
  refine keeps_get_bind fun _ _ => ?_
  dsimp only
  refine keeps_bind (hP.keeps_mergeHistory _) fun _ =>
    keeps_bind (hP.ignores.keeps_changed _) fun _ => ?_
  refine keeps_get_bind fun _ _ => ?_
  split
  · exact keeps_bind (hP.keeps_activate _) fun _ => keeps_pure _
  · exact keeps_pure _

theorem keeps_resetLayout (template : Memento) : Keeps P (resetLayout template) :=
  keeps_zoomed_bind fun _ => keeps_bind (hP.keeps_loadLayout _) fun _ =>
    keeps_bind (hP.ignores.keeps_changed _) fun _ => keeps_pure _

end ReadsStamps

/-! ### Requests that open or retire a part -/

section Ownership

variable (c : Controller)

theorem keeps_retire (id : PartId) : Keeps (StampedFrom c) (retire id) := by
  have hP := readsStamps_stampedFrom c
  have hA := hP.ignores
  refine keeps_get_bind fun _ _ => ?_
  dsimp only
  split
  · exact keeps_pure _
  -- the part is forgotten; the rest only moves activation and reports
  refine keeps_bind (hA.keeps_onHistory _) fun _ =>
    keeps_bind (fun q hq => StampStep.forget hq id) fun _ => ?_
  split
  · exact keeps_bind (hA.keeps_switch _ _) fun _ =>
      keeps_bind (hA.keeps_emit _) fun _ => keeps_pure _
  · exact keeps_bind (hA.keeps_emit _) fun _ => keeps_pure _

theorem keeps_hideView (id : PartId) : Keeps (StampedFrom c) (hideView id) := by
  have hP := readsStamps_stampedFrom c
  have hA := hP.ignores
  refine keeps_get_bind fun _ _ => ?_
  split
  · exact keeps_pure _
  refine keeps_bind (hP.keeps_withFactory _) fun _ => keeps_zoomed_bind fun _ => ?_
  refine keeps_bind (hP.keeps_onLayout _) fun _ => ?_
  extract_lets retireChanged
  have hrc : ∀ u, Keeps (StampedFrom c) (retireChanged u) := fun _ =>
    keeps_bind (keeps_retire c id) fun _ => keeps_bind (hA.keeps_changed _) fun _ => keeps_pure _
  split
  · exact hrc ()
  · exact keeps_bind (hP.keeps_onLayout _) fun _ => hrc ()

theorem keeps_closeEditor (id : PartId) : Keeps (StampedFrom c) (closeEditor id) := by
  have hP := readsStamps_stampedFrom c
  have hA := hP.ignores
  refine keeps_get_bind fun _ _ => ?_
  split
  · exact keeps_pure _
  exact keeps_zoomed_bind fun _ => keeps_bind (hP.keeps_onLayout _) fun _ =>
    keeps_bind (keeps_retire c id) fun _ => keeps_bind (hA.keeps_changed _) fun _ => keeps_pure _

theorem keeps_completeOperation (t : Token) (action : DeferredAction) :
    Keeps (StampedFrom c) (completeOperation t action) := by
  have hP := readsStamps_stampedFrom c
  unfold completeOperation
  split
  · exact keeps_pure _
  refine keeps_get_bind fun _ _ => ?_
  split
  · exact keeps_pure _
  cases action with
  | activate => exact hP.keeps_activate _
  | bringToTop => exact hP.keeps_bringToTop _
  | closeEditor => exact keeps_closeEditor c _
  | hideView => exact keeps_hideView c _

end Ownership

/-- Opening an editor registers it once at most, and a refused one is unregistered again. -/
theorem ends_openEditor (p : Page) (id : PartId) (kind : PartKind) :
    Ends (openEditor id kind) p fun _ q => StampedFrom p.controller q := by
  have hP := readsStamps_stampedFrom p.controller
  have hA := hP.ignores
  have h₀ : StampedFrom p.controller p := StampStep.refl _
  rw [openEditor]
  split
  · exact h₀
  rw [ends_bind, ends_owns]
  split
  · exact keeps_bind (hP.keeps_activate id) (fun _ => keeps_pure false) p h₀
  rw [ends_bind, ends_onController, ends_bind]
  have h₁ : StampedFrom p.controller { p with controller := p.controller.register id kind } :=
    stampStep_register _ _ _
  refine (hP.keeps_mutate _ _ h₁).mono fun r q hq => ?_
  split
  · rw [ends_bind, ends_onController, ends_pure]
    exact StampStep.congr (StampStep.forget hq id) rfl rfl
  · exact (keeps_bind (hA.keeps_onHistory _) fun _ => keeps_bind (hA.keeps_emit _) fun _ =>
      keeps_bind (hP.keeps_activate id) fun _ => keeps_pure true) q hq

/-- Showing a view registers it once at most, and a view the layout refuses is unregistered
again when it was registered for it. -/
theorem ends_showView (p : Page) (id : PartId) :
    Ends (showView id) p fun _ q => StampedFrom p.controller q := by
  have hP := readsStamps_stampedFrom p.controller
  have hA := hP.ignores
  rw [showView, ends_bind, ends_get]
  dsimp only
  rw [ends_bind, ends_modify_eq]
  intro q hq
  -- taking the reference touches the factory alone
  have h₀ : StampedFrom p.controller q := by
    rw [hq]
    exact StampStep.refl _
  have hc : q.controller = p.controller := by rw [hq]
  split
  · exact h₀
  next _ inst _ =>
  rw [ends_bind, ends_owns]
  split
  · rw [ends_bind, ends_onController, ends_bind, ends_zoomed, ends_bind]
    have h₁ : StampedFrom p.controller
        { q with controller := q.controller.register id inst.kind } := by
      rw [StampedFrom, hc]
      exact stampStep_register _ _ _
    refine (hP.keeps_onLayout _ _ h₁).mono fun _ q₂ h₂ => ?_
    split
    · rw [ends_bind, ends_modify, ends_bind, ends_onController, ends_pure]
      exact StampStep.congr (StampStep.forget h₂ id) rfl rfl
    · exact (keeps_bind (hA.keeps_onHistory _) fun _ => keeps_bind (hA.keeps_emit _) fun _ =>
        keeps_bind (hA.keeps_changed _) fun _ => keeps_bind (hP.keeps_activate id) fun _ =>
          keeps_pure _) q₂ h₂
  · rw [ends_bind, ends_zoomed, ends_bind]
    refine (hP.keeps_onLayout _ _ h₀).mono fun _ q₂ h₂ => ?_
    split
    · rw [ends_bind, ends_modify, ends_pure]
      exact h₂
    · exact (keeps_bind (hA.keeps_changed _) fun _ => keeps_bind (hP.keeps_activate id) fun _ =>
        keeps_pure _) q₂ h₂

/-! ### Completing deferred work -/

section Complete

variable {t : Token} {p : Page}

theorem run_completeOperation_cancelled (h : t.cancelled = true) (action : DeferredAction) :
    (completeOperation t action).run p = (false, p) := by
  simp [completeOperation, h]
  rfl

theorem run_completeOperation_stale (hc : t.cancelled = false)
    (h : p.controller.holds t.part t.stamp = false) (action : DeferredAction) :
    (completeOperation t action).run p = (false, p) := by
  simp [completeOperation, hc, h]
  rfl

theorem run_completeOperation_certified (hc : t.cancelled = false)
    (h : p.controller.holds t.part t.stamp = true) (action : DeferredAction) :
    (completeOperation t action).run p = (action.request t.part).run p := by
  cases action <;> simp [completeOperation, DeferredAction.request, hc, h]

end Complete

end PageM

namespace Script

open PageM Controller

theorem pageRun_cons (s : PageSession) (c : PageCommand) (cs : List PageCommand) :
    pageRun s (c :: cs) = pageRun (pageStep s c).2 cs := rfl

theorem pageRun_append (s : PageSession) (as bs : List PageCommand) :
    pageRun s (as ++ bs) = pageRun (pageRun s as) bs := List.foldl_append

/-- One command changes the owned parts as one request may. -/
theorem stampStep_pageCommand (s : PageSession) (cmd : PageCommand) :
    StampStep s.page.controller (pageCommand s cmd).2.page.controller := by
  have hP := readsStamps_stampedFrom s.page.controller
  have h₀ : StampedFrom s.page.controller s.page := StampStep.refl _
  -- the requests that keep the property, run from the session's page
  have hk : ∀ {α : Type} (x : PageM α), Keeps (StampedFrom s.page.controller) x →
      StampedFrom s.page.controller (x.run s.page).2 := fun x hx => hx _ h₀
  cases cmd with
  | openEditor part kind => exact ends_openEditor s.page part kind
  | showView part =>
    simp only [pageCommand]
    split
    next r q hrun =>
    split <;> exact (ends_showView s.page part).of_run_eq hrun
  | hideView part => exact hk (hideView part) (keeps_hideView _ part)
  | closeEditor part => exact hk (closeEditor part) (keeps_closeEditor _ part)
  | activate part => exact hk (activate part) (hP.keeps_activate part)
  | bringToTop part => exact hk (bringToTop part) (hP.keeps_bringToTop part)
  | toggleFastView part => exact hk (toggleFastView part) (hP.keeps_toggleFastView part)
  | zoomIn part => exact hk (zoomIn part) (hP.keeps_zoomIn part)
  | isOwned part => exact h₀
  | zoomOut => exact hk zoomOut hP.keeps_zoomOut
  | cycleEditors forward => exact hk (cycleEditors forward) (hP.keeps_cycleEditors forward)
  | movePart part side reference =>
    exact hk (movePart part side reference) (hP.keeps_ownedMutate part _ _ false)
  | stack part reference =>
    exact hk (PageM.stack part reference) (hP.keeps_ownedMutate part _ _ false)
  | detach part bounds =>
    exact hk (PageM.detach part bounds) (hP.keeps_ownedMutate part _ Option.join none)
  | resizeSash split index delta =>
    simp only [pageCommand]
    split
    next r q hrun =>
    split <;> exact (hP.keeps_resizeSash split index delta _ h₀).of_run_eq hrun
  | drop source target pointer =>
    simp only [pageCommand]
    split
    · exact h₀
    · exact hk (applyDrop _) (hP.keeps_applyDrop _)
  | applyDrop d => exact hk (applyDrop d) (hP.keeps_applyDrop d)
  | setDirty part dirty => exact h₀
  | beginOperation part keepAs =>
    simp only [pageCommand]
    split <;> exact h₀
  | cancel token => exact h₀
  | completeOperation t action =>
    exact hk (completeOperation t action) (keeps_completeOperation _ t action)
  | saveState name => exact h₀
  | restoreState m => exact hk (restore m) (hP.keeps_restore m)
  | resetLayout m => exact hk (resetLayout m) (hP.keeps_resetLayout m)
  | onLayout cmd => exact h₀

theorem advances_pageRun (s : PageSession) (cs : List PageCommand) :
    Advances s.page.controller (pageRun s cs).page.controller := by
  induction cs generalizing s with
  | nil => exact .refl _
  | cons c cs ih => exact (stampStep_pageCommand s c).advances.trans (ih (pageStep s c).2)

/-- A part owned after every command keeps its stamp. -/
theorem stamp?_pageRun_of_owned {s : PageSession} {id : PartId} {σ : Nat}
    (h : s.page.controller.stamp? id = some σ) (cs : List PageCommand)
    (hown : ∀ k ≤ cs.length, (pageRun s (cs.take k)).page.controller.isOwned id = true) :
    (pageRun s cs).page.controller.stamp? id = some σ := by
  induction cs generalizing s with
  | nil => exact h
  | cons c cs ih =>
    -- owned after the command, so the command kept its stamp
    have h₁ : (pageStep s c).2.page.controller.stamp? id = some σ := by
      have h₁ : (pageStep s c).2.page.controller.isOwned id = true := hown 1 (by simp)
      obtain ⟨o, ho⟩ := (Controller.isOwned_iff _ _).mp h₁
      have hstamp : (pageStep s c).2.page.controller.stamp? id = some o.stamp := by
        simp [stamp?, ho]
      rw [hstamp, (stampStep_pageCommand s c).keeps id σ o.stamp h hstamp]
    exact ih h₁ fun k hk => by
      simpa [pageRun_cons] using hown (k + 1) (by simpa using hk)

theorem stamp?_pageRun_ne {s : PageSession} {id : PartId} {σ : Nat}
    (hs : s.page.controller.StampsGiven) (h : s.page.controller.stamp? id = some σ)
    (cs : List PageCommand) {k : Nat}
    (hout : (pageRun s (cs.take k)).page.controller.isOwned id = false) :
    (pageRun s cs).page.controller.stamp? id ≠ some σ := by
  rw [← List.take_append_drop k cs, pageRun_append]
  exact (advances_pageRun _ _).stamp?_ne (stamp?_eq_none_of_isOwned hout)
    (Nat.le_trans (hs id σ h) (advances_pageRun s _).1)

theorem stampsGiven_pageRun (policy : ActivationPolicy) (editorArea floating : Bool)
    (registry : Registry) (cs : List PageCommand) :
    (pageRun (PageSession.start policy editorArea floating registry) cs).page.controller.StampsGiven :=
  (stampsGiven_fresh policy).advance
    (advances_pageRun (PageSession.start policy editorArea floating registry) cs)

end Script

open PageM Controller in
/-- Deferred work on a part is certified by the part's stamp. On a page reached by any
commands a token is issued exactly for an owned part. After any further commands, completing
the work with the token, cancelled or not, carries out the action as the request itself does,
with its answer and the page it leaves, when the token is not cancelled and the part was owned
after every command; when the token is cancelled, or the part was closed or hidden after some
command, even if opened again since, it answers `false` and leaves the page as it was. -/
theorem PageSession.deferred_work_certified (policy : ActivationPolicy) (editorArea floating : Bool)
    (registry : Registry) (before between : List PageCommand) (part : PartId) (cancelled : Bool)
    (action : DeferredAction) :
    let s₀ := Script.pageRun (PageSession.start policy editorArea floating registry) before
    let s := Script.pageRun s₀ between
    (s₀.page.beginOperation part).isSome = s₀.page.controller.isOwned part ∧
    ∀ t, s₀.page.beginOperation part = some t →
      let done := (completeOperation { t with cancelled } action).run s.page
      (cancelled = false →
        (∀ k ≤ between.length,
          (Script.pageRun s₀ (between.take k)).page.controller.isOwned part = true) →
        done = (action.request part).run s.page) ∧
      (cancelled = true ∨ (∃ k ≤ between.length,
          (Script.pageRun s₀ (between.take k)).page.controller.isOwned part = false) →
        done = (false, s.page)) := by
  dsimp only
  refine ⟨by simp [Page.beginOperation, stamp?, isOwned], fun t ht => ?_⟩
  obtain ⟨σ, hσ, rfl⟩ := Option.map_eq_some_iff.mp ht
  refine ⟨fun hc hown => ?_, fun hbad => ?_⟩
  · have hs := Script.stamp?_pageRun_of_owned hσ between hown
    exact run_completeOperation_certified hc (by simp [holds, hs]) action
  · rcases hbad with hc | ⟨k, -, hout⟩
    · exact run_completeOperation_cancelled hc action
    · cases hc : cancelled
      · have hs := Script.stamp?_pageRun_ne
          (Script.stampsGiven_pageRun policy editorArea floating registry before) hσ between hout
        exact run_completeOperation_stale rfl (by simpa [holds] using hs) action
      · exact run_completeOperation_cancelled rfl action

end Docking
