import Docking.Proofs.Rooted.Script
import Docking.Proofs.Page.Stamps
import Docking.Proofs.References
/-!
# A view always finds a place

Every command of a page script keeps the page's layout planted (`Page.Planted`): the layout
requests by the lemmas of `Proofs/Rooted`, the other steps because they leave the layout alone,
and a restore because any document that reads gives a planted layout. On a planted layout a
view's pane is always placed (`LayoutM.ends_addPane_view`).

So on a page a script reached, showing a view fails exactly when the factory refuses to build
it: the view is unknown, its construction fails, or it reports another id. The failure then
leaves the page as it was, its layout, history, owned parts, active part, factory references
and events all together (`PageSession.showView_fails_only_unchanged`).
-/

namespace Docking

namespace Page

/-- The page's layout is planted, with no node held out. -/
def Planted (p : Page) : Prop := p.layout.Planted []

theorem planted_defaultLayout (editorArea : Bool) (host : Host) :
    (defaultLayout editorArea host).Planted [] := by
  unfold defaultLayout
  split
  · exact (Layout.Reachable.withEditorArea host).planted
  · exact (Layout.Reachable.empty host).planted

end Page

namespace PageM

open Page

variable {α β : Type} {p : Page}

/-! ### Rules for the answers of page requests -/

theorem ends_onLayout_of {x : LayoutM α} {ok : α → Layout → Prop}
    {err : LayoutError → Layout → Prop} (h : LayoutM.Ends x p.layout ok err)
    {Q : Except LayoutError α → Page → Prop} (hok : ∀ a l, ok a l → Q (.ok a) { p with layout := l })
    (herr : ∀ e l, err e l → Q (.error e) { p with layout := l }) : Ends (onLayout x) p Q := by
  rw [onLayout, ends_bind, ends_get]
  cases hx : x.run p.layout with
  | ok a l => exact hok a l (h.run_ok hx)
  | error e l => exact herr e l (h.run_error hx)

theorem ends_bind_of_forall {x : PageM α} {f : α → PageM β} {Q : β → Page → Prop}
    (h : ∀ a q, Ends (f a) q Q) : Ends (x >>= f) p Q :=
  (ends_bind x f).mpr (h _ _)

/-! ### Every page request keeps the layout planted -/

theorem ignoresActivation_planted : IgnoresActivation Page.Planted :=
  ignoresActivation_layout (·.Planted [])

theorem keeps_modify_planted {f : Page → Page} (hf : ∀ p, (f p).layout = p.layout) :
    Keeps Page.Planted (modify f) := fun p hp => by
  rw [ends_modify]
  show (f p).layout.Planted []
  rw [hf]
  exact hp

theorem keeps_onLayout_planted {x : LayoutM α} (hx : LayoutM.Keeps (·.Planted []) x) :
    Keeps Page.Planted (onLayout x) :=
  fun _ hp => ends_onLayout x fun _ => hx.leaves hp

theorem keeps_mutate_planted {x : LayoutM α} (hx : LayoutM.Keeps (·.Planted []) x) :
    Keeps Page.Planted (mutate x) := by
  refine keeps_zoomed_bind fun _ => keeps_bind (keeps_onLayout_planted hx) fun _ => ?_
  split
  · exact keeps_bind (ignoresActivation_planted.keeps_changed _) fun _ => keeps_pure _
  · exact keeps_pure _

theorem keeps_activate_planted (id : PartId) : Keeps Page.Planted (activate id) := by
  have hA := ignoresActivation_planted
  refine keeps_owns_bind id fun _ => ?_
  split
  · exact keeps_pure false
  refine keeps_zoomed_bind fun wasZoomed => keeps_get_bind fun p _ => ?_
  -- the continuations of the `do` block, from the last one back
  extract_lets finish afterRestore
  have hfinish : ∀ u, Keeps Page.Planted (finish u) := fun _ =>
    keeps_bind (keeps_onLayout_planted (LayoutM.keeps_bringToTop_planted _)) fun _ =>
      hA.keeps_grant id
  have hafter : ∀ restored, Keeps Page.Planted (afterRestore restored) := by
    intro restored
    refine keeps_get_bind fun q _ => ?_
    extract_lets l afterZoom
    have hz : ∀ unzoomed, Keeps Page.Planted (afterZoom unzoomed) := by
      intro unzoomed
      simp only [afterZoom]
      split
      · exact keeps_bind (hA.keeps_changed _) hfinish
      · exact hfinish ()
    split
    · split
      · exact keeps_bind (keeps_pure _) hz
      · exact keeps_bind (keeps_onLayout_planted LayoutM.keeps_zoomOut_planted) fun _ =>
          keeps_bind (keeps_pure _) hz
    · exact keeps_bind (keeps_pure _) hz
  split
  · exact keeps_bind (keeps_onLayout_planted (LayoutM.keeps_restoreFast_planted _)) fun _ =>
      keeps_bind (keeps_pure _) hafter
  · exact keeps_bind (keeps_pure _) hafter

theorem keeps_retire_planted (id : PartId) : Keeps Page.Planted (retire id) := by
  have hA := ignoresActivation_planted
  refine keeps_get_bind fun _ _ => ?_
  dsimp only
  split
  · exact keeps_pure _
  -- the part is forgotten; the rest only moves activation and reports
  refine keeps_bind (hA.keeps_onHistory _) fun _ =>
    keeps_bind (keeps_modify_planted fun _ => rfl) fun _ => ?_
  split
  · exact keeps_bind (hA.keeps_switch _ _) fun _ =>
      keeps_bind (hA.keeps_emit _) fun _ => keeps_pure _
  · exact keeps_bind (hA.keeps_emit _) fun _ => keeps_pure _

theorem keeps_bringToTop_planted (id : PartId) : Keeps Page.Planted (bringToTop id) := by
  refine keeps_get_bind fun _ _ => ?_
  split
  · exact keeps_pure _
  split
  · exact keeps_pure _
  split
  · exact keeps_pure _
  refine keeps_bind (keeps_onLayout_planted (LayoutM.keeps_bringToTop_planted _)) fun _ => ?_
  split
  · exact keeps_pure _
  · exact keeps_bind (ignoresActivation_planted.keeps_emit _) fun _ => keeps_pure _

theorem keeps_openEditor_planted (id : PartId) (kind : PartKind) :
    Keeps Page.Planted (openEditor id kind) := by
  have hA := ignoresActivation_planted
  unfold openEditor
  split
  · exact keeps_pure _
  refine keeps_owns_bind id fun _ => ?_
  split
  · exact keeps_bind (keeps_activate_planted id) fun _ => keeps_pure _
  refine keeps_bind (keeps_modify_planted fun _ => rfl) fun _ =>
    keeps_bind (keeps_mutate_planted (LayoutM.keeps_addPane_planted _)) fun _ => ?_
  split
  · exact keeps_bind (keeps_modify_planted fun _ => rfl) fun _ => keeps_pure _
  · exact keeps_bind (hA.keeps_onHistory _) fun _ => keeps_bind (hA.keeps_emit _) fun _ =>
      keeps_bind (keeps_activate_planted id) fun _ => keeps_pure _

theorem keeps_showView_planted (id : PartId) : Keeps Page.Planted (showView id) := by
  have hA := ignoresActivation_planted
  refine keeps_get_bind fun _ _ => ?_
  dsimp only
  refine keeps_bind (keeps_modify_planted fun _ => rfl) fun _ => ?_
  split
  · exact keeps_pure _
  refine keeps_owns_bind id fun _ => ?_
  -- a view the page did not own is registered first, and unregistered if it finds no place
  split
  · refine keeps_bind (keeps_modify_planted fun _ => rfl) fun _ => keeps_zoomed_bind fun _ =>
      keeps_bind (keeps_onLayout_planted (LayoutM.keeps_addPane_planted _)) fun _ => ?_
    split
    · exact keeps_bind (keeps_modify_planted fun _ => rfl) fun _ =>
        keeps_bind (keeps_modify_planted fun _ => rfl) fun _ => keeps_pure _
    · exact keeps_bind (hA.keeps_onHistory _) fun _ => keeps_bind (hA.keeps_emit _) fun _ =>
        keeps_bind (hA.keeps_changed _) fun _ =>
          keeps_bind (keeps_activate_planted id) fun _ => keeps_pure _
  · refine keeps_zoomed_bind fun _ =>
      keeps_bind (keeps_onLayout_planted (LayoutM.keeps_addPane_planted _)) fun _ => ?_
    split
    · exact keeps_bind (keeps_modify_planted fun _ => rfl) fun _ => keeps_pure _
    · exact keeps_bind (hA.keeps_changed _) fun _ =>
        keeps_bind (keeps_activate_planted id) fun _ => keeps_pure _

/-- Hiding a view gives its instance back, then its pane leaves the layout or the fast views. -/
theorem keeps_hideView_planted (id : PartId) : Keeps Page.Planted (hideView id) := by
  refine keeps_get_bind fun _ _ => ?_
  split
  · exact keeps_pure _
  refine keeps_bind (keeps_modify_planted fun _ => rfl) fun _ => keeps_zoomed_bind fun _ => ?_
  refine keeps_bind (keeps_onLayout_planted (LayoutM.keeps_clearFast_planted _)) fun _ => ?_
  extract_lets retireChanged
  have hrc : ∀ u, Keeps Page.Planted (retireChanged u) := fun _ =>
    keeps_bind (keeps_retire_planted id) fun _ =>
      keeps_bind (ignoresActivation_planted.keeps_changed _) fun _ => keeps_pure _
  split
  · exact hrc ()
  · exact keeps_bind (keeps_onLayout_planted (LayoutM.keeps_removePane_planted _)) fun _ => hrc ()

theorem keeps_closeEditor_planted (id : PartId) : Keeps Page.Planted (closeEditor id) := by
  refine keeps_get_bind fun _ _ => ?_
  split
  · exact keeps_pure _
  refine keeps_zoomed_bind fun _ =>
    keeps_bind (keeps_onLayout_planted fun _ hl => LayoutM.ends_disposePane_planted hl id) fun _ => ?_
  exact keeps_bind (keeps_retire_planted id) fun _ =>
    keeps_bind (ignoresActivation_planted.keeps_changed _) fun _ => keeps_pure _

theorem keeps_toggleFastView_planted (id : PartId) : Keeps Page.Planted (toggleFastView id) := by
  refine keeps_owns_bind id fun _ => ?_
  split
  · exact keeps_pure _
  refine keeps_get_bind fun _ _ => ?_
  split
  · exact keeps_bind (keeps_mutate_planted (LayoutM.keeps_restoreFast_planted _)) fun _ =>
      keeps_pure _
  · exact keeps_bind (keeps_mutate_planted (LayoutM.keeps_setFast_planted _)) fun _ =>
      keeps_pure _

theorem keeps_ownedMutate_planted (id : PartId) {x : LayoutM α}
    (hx : LayoutM.Keeps (·.Planted []) x) (f : Option α → β) (b : β) :
    Keeps Page.Planted (do
      if !(← owns id) then return b
      return f (← mutate x)) := by
  refine keeps_owns_bind id fun _ => ?_
  split
  · exact keeps_pure _
  · exact keeps_bind (keeps_mutate_planted hx) fun _ => keeps_pure _

theorem keeps_resizeSash_planted (split : NodeId) (index : Nat) (delta : Int) :
    Keeps Page.Planted (resizeSash split index delta) := by
  refine keeps_zoomed_bind fun _ =>
    keeps_bind (keeps_onLayout_planted (LayoutM.keeps_resizeSash_planted _ _ _)) fun _ => ?_
  split
  · exact keeps_bind (ignoresActivation_planted.keeps_changed _) fun _ => keeps_pure _
  · exact keeps_pure _
  · exact keeps_pure _

theorem keeps_applyDrop_planted (d : DropDecision) : Keeps Page.Planted (applyDrop d) := by
  unfold applyDrop
  split
  · exact keeps_pure _
  · exact keeps_bind (keeps_mutate_planted (LayoutM.keeps_applyDrop_planted _)) fun _ =>
      keeps_pure _

theorem keeps_zoomIn_planted (id : PartId) : Keeps Page.Planted (zoomIn id) := by
  refine keeps_owns_bind id fun _ => ?_
  split
  · exact keeps_pure _
  refine keeps_bind (keeps_onLayout_planted (LayoutM.keeps_zoomIn_planted _)) fun _ => ?_
  split
  · split
    · exact keeps_bind (ignoresActivation_planted.keeps_emit _) fun _ => keeps_pure _
    · exact keeps_pure _
  · exact keeps_pure _

theorem keeps_zoomOut_planted : Keeps Page.Planted zoomOut := by
  refine keeps_bind (keeps_onLayout_planted LayoutM.keeps_zoomOut_planted) fun _ => ?_
  split
  · split
    · exact keeps_bind (ignoresActivation_planted.keeps_emit _) fun _ => keeps_pure _
    · exact keeps_pure _
  · exact keeps_pure _

theorem keeps_cycleEditors_planted (forward : Bool) : Keeps Page.Planted (cycleEditors forward) := by
  refine keeps_get_bind fun _ _ => ?_
  dsimp only
  refine keeps_bind (ignoresActivation_planted.keeps_onHistory _) fun _ => ?_
  split
  · exact keeps_pure _
  · exact keeps_bind (keeps_activate_planted _) fun _ => keeps_pure _

theorem keeps_completeOperation_planted (t : Token) (action : DeferredAction) :
    Keeps Page.Planted (completeOperation t action) := by
  unfold completeOperation
  split
  · exact keeps_pure _
  refine keeps_get_bind fun _ _ => ?_
  split
  · exact keeps_pure _
  split
  · exact keeps_activate_planted _
  · exact keeps_bringToTop_planted _
  · exact keeps_closeEditor_planted _
  · exact keeps_hideView_planted _

/-! ### Installing a layout -/

theorem keeps_placeOwned_planted (id : PartId) : Keeps Page.Planted (placeOwned id) := by
  refine keeps_get_bind fun _ _ => ?_
  split
  · exact keeps_pure ()
  · split
    · exact keeps_pure ()
    · exact keeps_bind (keeps_onLayout_planted (LayoutM.keeps_addPane_planted _)) fun _ =>
        keeps_pure ()

theorem keeps_install_planted {l : Layout} (hl : l.Planted []) : Keeps Page.Planted (install l) := by
  refine keeps_bind (fun q _ => (hl.handOver q.layout : (q.layout.handOver l).Planted [])) fun _ =>
    keeps_get_bind fun _ _ => ?_
  refine keeps_bind (keeps_onLayout_planted (LayoutM.keeps_retainPanes_planted _)) fun _ =>
    keeps_get_bind fun _ _ => ?_
  exact keeps_bind (keeps_forM _ fun _ => keeps_bind
    (keeps_onLayout_planted (LayoutM.keeps_clearFast_planted _)) fun _ => keeps_pure _) fun _ =>
    keeps_forM _ keeps_placeOwned_planted

theorem keeps_loadLayout_planted (saved : Except RestoreError Memento) :
    Keeps Page.Planted (loadLayout saved) := by
  refine keeps_get_bind fun p _ => ?_
  split
  · next l hl =>
    obtain ⟨m, -, hr⟩ := except_bind_eq_ok.mp hl
    exact keeps_bind (keeps_install_planted (Layout.restore_planted hr)) fun _ => keeps_pure _
  · exact keeps_bind (keeps_install_planted (planted_defaultLayout _ _)) fun _ => keeps_pure _

theorem keeps_restore_planted (m : Memento) : Keeps Page.Planted (restore m) := by
  have hA := ignoresActivation_planted
  refine keeps_zoomed_bind fun _ => keeps_bind (keeps_loadLayout_planted _) fun _ => ?_
  refine keeps_get_bind fun _ _ => ?_
  dsimp only
  refine keeps_bind (keeps_get_bind fun _ _ => hA.keeps_onHistory _) fun _ =>
    keeps_bind (hA.keeps_changed _) fun _ => ?_
  refine keeps_get_bind fun _ _ => ?_
  split
  · exact keeps_bind (keeps_activate_planted _) fun _ => keeps_pure _
  · exact keeps_pure _

theorem keeps_resetLayout_planted (template : Memento) : Keeps Page.Planted (resetLayout template) :=
  keeps_zoomed_bind fun _ => keeps_bind (keeps_loadLayout_planted _) fun _ =>
    keeps_bind (ignoresActivation_planted.keeps_changed _) fun _ => keeps_pure _

/-! ### Showing a view -/

/-- A view the factory refuses is refused at once, with the page as it was. -/
theorem ends_showView_of_refused {id : PartId} {e : CreationError}
    (he : (p.factory.acquire id).1 = .error e) :
    Ends (showView id) p fun r q => r = .error e ∧ q = p := by
  rw [showView, ends_bind, ends_get]
  dsimp only
  rw [ends_bind, ends_modify]
  split
  · next e' he' =>
    rw [he] at he'
    cases he'
    exact ⟨rfl, by rw [Factory.acquire_of_error he]; rfl⟩
  · next inst hinst =>
    rw [he] at hinst
    cases hinst

/-- On a planted page a view the factory builds is placed: showing it fails only when the
factory refuses, and then the page is as it was. -/
theorem ends_showView_planted (hp : p.Planted) (id : PartId) :
    Ends (showView id) p fun r q => ∀ e, r = .error e →
      (p.factory.acquire id).1 = .error e ∧ q = p := by
  rw [showView, ends_bind, ends_get]
  dsimp only
  rw [ends_bind, ends_modify]
  split
  · next e' he =>
    intro e hee
    cases hee
    exact ⟨he, by rw [Factory.acquire_of_error he]; rfl⟩
  · -- a view the page did not own is registered first, which leaves the layout; the pane
    -- is then placed, and from there on the answer is the instance
    rw [ends_bind, ends_owns]
    split
    · rw [ends_bind, ends_onController, ends_bind, ends_zoomed, ends_bind]
      apply ends_onLayout_of
      · exact LayoutM.ends_addPane_view hp id
      · intro _ _ _
        exact ends_bind_of_forall fun _ _ => ends_bind_of_forall fun _ _ =>
          ends_bind_of_forall fun _ _ => ends_bind_of_forall fun _ _ e h => by cases h
      · exact fun _ _ h => h.elim
    · rw [ends_bind, ends_zoomed, ends_bind]
      apply ends_onLayout_of
      · exact LayoutM.ends_addPane_view hp id
      · intro _ _ _
        exact ends_bind_of_forall fun _ _ => ends_bind_of_forall fun _ _ e h => by cases h
      · exact fun _ _ h => h.elim

theorem showView_eq_error_iff (hp : p.Planted) (id : PartId) (e : CreationError) (q : Page) :
    (showView id).run p = (.error e, q) ↔ (p.factory.acquire id).1 = .error e ∧ q = p := by
  constructor
  · intro h
    exact (ends_showView_planted hp id).of_run_eq h e rfl
  · rintro ⟨he, rfl⟩
    have h := ends_showView_of_refused he
    exact Prod.ext h.1 h.2

end PageM

namespace Script

open PageM

/-- Every command of a page script keeps the page's layout planted, carried out or refused. -/
theorem pageCommand_planted {s : PageSession} (hs : s.page.Planted) (cmd : PageCommand) :
    (pageCommand s cmd).2.page.Planted := by
  have hk : ∀ {α : Type} (x : PageM α), Keeps Page.Planted x → (x.run s.page).2.Planted :=
    fun x hx => hx _ hs
  cases cmd with
  | openEditor part kind => exact hk (openEditor part kind) (keeps_openEditor_planted part kind)
  | showView part =>
    simp only [pageCommand]
    split
    next r q hrun =>
    split <;> exact (keeps_showView_planted part _ hs).of_run_eq hrun
  | hideView part => exact hk (hideView part) (keeps_hideView_planted part)
  | closeEditor part => exact hk (closeEditor part) (keeps_closeEditor_planted part)
  | activate part => exact hk (activate part) (keeps_activate_planted part)
  | bringToTop part => exact hk (bringToTop part) (keeps_bringToTop_planted part)
  | toggleFastView part =>
    exact hk (toggleFastView part) (keeps_toggleFastView_planted part)
  | zoomIn part => exact hk (zoomIn part) (keeps_zoomIn_planted part)
  | isOwned part => exact hs
  | zoomOut => exact hk zoomOut keeps_zoomOut_planted
  | cycleEditors forward =>
    exact hk (cycleEditors forward) (keeps_cycleEditors_planted forward)
  | movePart part side reference =>
    exact hk (movePart part side reference) (keeps_ownedMutate_planted part
      (fun _ hl => LayoutM.ends_movePane_planted hl _ _ _) _ false)
  | stack part reference =>
    exact hk (PageM.stack part reference) (keeps_ownedMutate_planted part
      (fun _ hl => LayoutM.ends_stack_planted hl _ _) _ false)
  | detach part bounds =>
    exact hk (PageM.detach part bounds) (keeps_ownedMutate_planted part
      (fun _ hl => LayoutM.ends_detach_planted hl _ _) Option.join none)
  | resizeSash split index delta =>
    simp only [pageCommand]
    split
    next r q hrun =>
    split <;> exact (keeps_resizeSash_planted split index delta _ hs).of_run_eq hrun
  | drop source target pointer =>
    simp only [pageCommand]
    split
    · exact hs
    · exact hk (applyDrop _) (keeps_applyDrop_planted _)
  | applyDrop d => exact hk (applyDrop d) (keeps_applyDrop_planted d)
  | setDirty part dirty => exact hs
  | beginOperation part keepAs =>
    simp only [pageCommand]
    split <;> exact hs
  | cancel token => exact hs
  | completeOperation t action =>
    exact hk (completeOperation t action) (keeps_completeOperation_planted t action)
  | saveState name => exact hs
  | restoreState m => exact hk (restore m) (keeps_restore_planted m)
  | resetLayout m => exact hk (resetLayout m) (keeps_resetLayout_planted m)
  | onLayout cmd =>
    simp only [pageCommand]
    exact layoutStep_planted (s := { layout := s.page.layout }) hs cmd

theorem pageRun_planted {s : PageSession} (hs : s.page.Planted) (cs : List PageCommand) :
    (pageRun s cs).page.Planted := by
  induction cs generalizing s with
  | nil => exact hs
  | cons cmd rest ih => exact ih (pageCommand_planted hs cmd)

end Script

/-- Showing a view on a page that a script reached fails exactly when the factory refuses to
build the view: the view is unknown, its construction fails, or it reports another id. Such a
failure changes nothing: the layout, the history, the owned parts, the active part, the
factory's references and the events are as before. -/
theorem PageSession.showView_fails_only_unchanged (policy : ActivationPolicy)
    (editorArea floating : Bool) (registry : Registry) (cs : List PageCommand) (id : PartId)
    (e : CreationError) (q : Page) :
    let p := (Script.pageRun (PageSession.start policy editorArea floating registry) cs).page
    (PageM.showView id).run p = (.error e, q) ↔ (p.factory.acquire id).1 = .error e ∧ q = p :=
  PageM.showView_eq_error_iff (Script.pageRun_planted
    (s := PageSession.start policy editorArea floating registry)
    (Page.planted_defaultLayout editorArea _) cs) id e q

end Docking
