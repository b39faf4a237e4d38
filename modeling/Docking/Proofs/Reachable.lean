import Docking.Proofs.Sound.Document
import Docking.Proofs.Sound.Zoom
import Docking.Proofs.Sound.Regions
import Docking.Script.Layout
/-!
# Reachable layouts are sound

A layout is reachable when a script can lead to it: it starts as an empty main window, with
or without the editor area, and then runs any command, whether the command is carried out or
refused, where a restore reads a document saved from a reachable layout. Every command keeps
a layout sound (`Script.layoutStep_sound`): the requests by the lemmas of `Proofs/Sound`, the
queries and the saves because they leave the layout alone, a restore because a saved document
has the shape that reads back soundly (`Layout.Sound.shapedLayout_save`,
`Layout.restore_sound`). So every reachable layout is sound (`Layout.Reachable.sound`).
-/

namespace Docking

namespace LayoutM

open Layout

variable {l : Layout} {E : List NodeId}

/-- A drop is carried out by the request its decision names; minimizing hides the views
under the source one by one, and the layout stays sound whether the loop runs to its end or
is refused halfway. -/
theorem ends_applyDrop (hs : l.Sound E) (d : DropDecision) :
    Ends (applyDrop d) l (fun _ l' => l'.Sound E) fun _ l' => l'.Sound E := by
  unfold applyDrop
  split
  · exact hs
  · rw [ends_bind]
    exact (ends_moveNode hs _ _ _).mono (fun _ _ h => h) fun _ _ h => h
  · rw [ends_bind]
    exact (ends_stackNode hs _ _).mono (fun _ _ h => h) fun _ _ h => h
  · rw [ends_bind]
    exact (ends_detachNode hs _ _).mono (fun _ _ h => h) fun _ _ h => h
  · rw [ends_bind]
    exact (ends_moveWindow hs _ _).of_unchanged hs
  · rw [ends_bind, ends_store]
    dsimp only
    split
    · rw [ends_bind, ends_throw]
      exact hs
    · rw [ends_bind]
      refine (ends_forIn _ _ _ (fun _ _ l' => l'.Sound E) (fun part _ _ l₁ hs₁ => ?_) hs).mono
        (fun _ _ h => h) fun _ _ h => h
      rw [ends_bind]
      exact (ends_setFast hs₁ part).mono (fun _ _ h => ⟨_, rfl, h⟩) fun _ _ h => h

theorem Ends.run_ok {α : Type} {x : LayoutM α} {ok : α → Layout → Prop}
    {err : LayoutError → Layout → Prop} (h : Ends x l ok err) {a : α} {l' : Layout}
    (hx : x.run l = .ok a l') : ok a l' := by
  unfold Ends at h
  rw [show x l = _ from hx] at h
  exact h

theorem Ends.run_error {α : Type} {x : LayoutM α} {ok : α → Layout → Prop}
    {err : LayoutError → Layout → Prop} (h : Ends x l ok err) {e : LayoutError} {l' : Layout}
    (hx : x.run l = .error e l') : err e l' := by
  unfold Ends at h
  rw [show x l = _ from hx] at h
  exact h

theorem ends_run {α : Type} (x : LayoutM α) (l : Layout) :
    Ends x l (fun a l' => x.run l = .ok a l') fun e l' => x.run l = .error e l' := by
  unfold Ends
  cases h : x l with
  | ok a l' => exact h
  | error e l' => exact h

end LayoutM

namespace Script

open Layout LayoutM

variable {l : Layout} {E : List NodeId}

theorem request_sound {α : Type} {x : LayoutM α}
    (h : Ends x l (fun _ l' => l'.Sound E) fun _ l' => l'.Sound E) (f : α → Reply) :
    (request x f l).2.Sound E := by
  unfold request
  split
  · next heq => exact h.run_ok heq
  · next heq => exact h.run_error heq

/-- Every command but a restore keeps a layout sound, whether it is carried out or refused. -/
theorem layoutStep_sound {s : LayoutSession} (hs : s.layout.Sound []) (c : LayoutCommand)
    (hc : ∀ m, c ≠ .restoreState m) : (layoutStep s c).2.layout.Sound [] := by
  cases c with
  | addPane p => exact request_sound (ends_addPane hs p) _
  | removePane part => exact request_sound (ends_removePane hs part) _
  | disposePane part => exact request_sound (ends_disposePane hs part) _
  | movePane part side ref => exact request_sound (ends_movePane hs part side ref) _
  | moveNode src side ref => exact request_sound (ends_moveNode hs src side ref) _
  | stack part ref => exact request_sound (ends_stack hs part ref) _
  | stackNode src ref => exact request_sound (ends_stackNode hs src ref) _
  | detach part b => exact request_sound (ends_detach hs part b) _
  | detachNode src b => exact request_sound (ends_detachNode hs src b) _
  | moveWindow w b => exact request_sound ((ends_moveWindow hs w b).of_unchanged hs) _
  | zoomIn part => exact request_sound (ends_zoomIn hs part) .flag
  | zoomNode n => exact request_sound (ends_zoomNode hs n) .flag
  | zoomOut => exact request_sound (ends_zoomOut.mpr (hs.of_frames rfl rfl rfl rfl rfl rfl)) .flag
  | bringToTop part => exact request_sound (ends_bringToTop hs part) .flag
  | setFast part => exact request_sound (ends_setFast hs part) _
  | restoreFast part => exact request_sound (ends_restoreFast hs part) _
  | clearFast part => exact request_sound (ends_clearFast hs part) .flag
  | retainPanes keep => exact request_sound (ends_retainPanes hs _) _
  | resizeSash n index delta =>
    have h := ends_resizeSash hs n index delta
    dsimp only [layoutStep]
    split
    · next heq => exact h.run_ok heq
    · next heq => exact h.run_ok heq
    · next heq => exact h.run_error heq
  | layoutMain area =>
    exact request_sound ((ends_layoutMain hs area).mono (fun _ _ h => h) fun _ _ h => h.elim) _
  | regions w area =>
    exact request_sound ((ends_regions hs w area).mono (fun _ _ h => h) fun _ _ h => h.elim) _
  | evaluateDrop src t pointer =>
    dsimp only [layoutStep]
    split
    · exact hs
    · split <;> exact hs
  | drop src t pointer =>
    have h := ends_applyDrop hs
    dsimp only [layoutStep]
    split
    · exact hs
    · split
      · next heq => exact (h _).run_ok heq
      · next heq => exact (h _).run_error heq
  | applyDrop d => exact request_sound (ends_applyDrop hs d) .flag
  | closeWindows => exact request_sound ((ends_closeWindows hs).mono (fun _ _ h => h)
      fun _ _ h => h.elim) fun _ => .none
  | saveState name => exact hs
  | restoreState m => exact absurd rfl (hc m)
  | setFloating b => exact hs.of_frames rfl rfl rfl rfl rfl rfl
  | node n => exact hs
  | findPane part => exact hs
  | findPlaceholder part => exact hs
  | windowOf n => exact hs
  | windowOfPart part => exact hs
  | isWithinZoom n => exact hs
  | panes => exact hs
  | isFast part => exact hs
  | windows => exact hs

/-- Restoring a document saved from a sound layout gives a sound layout; a refused restore
keeps the old one. -/
theorem layoutStep_restore_sound {s : LayoutSession} {p : Layout} (hs : s.layout.Sound [])
    (hp : p.Sound []) : (layoutStep s (.restoreState p.save)).2.layout.Sound [] := by
  dsimp only [layoutStep]
  split
  · next l' heq =>
    unfold replaceLayout at heq
    rw [except_bind_eq_ok] at heq
    obtain ⟨r, hr, heq⟩ := heq
    cases heq
    exact (restore_sound hp.shapedLayout_save hr).handOver _
  · exact hs

end Script

namespace Layout

/-- The layouts a script can lead to: an empty main window, with or without the editor area,
then any command, carried out or refused, where a restore reads a document saved from a
reachable layout. -/
inductive Reachable : Layout → Prop
  | empty (host : Host) : Reachable (Layout.empty host)
  | withEditorArea (host : Host) : Reachable (Layout.withEditorArea host)
  | step {l : Layout} (docs : List (String × Memento)) (c : LayoutCommand) :
      Reachable l → (∀ m, c ≠ .restoreState m) →
      Reachable (Script.layoutStep ⟨l, docs⟩ c).2.layout
  | restore {l p : Layout} (docs : List (String × Memento)) :
      Reachable l → Reachable p →
      Reachable (Script.layoutStep ⟨l, docs⟩ (.restoreState p.save)).2.layout

/-- Every reachable layout is sound with no node held out. -/
theorem Reachable.sound {l : Layout} (h : l.Reachable) : l.Sound [] := by
  induction h with
  | empty host => exact sound_empty host
  | withEditorArea host => exact sound_withEditorArea host
  | step docs c _ hc ih => exact Script.layoutStep_sound ih c hc
  | restore docs _ _ ihl ihp => exact Script.layoutStep_restore_sound ihl ihp

end Layout

end Docking
