import Docking.Proofs.WindowFrame
/-!
# The host's surfaces follow the detached windows

A layout asks its host for a surface when it opens a detached window, resizes the surface when
the window moves, and closes it when the window is retired or parked. `Host.Serves h ws` says
that the surfaces `h` has open are exactly those of the windows `ws`: one for each window, with
the window's bounds, the surfaces' numbers different and already issued, and every window at
least the floor size.

The three window requests keep it (`windowSafe_hostedBeside`), so every request does
(`LayoutM.WindowSafe`). A restore opens the restored windows beside the old ones and then
closes the old ones' surfaces (`Layout.handOver`), so it keeps it as well. The main result,
`HostRun.surfaces_match_windows`, follows a layout from a fresh host through any commands but
closing the windows and changing the host: the detached windows and the open surfaces match
one to one. Parked windows have no surface field, so every open surface is a detached
window's.
-/

namespace Docking

theorem FloatRect.floor_withMinSize (b : FloatRect) :
    minFloatSize ≤ b.withMinSize.width ∧ minFloatSize ≤ b.withMinSize.height := by
  simp only [FloatRect.withMinSize, UInt16.le_iff_toNat_le, UInt16.toNat_max]
  omega

namespace Host

/-- The surfaces `h` has open are those of the windows `ws`, one for each window and with the
window's bounds; no two open surfaces have one number, every number was issued, and every
window is at least the floor size. -/
structure Serves (h : Host) (ws : List Window) : Prop where
  surfaces : (ws.map fun w => (w.surface, w.bounds)).Perm (h.open.map fun o => (some o.1, o.2))
  distinct : (h.open.map (·.1)).Nodup
  issued : ∀ o ∈ h.open, o.1.val ≤ h.lastSurface
  floor : ∀ w ∈ ws, minFloatSize ≤ w.bounds.width ∧ minFloatSize ≤ w.bounds.height

theorem serves_fresh (floating : Bool) : (Host.fresh floating).Serves [] where
  surfaces := by simp [fresh]
  distinct := by simp [fresh]
  issued := by simp [fresh]
  floor := by simp

theorem createSurface_none {h h' : Host} {b : FloatRect} (heq : h.createSurface b = (none, h')) :
    h' = h := by
  unfold createSurface at heq
  split at heq
  · exact (Prod.mk.inj heq).2.symm
  · simp at heq

namespace Serves

variable {h : Host} {w : Window} {ws : List Window}

theorem perm (hs : h.Serves ws) {vs : List Window} (hp : ws.Perm vs) : h.Serves vs where
  surfaces := (hp.map _).symm.trans hs.surfaces
  distinct := hs.distinct
  issued := hs.issued
  floor v hv := hs.floor v (hp.symm.subset hv)

theorem mem_open (hs : h.Serves ws) (hw : w ∈ ws) :
    ∃ s, w.surface = some s ∧ (s, w.bounds) ∈ h.open := by
  obtain ⟨⟨s, b⟩, ho, he⟩ := List.mem_map.mp (hs.surfaces.subset (List.mem_map_of_mem hw))
  simp only [Prod.mk.injEq] at he
  exact ⟨s, he.1.symm, he.2 ▸ ho⟩

/-- Each open surface is the surface of exactly one served window. -/
theorem countP_surface (hs : h.Serves ws) {o : SurfaceId × FloatRect} (ho : o ∈ h.open) :
    ws.countP (·.surface == some o.1) = 1 := by
  have hone : (h.open.map (·.1)).count o.1 = 1 :=
    List.count_eq_one_of_mem hs.distinct (List.mem_map_of_mem ho)
  calc ws.countP (·.surface == some o.1)
      = (ws.map fun w => (w.surface, w.bounds)).countP (·.1 == some o.1) := by
        rw [List.countP_map]
        rfl
    _ = (h.open.map fun o => (some o.1, o.2)).countP (·.1 == some o.1) :=
        hs.surfaces.countP_eq _
    _ = (h.open.map (·.1)).count o.1 := by
        rw [List.countP_map, List.count, List.countP_map]
        congr 1
    _ = 1 := hone

/-- The windows besides a served window `w` hold the open surfaces besides `w`'s, none of
them with the number of `w`'s. -/
theorem split (hs : h.Serves (w :: ws)) {s : SurfaceId} (hw : w.surface = some s) :
    ∃ rest, h.open.Perm ((s, w.bounds) :: rest) ∧ (∀ o ∈ rest, o.1 ≠ s) ∧
      (ws.map fun w => (w.surface, w.bounds)).Perm (rest.map fun o => (some o.1, o.2)) := by
  obtain ⟨s', hs', ho⟩ := hs.mem_open List.mem_cons_self
  obtain rfl : s' = s := Option.some.inj (hs'.symm.trans hw)
  have hsplit := List.perm_cons_erase ho
  refine ⟨h.open.erase (s', w.bounds), hsplit, fun o hor hos => ?_, ?_⟩
  · -- the numbers are different, so the only surface numbered `s'` is the one erased
    have hnd := (hsplit.map (·.1)).nodup_iff.mp hs.distinct
    rw [List.map_cons, List.nodup_cons] at hnd
    exact hnd.1 (List.mem_map.mpr ⟨o, hor, hos⟩)
  · have hall := hs.surfaces.trans (hsplit.map _)
    simp only [List.map_cons, hw] at hall
    exact hall.cons_inv

/-- Opening a surface for a new window serves it too. -/
theorem create (hs : h.Serves ws) {b : FloatRect} {s : SurfaceId} {h' : Host}
    (heq : h.createSurface b = (some s, h'))
    (hb : minFloatSize ≤ b.width ∧ minFloatSize ≤ b.height) (id : WindowId) (folder : NodeId) :
    h'.Serves (ws ++ [⟨id, b, folder, some s⟩]) := by
  unfold createSurface at heq
  split at heq
  · simp at heq
  simp only [Prod.mk.injEq, Option.some.injEq] at heq
  obtain ⟨rfl, rfl⟩ := heq
  refine ⟨?_, ?_, ?_, ?_⟩
  · rw [List.map_append, List.map_append]
    exact hs.surfaces.append_right _
  · -- the new number is above every number issued before
    rw [List.map_append, List.nodup_append]
    refine ⟨hs.distinct, List.nodup_singleton _, fun a ha c hc => ?_⟩
    obtain ⟨o, ho, rfl⟩ := List.mem_map.mp ha
    rw [List.map_cons, List.map_nil, List.mem_singleton] at hc
    rintro rfl
    have := hs.issued o ho
    rw [hc] at this
    exact Nat.not_succ_le_self _ this
  · intro o ho
    rcases List.mem_append.mp ho with ho | ho
    · exact Nat.le_succ_of_le (hs.issued o ho)
    · rw [List.mem_singleton] at ho
      subst ho
      exact Nat.le_refl _
  · intro v hv
    rcases List.mem_append.mp hv with hv | hv
    · exact hs.floor v hv
    · rw [List.mem_singleton] at hv
      subst hv
      exact hb

/-- Closing a window's surface serves the other windows. -/
theorem close (hs : h.Serves (w :: ws)) {s : SurfaceId} (hw : w.surface = some s) :
    (h.closeSurface s).Serves ws := by
  obtain ⟨rest, hsplit, hrest, hws⟩ := hs.split hw
  have hany : h.open.any (·.1 == s) = true :=
    List.any_eq_true.mpr ⟨_, hsplit.symm.subset List.mem_cons_self, by simp⟩
  have hfilter : (h.open.filter (·.1 != s)).Perm rest := by
    refine (hsplit.filter _).trans ?_
    rw [List.filter_cons_of_neg (by simp), List.filter_eq_self.mpr fun o ho => by
      simpa using hrest o ho]
  unfold closeSurface
  rw [if_pos hany]
  exact ⟨hws.trans (hfilter.map _).symm, hs.distinct.sublist (List.filter_sublist.map _),
    fun o ho => hs.issued o (List.mem_filter.mp ho).1,
    fun v hv => hs.floor v (List.mem_cons_of_mem _ hv)⟩

/-- Resizing a window's surface serves the window with its new bounds. -/
theorem resize (hs : h.Serves (w :: ws)) {s : SurfaceId} (hw : w.surface = some s)
    {b : FloatRect} (hb : minFloatSize ≤ b.width ∧ minFloatSize ≤ b.height) :
    (h.resizeSurface s b).Serves ({ w with bounds := b } :: ws) := by
  obtain ⟨rest, hsplit, hrest, hws⟩ := hs.split hw
  have hissued : s.val ≤ h.lastSurface := hs.issued _ (hsplit.symm.subset List.mem_cons_self)
  -- only the surface numbered `s` changes
  have hopen : (h.resizeSurface s b).open.Perm ((s, b) :: rest) := by
    unfold resizeSurface
    refine (hsplit.map _).trans ?_
    rw [List.map_cons]
    dsimp only
    rw [if_pos rfl]
    refine List.Perm.cons _ (List.Perm.of_eq ((List.map_congr_left fun o ho => ?_).trans
      (List.map_id rest)))
    obtain ⟨o₁, o₂⟩ := o
    exact if_neg (hrest _ ho)
  refine ⟨?_, ?_, fun o ho => ?_, fun v hv => ?_⟩
  · rw [List.map_cons, hw]
    exact (hws.cons (some s, b)).trans (hopen.map fun (o : SurfaceId × FloatRect) => (some o.1, o.2)).symm
  · exact (hopen.map _).nodup_iff.mpr ((hsplit.map _).nodup_iff.mp hs.distinct)
  · rcases List.mem_cons.mp (hopen.subset ho) with rfl | ho
    · exact hissued
    · exact hs.issued o (hsplit.symm.subset (List.mem_cons_of_mem _ ho))
  · rcases List.mem_cons.mp hv with rfl | hv
    · exact hb
    · exact hs.floor v (List.mem_cons_of_mem _ hv)

theorem closeAll : ∀ (ws : List Window) {h : Host} {vs : List Window}, h.Serves (ws ++ vs) →
    (ws.foldl (fun h w => match w.surface with
      | some s => h.closeSurface s
      | none => h) h).Serves vs
  | [], _, _, hs => hs
  | w :: ws, _, _, hs => by
    obtain ⟨s, hw, -⟩ := hs.mem_open List.mem_cons_self
    simp only [List.foldl_cons, hw]
    exact closeAll ws (hs.close hw)

end Serves

end Host

namespace Layout

/-- Parking the panes of a folder edits only the node table. -/
theorem parkPanes_eq (l : Layout) (f : NodeId) : ∃ s, l.parkPanes f = { l with store := s } := by
  unfold Layout.parkPanes
  generalize l.store.children f = cs
  induction cs generalizing l with
  | nil => exact ⟨l.store, rfl⟩
  | cons c rest ih =>
    rw [List.foldl_cons]
    split
    · exact ih l
    · split
      split
      · exact ih _
      · exact ih _

/-- The host serves the windows `others` and the layout's detached windows, whose numbers
are different and below the next number. -/
structure HostedBeside (others : List Window) (l : Layout) : Prop where
  serves : l.host.Serves (others ++ l.windows)
  ids_nodup : (l.windows.map (·.id)).Nodup
  ids_lt : ∀ w ∈ l.windows, w.id.val < l.nextWindow

namespace HostedBeside

open LayoutM

variable {others : List Window}

theorem frame {l l' : Layout} (hl : l.HostedBeside others) (hw : l'.windows = l.windows)
    (hn : l'.nextWindow = l.nextWindow) (hh : l'.host = l.host) : l'.HostedBeside others where
  serves := by
    rw [hw, hh]
    exact hl.serves
  ids_nodup := by
    rw [hw]
    exact hl.ids_nodup
  ids_lt := by
    rw [hw, hn]
    exact hl.ids_lt

theorem keeps_openWindow (f : NodeId) (b : FloatRect) :
    Keeps (HostedBeside others) (openWindow f b) := by
  intro l hl
  rw [openWindow, ends_bind, ends_get]
  dsimp only
  split
  · next host heq =>
    rw [ends_bind, ends_set, ends_pure]
    exact hl.frame rfl rfl (Host.createSurface_none heq)
  · next s host heq =>
    rw [ends_bind, ends_set, ends_pure]
    refine ⟨?_, ?_, fun v hv => ?_⟩
    · rw [← List.append_assoc]
      exact hl.serves.create heq b.floor_withMinSize _ _
    · -- the new window's number is the next one, above all the others
      rw [List.map_append, List.nodup_append]
      refine ⟨hl.ids_nodup, List.nodup_singleton _, fun a ha c hc => ?_⟩
      obtain ⟨v, hv, rfl⟩ := List.mem_map.mp ha
      rw [List.map_cons, List.map_nil, List.mem_singleton] at hc
      rintro rfl
      have := hl.ids_lt v hv
      rw [hc] at this
      exact Nat.lt_irrefl _ this
    · rcases List.mem_append.mp hv with hv | hv
      · exact Nat.lt_succ_of_lt (hl.ids_lt v hv)
      · rw [List.mem_singleton] at hv
        subst hv
        exact Nat.lt_succ_self _

theorem perm_others {l : Layout} (hl : l.HostedBeside others) {win : Window}
    (hwin : win ∈ l.windows) :
    (others ++ l.windows).Perm (win :: (others ++ l.windows.filter (·.id != win.id))) :=
  ((perm_filter_id hl.ids_nodup hwin).append_left others).trans List.perm_middle

theorem keeps_retireIfEmpty (w : WindowId) : Keeps (HostedBeside others) (retireIfEmpty w) := by
  intro l hl
  rw [retireIfEmpty, ends_bind, ends_get]
  cases hw : l.window? w with
  | none => exact hl
  | some win =>
    have hwin : win ∈ l.windows := List.mem_of_find?_eq_some hw
    have hid : win.id = w := by simpa using List.find?_some hw
    subst hid
    dsimp only
    split
    · exact hl
    -- the window's surface closes and the window goes, its folder freed or parked
    obtain ⟨s, hs, -⟩ := hl.serves.mem_open (List.mem_append_right _ hwin)
    have hclosed : HostedBeside others
        { l with windows := l.windows.filter (·.id != win.id), host := l.host.closeSurface s } :=
      ⟨(hl.serves.perm (hl.perm_others hwin)).close hs,
        hl.ids_nodup.sublist (List.filter_sublist.map _),
        fun v hv => hl.ids_lt v (List.mem_filter.mp hv).1⟩
    simp only [hs]
    split
    · exact (ends_set _).mpr (hclosed.frame rfl rfl rfl)
    · exact (ends_set _).mpr (hclosed.frame rfl rfl rfl)

theorem keeps_moveWindow (w : WindowId) (b : FloatRect) :
    Keeps (HostedBeside others) (moveWindow w b) := by
  intro l hl
  rw [moveWindow, ends_bind, ends_get]
  cases hw : l.window? w with
  | none => exact hl
  | some win =>
    have hwin : win ∈ l.windows := List.mem_of_find?_eq_some hw
    have hid : win.id = w := by simpa using List.find?_some hw
    subst hid
    dsimp only
    obtain ⟨s, hs, -⟩ := hl.serves.mem_open (List.mem_append_right _ hwin)
    simp only [hs]
    refine (ends_set _).mpr ⟨?_, ?_, fun v hv => ?_⟩
    · -- the window keeps its place among the others, with the new bounds
      have hrest : (l.windows.filter (·.id != win.id)).map (fun (x : Window) =>
          if x.id == win.id then { x with bounds := b.withMinSize } else x) =
          l.windows.filter (·.id != win.id) := by
        refine (List.map_congr_left fun x hx => ?_).trans (List.map_id _)
        have hne := (List.mem_filter.mp hx).2
        rw [bne_iff_ne] at hne
        exact if_neg (by simpa using hne)
      have hmoved := (perm_filter_id hl.ids_nodup hwin).map fun (x : Window) =>
        if x.id == win.id then { x with bounds := b.withMinSize } else x
      rw [List.map_cons, if_pos (beq_self_eq_true _), hrest] at hmoved
      exact ((hl.serves.perm (hl.perm_others hwin)).resize hs b.floor_withMinSize).perm
        ((hmoved.append_left others).trans List.perm_middle).symm
    · -- a move keeps every window's number
      have hids : (l.windows.map fun (x : Window) =>
          if x.id == win.id then { x with bounds := b.withMinSize } else x).map (·.id) =
          l.windows.map (·.id) := by
        rw [List.map_map]
        refine List.map_congr_left fun x _ => ?_
        dsimp only [Function.comp]
        split <;> rfl
      rw [hids]
      exact hl.ids_nodup
    · obtain ⟨x, hx, rfl⟩ := List.mem_map.mp hv
      dsimp only
      split <;> exact hl.ids_lt x hx

theorem parkRestored {l : Layout} (hl : l.HostedBeside others) (f : NodeId) (b : FloatRect) :
    ({ l.parkPanes f with parked := (l.parkPanes f).parked ++ [⟨b, f⟩] } : Layout).HostedBeside
      others := by
  obtain ⟨s, hs⟩ := parkPanes_eq l f
  rw [hs]
  exact hl.frame rfl rfl rfl

end HostedBeside

/-- The window requests keep the host serving the other windows and the layout's. -/
theorem windowSafe_hostedBeside (others : List Window) :
    LayoutM.WindowSafe (HostedBeside others) where
  frame hl hw hn hh := hl.frame hw hn hh
  openWindow := HostedBeside.keeps_openWindow
  retireIfEmpty := HostedBeside.keeps_retireIfEmpty
  moveWindow := HostedBeside.keeps_moveWindow

namespace HostedBeside

variable {others : List Window}

theorem reopen {l : Layout} (hl : l.HostedBeside others) (f : NodeId) (b : FloatRect)
    (parked : Bool) : (l.reopen f b parked).HostedBeside others := by
  unfold Layout.reopen
  cases parked
  · simp only [Bool.false_eq_true, if_false]
    have ho := (windowSafe_hostedBeside others).openWindow f b l hl
    cases hrun : EStateM.run (LayoutM.openWindow f b) l with
    | ok w l' =>
      have hl' := ho.run_ok hrun
      dsimp only
      split
      · exact hl'
      · exact hl'.parkRestored f b
    | error e l' => exact (ho.run_error hrun).parkRestored f b
  · exact hl.parkRestored f b

theorem reopenAll : ∀ (ws : List (NodeId × FloatRect × Bool)) {l : Layout},
    l.HostedBeside others → (ws.foldl (fun l x => l.reopen x.1 x.2.1 x.2.2) l).HostedBeside others
  | [], _, hl => hl
  | (f, b, p) :: ws, _, hl => by
    rw [List.foldl_cons]
    exact reopenAll ws (hl.reopen f b p)

end HostedBeside

/-- A layout restored on a host serving `others` has its windows served beside them. -/
theorem restore_hostedBeside {host : Host} {others : List Window} (hh : host.Serves others)
    {m : Memento} {r : Layout} (h : Layout.restore host m = .ok r) : r.HostedBeside others := by
  rw [Layout.restore, except_bind_eq_ok] at h
  obtain ⟨main, -, h⟩ := h
  dsimp only at h
  split at h
  · simp at h
  rw [except_pure_bind] at h
  split at h
  · simp at h
  rw [except_bind_eq_ok] at h
  obtain ⟨⟨root, b₁⟩, -, h⟩ := h
  dsimp only at h
  rw [except_bind_eq_ok] at h
  obtain ⟨⟨windows, b₂⟩, -, h⟩ := h
  dsimp only at h
  rw [except_bind_eq_ok] at h
  obtain ⟨fast, -, h⟩ := h
  cases h
  -- the restored windows open one by one on the host, then the zoom is set
  have hempty : HostedBeside others
      { store := b₂.store, root := root, editorArea := b₂.editorArea, windows := [],
        parked := [], nextWindow := 0, zoomed := none, fastViews := fast, host := host } :=
    ⟨by simpa using hh, List.nodup_nil, fun _ h => by cases h⟩
  exact (HostedBeside.reopenAll windows hempty).frame rfl rfl rfl

/-- Handing over to a restored layout closes the old windows' surfaces, and the host serves
the restored windows alone. -/
theorem HostedBeside.handOver {old new : Layout} (hnew : new.HostedBeside old.windows) :
    (old.handOver new).HostedBeside [] where
  serves := Host.Serves.closeAll old.windows hnew.serves
  ids_nodup := hnew.ids_nodup
  ids_lt := hnew.ids_lt

/-- The layouts a script leads to on a host of its own: an empty main window, with or without
the editor area, or a restored document, each on a fresh host, then any command but closing
the windows and changing the host, carried out or refused. -/
inductive HostRun : Layout → Prop
  | empty (floating : Bool) : HostRun (Layout.empty (Host.fresh floating))
  | withEditorArea (floating : Bool) : HostRun (Layout.withEditorArea (Host.fresh floating))
  | restored (floating : Bool) {m : Memento} {r : Layout} :
      Layout.restore (Host.fresh floating) m = .ok r → HostRun r
  | step {l : Layout} (docs : List (String × Memento)) (c : LayoutCommand) :
      HostRun l → c ≠ .closeWindows → (∀ b, c ≠ .setFloating b) →
      HostRun (Script.layoutStep ⟨l, docs⟩ c).2.layout

theorem hostedBeside_withEditorArea (floating : Bool) :
    (Layout.withEditorArea (Host.fresh floating)).HostedBeside [] := by
  have hempty : (Layout.empty (Host.fresh floating)).HostedBeside [] :=
    ⟨Host.serves_fresh floating, List.nodup_nil, fun _ h => nomatch h⟩
  unfold Layout.withEditorArea
  dsimp only
  split <;> exact hempty.frame rfl rfl rfl

/-- A restore replaces a layout whose windows the host serves by one whose windows it
serves; a refused restore keeps the old layout. -/
theorem layoutStep_restore_hosted {s : LayoutSession} (hs : s.layout.HostedBeside [])
    (m : Memento) : (Script.layoutStep s (.restoreState m)).2.layout.HostedBeside [] := by
  dsimp only [Script.layoutStep]
  split
  · next l' heq =>
    unfold Script.replaceLayout at heq
    rw [except_bind_eq_ok] at heq
    obtain ⟨r, hr, heq⟩ := heq
    cases heq
    exact (restore_hostedBeside (by simpa using hs.serves) hr).handOver
  · exact hs

theorem HostRun.hostedBeside {l : Layout} (h : l.HostRun) : l.HostedBeside [] := by
  induction h with
  | empty floating => exact ⟨Host.serves_fresh floating, List.nodup_nil, fun _ h => nomatch h⟩
  | withEditorArea floating => exact hostedBeside_withEditorArea floating
  | restored floating hr => exact restore_hostedBeside (Host.serves_fresh floating) hr
  | step docs c _ hclose hfloat ih =>
    by_cases hrestore : ∃ m, c = .restoreState m
    · obtain ⟨m, rfl⟩ := hrestore
      exact layoutStep_restore_hosted ih m
    · exact Script.layoutStep_keeps (windowSafe_hostedBeside []) ih c hclose
        (fun m hm => hrestore ⟨m, hm⟩) hfloat

/-- Along any run on a host of its own that never closes the windows, the detached windows
and the host's open surfaces match one to one: each window's surface is open with the
window's bounds, which are at least the floor size, and each open surface is the surface of
exactly one detached window. -/
theorem HostRun.surfaces_match_windows {l : Layout} (h : l.HostRun) :
    (∀ w ∈ l.windows, ∃ s, w.surface = some s ∧ (s, w.bounds) ∈ l.host.open ∧
      minFloatSize ≤ w.bounds.width ∧ minFloatSize ≤ w.bounds.height) ∧
    ∀ o ∈ l.host.open, l.windows.countP (·.surface == some o.1) = 1 := by
  have hs := h.hostedBeside.serves
  rw [List.nil_append] at hs
  refine ⟨fun w hw => ?_, fun o ho => hs.countP_surface ho⟩
  obtain ⟨s, hsurf, hopen⟩ := hs.mem_open hw
  exact ⟨s, hsurf, hopen, hs.floor w hw⟩

/-- A view torn off into a window of its own on a host with floating support. -/
theorem HostRun.surfaces_match_windows_detached :
    let l := (Script.layoutStep ⟨(Script.layoutStep ⟨Layout.withEditorArea (Host.fresh true), []⟩
      (.addPane ⟨"A", .view⟩)).2.layout, []⟩ (.detach "A" ⟨0, 0, 100, 100⟩)).2.layout
    l.HostRun ∧
    ((∀ w ∈ l.windows, ∃ s, w.surface = some s ∧ (s, w.bounds) ∈ l.host.open ∧
      minFloatSize ≤ w.bounds.width ∧ minFloatSize ≤ w.bounds.height) ∧
    ∀ o ∈ l.host.open, l.windows.countP (·.surface == some o.1) = 1) :=
  have h := HostRun.step [] (.detach "A" ⟨0, 0, 100, 100⟩)
    (.step [] (.addPane ⟨"A", .view⟩) (.withEditorArea true) nofun fun _ => nofun) nofun
    fun _ => nofun
  ⟨h, HostRun.surfaces_match_windows h⟩

end Layout

end Docking
