import Docking.Proofs.Sound.Basic
import Docking.Proofs.Spares
import Mathlib.Data.List.Perm.Basic
/-!
# The windows of a sound layout

Requests change the window lists in few ways: a window opens on a folder the request holds
out of the tree, an emptied window closes (its folder freed, or parked when placeholders
stay), a parked window leaves its list to reopen, and a window changes what it shows besides
its folder (bounds, surface), as the host, the zoom and the fast views change. Each keeps a
layout sound, the folder moving between the windows and the extra nodes.

All of them go through `Sound.of_frames_perm`: a layout with the table of a sound one is
sound when its window folders and extra nodes are the old ones in another order.
-/

namespace Docking

namespace Layout

variable {l l' : Layout} {E E' : List NodeId}

/-- A layout with the table, root and editor area of a sound layout is sound when its window
folders and extra nodes are the old ones up to order, its window folders are folders and its
window numbers are different and below the next number. -/
theorem Sound.of_frames_perm (hs : l.Sound E) (hstore : l'.store = l.store)
    (hroot : l'.root = l.root) (harea : l'.editorArea = l.editorArea)
    (hperm : (l'.frames ++ E').Perm (l.frames ++ E))
    (hframes : ∀ f ∈ l'.frames, l.store.form? f = some .folder)
    (hids : (l'.windows.map (·.id)).Nodup) (hlt : ∀ w ∈ l'.windows, w.id.val < l'.nextWindow) :
    l'.Sound E' := by
  have htops : (l'.tops ++ E').Perm (l.tops ++ E) := by
    rw [tops_eq, tops_eq, hroot]
    exact hperm.cons _
  refine ⟨by rw [hstore]; exact hs.forest, fun n => ?_, htops.nodup_iff.mpr hs.tops_nodup, hids,
    hlt, by rw [hstore, hroot]; exact hs.root_split, by rw [hstore]; exact hframes,
    by rw [hstore]; exact hs.fold_held, by rw [hstore]; exact hs.tabs_leaves, fun a ha => ?_,
    by rw [hstore]; exact hs.aligned⟩
  · rw [htops.mem_iff, hstore]
    exact hs.tops_iff n
  · rw [harea] at ha
    rw [hstore]
    exact hs.area a ha

/-- Changing a layout besides its table, its windows' numbers and folders and its parked
windows' folders keeps it sound: bounds, surfaces, the host, the zoom and the fast views. -/
theorem Sound.of_frames (hs : l.Sound E) (hstore : l'.store = l.store) (hroot : l'.root = l.root)
    (harea : l'.editorArea = l.editorArea)
    (hwin : l'.windows.map (fun w => (w.id, w.folder)) = l.windows.map fun w => (w.id, w.folder))
    (hparked : l'.parked.map (·.folder) = l.parked.map (·.folder))
    (hnext : l'.nextWindow = l.nextWindow) : l'.Sound E := by
  have hfold : l'.windows.map (·.folder) = l.windows.map (·.folder) := by
    simpa [List.map_map, Function.comp_def] using congrArg (List.map Prod.snd) hwin
  have hid : l'.windows.map (·.id) = l.windows.map (·.id) := by
    simpa [List.map_map, Function.comp_def] using congrArg (List.map Prod.fst) hwin
  have hframes : l'.frames = l.frames := by rw [frames, frames, hfold, hparked]
  refine hs.of_frames_perm hstore hroot harea (by rw [hframes]) (fun f hf => ?_)
    (by rw [hid]; exact hs.ids_nodup) fun w hw => ?_
  · rw [hframes] at hf
    exact hs.frames_folders f hf
  · have hmem : w.id ∈ l.windows.map (·.id) := by
      rw [← hid]
      exact List.mem_map_of_mem hw
    obtain ⟨w', hw', he⟩ := List.mem_map.mp hmem
    rw [hnext, ← he]
    exact hs.ids_lt w' hw'

/-- With different numbers, dropping the windows of one window's number leaves all others. -/
theorem perm_filter_id {ws : List Window} {win : Window} (hnd : (ws.map (·.id)).Nodup)
    (hw : win ∈ ws) : ws.Perm (win :: ws.filter (·.id != win.id)) := by
  have heq : ws.filter (·.id != win.id) = ws.erase win := by
    rw [(hnd.of_map _).erase_eq_filter]
    refine List.filter_congr fun x hx => ?_
    by_cases hxw : x = win
    · subst hxw
      simp
    · have hid : x.id ≠ win.id := fun he => hxw (List.inj_on_of_nodup_map hnd hx hw he)
      rw [bne_iff_ne.mpr hid, bne_iff_ne.mpr hxw]
  rw [heq]
  exact List.perm_cons_erase hw

/-! ### How the window changes move the frames

Each change below moves one folder between the frames and the nodes a request holds out, and
keeps the window numbers different and below the next one. -/

section FrameMoves

variable (E) {win : Window}

/-- Closing a window: its folder leaves the frames for the front of `E`. -/
theorem frames_close_perm (hids : (l.windows.map (·.id)).Nodup) (hwin : win ∈ l.windows)
    (h : Host) :
    (({ l with windows := l.windows.filter (·.id != win.id), host := h } : Layout).frames ++
      win.folder :: E).Perm (l.frames ++ E) := by
  have hperm := (perm_filter_id hids hwin).map (·.folder)
  rw [List.perm_iff_count]
  intro a
  have hc := hperm.count_eq a
  simp only [frames, List.map_cons, List.count_append, List.count_cons] at hc ⊢
  omega

/-- Parking a window: its folder moves from the windows to the end of the parked windows. -/
theorem frames_park_perm (hids : (l.windows.map (·.id)).Nodup) (hwin : win ∈ l.windows)
    (h : Host) :
    (({ l with
        windows := l.windows.filter (·.id != win.id), host := h,
        parked := l.parked ++ [⟨win.bounds, win.folder⟩] } : Layout).frames ++ E).Perm
      (l.frames ++ E) := by
  have hperm := (perm_filter_id hids hwin).map (·.folder)
  rw [List.perm_iff_count]
  intro a
  have hc := hperm.count_eq a
  simp only [frames, List.map_cons, List.map_append, List.map_nil, List.count_append,
    List.count_cons, List.count_nil] at hc ⊢
  omega

theorem frames_unpark_perm {i : Nat} (hi : i < l.parked.length) :
    (({ l with parked := l.parked.eraseIdx i } : Layout).frames ++ l.parked[i].folder :: E).Perm
      (l.frames ++ E) := by
  have hperm := (List.getElem_cons_eraseIdx_perm hi).map (·.folder)
  rw [List.perm_iff_count]
  intro a
  have hc := hperm.count_eq a
  simp only [frames, List.map_cons, List.count_append, List.count_cons] at hc ⊢
  omega

/-- Opening a window on a folder of `E`: the folder leaves `E` for the frames. -/
theorem frames_open_perm {f : NodeId} (hf : f ∈ E) (b : FloatRect) (sf : Option SurfaceId)
    (h : Host) :
    (({ l with
        windows := l.windows ++ [⟨⟨l.nextWindow⟩, b, f, sf⟩], nextWindow := l.nextWindow + 1,
        host := h } : Layout).frames ++ E.erase f).Perm (l.frames ++ E) := by
  have hperm := List.perm_cons_erase hf
  rw [List.perm_iff_count]
  intro a
  have hc := hperm.count_eq a
  simp only [frames, List.map_append, List.map_cons, List.map_nil, List.count_append,
    List.count_cons, List.count_nil] at hc ⊢
  omega

/-- Parking a folder of `E` as a new parked window: the folder leaves `E` for the frames. -/
theorem frames_parkFolder_perm {f : NodeId} (hf : f ∈ E) (b : FloatRect) :
    (({ l with parked := l.parked ++ [⟨b, f⟩] } : Layout).frames ++ E.erase f).Perm
      (l.frames ++ E) := by
  have hperm := List.perm_cons_erase hf
  rw [List.perm_iff_count]
  intro a
  have hc := hperm.count_eq a
  simp only [frames, List.map_append, List.map_cons, List.map_nil, List.count_append,
    List.count_cons, List.count_nil] at hc ⊢
  omega

variable {E}

theorem mem_frames_close {f : NodeId} (h : Host)
    (hf : f ∈ ({ l with windows := l.windows.filter (·.id != win.id), host := h } :
      Layout).frames) : f ∈ l.frames := by
  simp only [frames, List.mem_append] at hf ⊢
  rcases hf with hf | hf
  · exact .inl (List.filter_sublist.map _ |>.subset hf)
  · exact .inr hf

theorem mem_frames_park {f : NodeId} (hwin : win ∈ l.windows) (h : Host)
    (hf : f ∈ ({ l with
        windows := l.windows.filter (·.id != win.id), host := h,
        parked := l.parked ++ [⟨win.bounds, win.folder⟩] } : Layout).frames) : f ∈ l.frames := by
  simp only [frames, List.map_append, List.map_cons, List.map_nil, List.mem_append,
    List.mem_singleton] at hf
  rcases hf with hf | hf | rfl
  · exact List.mem_append_left _ (List.filter_sublist.map _ |>.subset hf)
  · exact List.mem_append_right _ hf
  · exact List.mem_append_left _ (List.mem_map_of_mem hwin)

theorem mem_frames_unpark {f : NodeId} {i : Nat} (hi : i < l.parked.length)
    (hf : f ∈ ({ l with parked := l.parked.eraseIdx i } : Layout).frames) : f ∈ l.frames := by
  have hperm := (List.getElem_cons_eraseIdx_perm hi).map (·.folder)
  simp only [frames, List.mem_append] at hf ⊢
  rcases hf with hf | hf
  · exact .inl hf
  · exact .inr (hperm.subset (List.mem_cons_of_mem _ hf))

theorem mem_frames_open {f g : NodeId} {b : FloatRect} {sf : Option SurfaceId} {h : Host}
    (hg : g ∈ ({ l with
        windows := l.windows ++ [⟨⟨l.nextWindow⟩, b, f, sf⟩], nextWindow := l.nextWindow + 1,
        host := h } : Layout).frames) : g ∈ l.frames ∨ g = f := by
  simp only [frames, List.map_append, List.map_cons, List.map_nil, List.mem_append,
    List.mem_singleton] at hg
  rcases hg with (hg | rfl) | hg
  · exact .inl (List.mem_append_left _ hg)
  · exact .inr rfl
  · exact .inl (List.mem_append_right _ hg)

theorem mem_frames_parkFolder {f g : NodeId} {b : FloatRect}
    (hg : g ∈ ({ l with parked := l.parked ++ [⟨b, f⟩] } : Layout).frames) :
    g ∈ l.frames ∨ g = f := by
  simp only [frames, List.map_append, List.map_cons, List.map_nil, List.mem_append,
    List.mem_singleton] at hg
  rcases hg with hg | hg | rfl
  · exact .inl (List.mem_append_left _ hg)
  · exact .inl (List.mem_append_right _ hg)
  · exact .inr rfl

/-- A new window under the next number keeps the numbers different and below the next one. -/
theorem ids_open (hids : (l.windows.map (·.id)).Nodup)
    (hlt : ∀ w ∈ l.windows, w.id.val < l.nextWindow) (w : Window) (hw : w.id = ⟨l.nextWindow⟩) :
    ((l.windows ++ [w]).map (·.id)).Nodup ∧
      ∀ x ∈ l.windows ++ [w], x.id.val < l.nextWindow + 1 := by
  refine ⟨?_, fun x hx => ?_⟩
  · rw [List.map_append, List.nodup_append]
    refine ⟨hids, List.nodup_singleton _, fun a ha b hb => ?_⟩
    obtain ⟨x, hx, rfl⟩ := List.mem_map.mp ha
    rw [List.map_cons, List.map_nil, List.mem_singleton] at hb
    rintro rfl
    have := hlt x hx
    rw [hb, hw] at this
    exact Nat.lt_irrefl _ this
  · rcases List.mem_append.mp hx with hx | hx
    · exact Nat.lt_succ_of_lt (hlt x hx)
    · rw [List.mem_singleton] at hx
      subst hx
      rw [hw]
      exact Nat.lt_succ_self _

end FrameMoves

theorem Sound.close (hs : l.Sound E) {win : Window} (hwin : win ∈ l.windows) (h : Host) :
    ({ l with windows := l.windows.filter (·.id != win.id), host := h } : Layout).Sound
      (win.folder :: E) :=
  hs.of_frames_perm rfl rfl rfl (frames_close_perm E hs.ids_nodup hwin h)
    (fun _ hf => hs.frames_folders _ (mem_frames_close h hf))
    (hs.ids_nodup.sublist (List.filter_sublist.map _)) fun x hx =>
      hs.ids_lt x (List.mem_of_mem_filter hx)

theorem Sound.park (hs : l.Sound E) {win : Window} (hwin : win ∈ l.windows) (h : Host) :
    ({ l with
        windows := l.windows.filter (·.id != win.id), host := h,
        parked := l.parked ++ [⟨win.bounds, win.folder⟩] } : Layout).Sound E :=
  hs.of_frames_perm rfl rfl rfl (frames_park_perm E hs.ids_nodup hwin h)
    (fun _ hf => hs.frames_folders _ (mem_frames_park hwin h hf))
    (hs.ids_nodup.sublist (List.filter_sublist.map _)) fun x hx =>
      hs.ids_lt x (List.mem_of_mem_filter hx)

theorem Sound.unpark (hs : l.Sound E) {i : Nat} (hi : i < l.parked.length) :
    ({ l with parked := l.parked.eraseIdx i } : Layout).Sound (l.parked[i].folder :: E) :=
  hs.of_frames_perm rfl rfl rfl (frames_unpark_perm E hi)
    (fun _ hf => hs.frames_folders _ (mem_frames_unpark hi hf)) hs.ids_nodup hs.ids_lt

/-- Opening a window on an extra folder under the next number: the folder leaves the extra
nodes. -/
theorem Sound.open (hs : l.Sound E) {f : NodeId} (hf : f ∈ E)
    (hfold : l.store.form? f = some .folder) (b : FloatRect) (sf : Option SurfaceId) (h : Host) :
    ({ l with
        windows := l.windows ++ [⟨⟨l.nextWindow⟩, b, f, sf⟩], nextWindow := l.nextWindow + 1,
        host := h } : Layout).Sound (E.erase f) := by
  obtain ⟨hids, hlt⟩ := ids_open hs.ids_nodup hs.ids_lt ⟨⟨l.nextWindow⟩, b, f, sf⟩ rfl
  refine hs.of_frames_perm rfl rfl rfl (frames_open_perm E hf b sf h) (fun g hg => ?_) hids hlt
  rcases mem_frames_open hg with hg | rfl
  · exact hs.frames_folders g hg
  · exact hfold

/-- What tidying keeps of a layout's frame: the main root and the editor area stay, and no
node becomes the folder of a window (a window may close or be parked). -/
structure Narrows (l l' : Layout) : Prop where
  root : l'.root = l.root
  editorArea : l'.editorArea = l.editorArea
  frames : ∀ f ∈ l'.frames, f ∈ l.frames

theorem Narrows.refl (l : Layout) : l.Narrows l := ⟨rfl, rfl, fun _ h => h⟩

theorem Narrows.trans {l₁ l₂ l₃ : Layout} (h₁ : l₁.Narrows l₂) (h₂ : l₂.Narrows l₃) :
    l₁.Narrows l₃ :=
  ⟨h₂.root.trans h₁.root, h₂.editorArea.trans h₁.editorArea, fun f hf => h₁.frames f (h₂.frames f hf)⟩

theorem narrows_withStore (l : Layout) (s : Store) : l.Narrows { l with store := s } :=
  ⟨rfl, rfl, fun _ h => h⟩

/-- A pane or a placeholder of a shown window has a container: a node without one is shown
only as the root of its window, which is a container. -/
theorem Sound.linked_of_windowOf (hs : l.Sound E) {n : NodeId} (hw : (l.windowOf n).isSome)
    (hleaf : l.store.IsLeaf n) : ∃ p, l.store.parent? n = some p := by
  cases hp : l.store.parent? n with
  | some p => exact ⟨p, rfl⟩
  | none =>
    have htop : l.store.rootOf n = n := by
      simp [Store.rootOf, Store.depthBound, Store.climb, hp]
    unfold windowOf at hw
    split at hw
    · cases hw
    rw [htop] at hw
    dsimp only at hw
    split at hw
    · next hr =>
      rw [beq_iff_eq] at hr
      exact absurd (hr ▸ .inr hs.root_split) hleaf.not_isContainer
    · obtain ⟨win, hwin⟩ := Option.isSome_iff_exists.mp (Option.isSome_map.symm.trans hw)
      have hfolder : win.folder = n := by simpa using List.find?_some hwin
      have hmem : n ∈ l.frames :=
        hfolder ▸ List.mem_append_left _ (List.mem_map_of_mem (List.mem_of_find?_eq_some hwin))
      exact absurd (.inl (hs.frames_folders n hmem)) hleaf.not_isContainer

end Layout

namespace LayoutM

open Layout

variable {l : Layout} {E : List NodeId}

/-- Opening a window on an extra folder never fails and keeps the table; the folder leaves
the extra nodes when the host gives a surface, and stays extra when it refuses one. -/
theorem ends_openWindow (hs : l.Sound E) {f : NodeId} (hf : f ∈ E)
    (hfold : l.store.form? f = some .folder) (b : FloatRect) :
    Ends (openWindow f b) l (fun r l' => l'.store = l.store ∧ l'.root = l.root ∧
      l'.editorArea = l.editorArea ∧ l'.Sound (if r.isSome then E.erase f else E))
      fun _ _ => False := by
  rw [openWindow, ends_bind, ends_get]
  dsimp only
  split
  · rw [ends_bind, ends_set, ends_pure]
    exact ⟨rfl, rfl, rfl, hs.of_frames rfl rfl rfl rfl rfl rfl⟩
  · rw [ends_bind, ends_set, ends_pure]
    exact ⟨rfl, rfl, rfl, hs.open hf hfold _ _ _⟩

theorem find?_key_of_mem {α κ : Type} [BEq κ] [LawfulBEq κ] (key : α → κ) {xs : List α}
    (hn : (xs.map key).Nodup) {r : α} (hr : r ∈ xs) :
    xs.find? (fun x => key x == key r) = some r := by
  have hsome : (xs.find? (fun x => key x == key r)).isSome :=
    List.find?_isSome.mpr ⟨r, hr, by simp⟩
  obtain ⟨v, hv⟩ := Option.isSome_iff_exists.mp hsome
  rw [hv, List.inj_on_of_nodup_map hn (List.mem_of_find?_eq_some hv) hr
    (by simpa using List.find?_some hv)]

theorem window?_eq (hs : l.Sound E) {win : Window} (hw : win ∈ l.windows) :
    l.window? win.id = some win :=
  find?_key_of_mem Window.id hs.ids_nodup hw

/-- Closing an emptied window never fails and keeps a layout sound: its folder is freed, or
parked when placeholders stay in it. Nothing but the folder goes. -/
theorem ends_retireIfEmpty (hs : l.Sound E) (w : WindowId) :
    Ends (retireIfEmpty w) l (fun _ l' => l'.Sound E ∧
      ∀ win, l.window? w = some win → l.store.Spares win.folder l'.store) fun _ _ => False := by
  rw [retireIfEmpty, ends_bind, ends_get]
  cases hw : l.window? w with
  | none => exact ⟨hs, fun _ h => nomatch h⟩
  | some win =>
    have hwin : win ∈ l.windows := List.mem_of_find?_eq_some hw
    have hid : win.id = w := by simpa using List.find?_some hw
    subst hid
    have hfolder : l.store.form? win.folder = some .folder :=
      hs.frames_folders _ (List.mem_append_left _ (List.mem_map_of_mem hwin))
    dsimp only
    split
    · exact ⟨hs, fun _ _ => .refl _ _⟩
    · split
      · -- an empty folder holds no editor area: it is freed, and nothing else
        next hempty =>
        have hheld : l.store.held win.folder = [] := by
          rw [Store.held_eq_children (.inl hfolder)]
          exact List.isEmpty_iff.mp hempty
        rw [← List.erase_cons_head win.folder E]
        refine ⟨(hs.close hwin _).free List.mem_cons_self
          (hs.not_under_area (by rw [hfolder]; nofun)), fun _ h => ?_⟩
        cases h
        refine hs.forest.spares_free fun y hy => ?_
        rcases hy with rfl | hy
        · exact .refl _
        · obtain ⟨c, hc⟩ := hy.exists_child
          have hmem := hs.forest.mem_held_iff.mpr hc
          rw [hheld] at hmem
          cases hmem
      · exact ⟨hs.park hwin _, fun _ _ => .refl _ _⟩

/-- Closing an emptied window keeps every other window as it was. -/
theorem retireIfEmpty_keepsOthers (w : WindowId) :
    Ends (retireIfEmpty w) l (fun _ l' => ∀ win ∈ l.windows, win.id ≠ w → win ∈ l'.windows)
      fun _ _ => True := by
  rw [retireIfEmpty, ends_bind, ends_get]
  cases l.window? w with
  | none => exact fun _ h _ => h
  | some win =>
    dsimp only
    split
    · exact fun _ h _ => h
    · split <;> exact fun x hx hne => List.mem_filter.mpr ⟨hx, by simpa using hne⟩

/-- Closing an emptied window narrows the frame: the window's folder is freed or parked. -/
theorem narrows_retireIfEmpty (w : WindowId) :
    Ends (retireIfEmpty w) l (fun _ l' => l.Narrows l') fun _ _ => True := by
  rw [retireIfEmpty, ends_bind, ends_get]
  cases hw : l.window? w with
  | none => exact .refl l
  | some win =>
    have hwin : win.folder ∈ l.frames :=
      List.mem_append_left _ (List.mem_map_of_mem (List.mem_of_find?_eq_some hw))
    dsimp only
    split
    · exact .refl l
    -- the windows left are some of the old ones; a parked folder was a window's
    split
    · rw [ends_set]
      refine ⟨rfl, rfl, fun f hf => ?_⟩
      simp only [frames, List.mem_append] at hf
      rcases hf with hf | hf
      · exact List.mem_append_left _ (List.filter_sublist.map _ |>.subset hf)
      · exact List.mem_append_right _ hf
    · rw [ends_set]
      refine ⟨rfl, rfl, fun f hf => ?_⟩
      simp only [frames, List.map_append, List.map_cons, List.map_nil, List.mem_append,
        List.mem_singleton] at hf
      rcases hf with hf | hf | rfl
      · exact List.mem_append_left _ (List.filter_sublist.map _ |>.subset hf)
      · exact List.mem_append_right _ hf
      · exact hwin

/-- Moving a window changes its bounds only; an unknown window is refused with no change. -/
theorem ends_moveWindow (hs : l.Sound E) (w : WindowId) (b : FloatRect) :
    Ends (moveWindow w b) l (fun _ l' => l'.Sound E) fun _ l' => l' = l := by
  rw [moveWindow, ends_bind, ends_get]
  cases l.window? w with
  | none => rfl
  | some win =>
    refine hs.of_frames rfl rfl rfl ?_ rfl rfl
    rw [List.map_map]
    refine List.map_congr_left fun x _ => ?_
    dsimp only [Function.comp]
    split <;> rfl

theorem ends_closeWindows (hs : l.Sound E) :
    Ends closeWindows l (fun _ l' => l'.Sound E) fun _ _ => False := by
  rw [closeWindows, ends_modify]
  refine hs.of_frames rfl rfl rfl ?_ rfl rfl
  rw [List.map_map]
  rfl

end LayoutM

end Docking
