import Docking.Proofs.Recency
import Docking.Proofs.Raising
/-!
# Cycling the editors back and forth on a page

`PageM.cycleEditors` turns the history's editors by one place (`History.cycle`) and activates
the editor it answers, which moves that editor to the tail again. Main statement
(`PageSession.cycling_editors_back_and_forth`): on every reached page whose history records
each part under the kind the page owns it as, with an editor active and two editors or more,
cycling forward answers and activates the second most recent editor, and cycling back the one
active before. `showView` can break the condition on kinds: it records a view's part as a
view whatever kind its instance has.

In between, the history is `PageM.Turned`: the same entries under the owned kinds, the first
editor at its head. Activating another part moves only parts other than that editor to the
tail (`PageM.ends_activate_turned`).
-/

namespace Docking

namespace History

@[simp] theorem entries_setMinimized (h : History) (id : PartId) (b : Bool) :
    (h.setMinimized id b).entries = h.entries := by
  unfold setMinimized
  split
  · split <;> rfl
  · rfl

theorem entries_foldl_setMinimized (ids : List PartId) (g : PartId → Bool) (h : History) :
    (ids.foldl (fun h id => h.setMinimized id (g id)) h).entries = h.entries := by
  induction ids generalizing h with
  | nil => rfl
  | cons id rest ih => rw [List.foldl_cons, ih, entries_setMinimized]

/-- Activating a part that has an entry, under the kind all its entries have, moves that
entry and keeps the rest. -/
theorem recordActivated_perm {h : History} {x : PartId} {k : PartKind} (hx : x ∈ h.parts)
    (hk : ∀ e ∈ h.entries, e.part = x → e.kind = k) :
    (h.recordActivated x k).entries.Perm h.entries := by
  unfold recordActivated
  split
  · rfl
  · obtain ⟨e, he, rfl⟩ := List.mem_map.mp hx
    obtain ⟨e₀, l₁, l₂, -, hp, hsplit, herase⟩ :=
      List.exists_of_eraseP (p := (·.part == e.part)) he (beq_self_eq_true _)
    have hpart : e₀.part = e.part := by simpa using hp
    have he₀ : e₀ = ⟨e.part, k⟩ := by
      rw [← hpart, ← hk e₀ (hsplit ▸ List.mem_append_right _ List.mem_cons_self) hpart]
    dsimp only
    rw [herase, hsplit, ← he₀, List.append_assoc]
    exact List.perm_append_left_iff l₁ |>.mpr (List.perm_append_singleton e₀ l₂)

/-- Activating a part other than the least recent one leaves the least recent entry first. -/
theorem head?_recordActivated_of_ne {h : History} {E : HistoryEntry} {x : PartId}
    (hE : h.entries.head? = some E) (hx : E.part ≠ x) (k : PartKind) :
    (h.recordActivated x k).entries.head? = some E := by
  unfold recordActivated
  split
  · exact hE
  · obtain ⟨rest, hrest⟩ : ∃ rest, h.entries = E :: rest := by
      cases hs : h.entries with
      | nil => rw [hs] at hE; cases hE
      | cons E' rest => rw [hs] at hE; cases hE; exact ⟨rest, rfl⟩
    dsimp only
    rw [hrest, List.eraseP_cons_of_neg (by simpa using hx)]
    rfl

/-- An entry no other entry follows and whose part has no earlier entry is the most recent. -/
theorem getLast?_of_not_mem_dropLast {h : History} {e : HistoryEntry} (he : e ∈ h.entries)
    (hlast : e.part ∉ h.parts.dropLast) : h.entries.getLast? = some e := by
  have hne : h.entries ≠ [] := List.ne_nil_of_mem he
  obtain ⟨l, x, hlx⟩ : ∃ l x, h.entries = l ++ [x] :=
    ⟨_, _, (List.dropLast_append_getLast hne).symm⟩
  rw [hlx, List.getLast?_concat]
  rw [hlx, List.mem_append, List.mem_singleton] at he
  rcases he with he | rfl
  · rw [parts, hlx, List.map_append, List.map_singleton, List.dropLast_concat] at hlast
    exact absurd (List.mem_map_of_mem he) hlast
  · rfl

theorem editors_getLast? {h : History} {e : HistoryEntry} (he : h.entries.getLast? = some e)
    (hed : isEditor e = true) : h.editors.getLast? = some e := by
  obtain ⟨xs, hxs⟩ := List.getLast?_eq_some_iff.mp he
  simp [editors, hxs, hed]

theorem editors_head? {h : History} {e : HistoryEntry} (he : h.entries.head? = some e)
    (hed : isEditor e = true) : h.editors.head? = some e := by
  cases hs : h.entries with
  | nil => rw [hs] at he; cases he
  | cons e' rest =>
    rw [hs] at he
    cases he
    simp [editors, hs, hed]

/-- Without a part twice, the editors in front of the most recent one are other parts. -/
theorem part_ne_of_mem_dropLast_editors {h : History} (hn : h.parts.Nodup) {E e : HistoryEntry}
    (hE : h.editors.getLast? = some E) (he : e ∈ h.editors.dropLast) : e.part ≠ E.part := by
  obtain ⟨xs, hxs⟩ := List.getLast?_eq_some_iff.mp hE
  have hsub : (h.editors.map (·.part)).Nodup :=
    hn.sublist ((List.filter_sublist).map _)
  rw [hxs, List.map_append, List.map_singleton] at hsub
  rw [hxs, List.dropLast_concat] at he
  intro heq
  exact (List.nodup_append.mp hsub).2.2 _ (List.mem_map_of_mem he) _ (List.mem_singleton_self _)
    heq

/-- Without a part twice, two editors or more have one in front of the most recent editor, and
it is another part of the history. -/
theorem exists_editor_before_last {h : History} (hn : h.parts.Nodup)
    (h2 : ¬h.editors.length < 2) {E : HistoryEntry} (hE : h.editors.getLast? = some E) :
    ∃ e, h.editors.dropLast.getLast? = some e ∧ e.part ≠ E.part ∧ e.part ∈ h.parts := by
  have hne : h.editors.dropLast ≠ [] := by
    rw [← List.length_pos_iff, List.length_dropLast]
    omega
  have he := List.getLast?_eq_some_getLast hne
  have hmem := List.mem_of_getLast? he
  exact ⟨_, he, part_ne_of_mem_dropLast_editors hn hE hmem,
    List.mem_map_of_mem (List.mem_of_mem_filter (List.dropLast_subset _ hmem))⟩

end History

namespace Page

/-- The page records every part of its history under the kind it owns the part as. -/
def KindsAgree (p : Page) : Prop :=
  ∀ e ∈ p.history.entries, p.controller.kindOf? e.part = some e.kind

instance (p : Page) : Decidable p.KindsAgree :=
  inferInstanceAs
    (Decidable (∀ e ∈ p.history.entries, p.controller.kindOf? e.part = some e.kind))

end Page

namespace PageM

/-- Activating an owned part runs layout requests, catches up with the layout at most once and
then grants activation. So a property `P` that layout requests keep, that catching up turns
into a property `R` that layout requests keep too, and that granting turns into `Q`, ends in
`Q`. -/
theorem ends_activate_of {p : Page} {id : PartId} {P R : Page → Prop} {Q : Bool → Page → Prop}
    (hPl : ∀ q (l : Layout), P q → P { q with layout := l })
    (hRl : ∀ q (l : Layout), R q → R { q with layout := l }) (hPR : ∀ q, P q → R q)
    (hch : ∀ w q, P q → Ends (changed w) q fun _ q' => R q')
    (hgr : ∀ q, R q → Ends (grant id) q Q)
    (hown : p.controller.isOwned id = true) (hp : P p) : Ends (activate id) p Q := by
  rw [activate, ends_bind, ends_owns]
  split
  · next hno =>
    rw [hown] at hno
    cases hno
  rw [ends_bind, ends_zoomed, ends_bind, ends_get]
  -- the continuations of the `do` block, from the last one back
  extract_lets finish afterRestore
  have hfinish : ∀ u q, R q → Ends (finish u) q Q := fun _ q hq => by
    rw [ends_bind]
    exact ends_onLayout _ fun _ => hgr _ (hRl _ _ hq)
  have hafter : ∀ restored q, P q → Ends (afterRestore restored) q Q := by
    intro restored q hq
    rw [ends_bind, ends_get]
    extract_lets l afterZoom
    have hz : ∀ unzoomed q', P q' → Ends (afterZoom unzoomed) q' Q := by
      intro unzoomed q' hq'
      simp only [afterZoom]
      split
      · rw [ends_bind]
        exact (hch _ q' hq').mono fun _ q'' h => hfinish () q'' h
      · exact hfinish () q' (hPR _ hq')
    split
    · split
      · exact hz _ q hq
      · rw [ends_bind]
        exact ends_onLayout _ fun _ => hz _ _ (hPl _ _ hq)
    · exact hz _ q hq
  split
  · rw [ends_bind]
    exact ends_onLayout _ fun _ => hafter _ _ (hPl _ _ hp)
  · exact hafter _ p hp

theorem ends_activate_active {p : Page} {id : PartId} (hown : p.controller.isOwned id = true) :
    Ends (activate id) p fun _ q => q.active = some id := by
  have hI : IgnoresActivation fun q => q.controller.isOwned id = true :=
    fun _ _ _ hparts _ h => by
      dsimp only at h ⊢
      rwa [Controller.isOwned, hparts]
  exact ends_activate_of (P := fun q => q.controller.isOwned id = true)
    (R := fun q => q.controller.isOwned id = true) (fun _ _ h => h) (fun _ _ h => h)
    (fun _ h => h) (fun w => hI.keeps_changed w) (fun _ h => ends_grant_active h) hown hown

/-- Part way through a turn of the editors: the history holds the entries `E` in some order,
each under the kind the page owns its part as, and the editor `a` is the least recent entry. -/
structure Turned (a : PartId) (E : List HistoryEntry) (q : Page) : Prop where
  front : q.history.entries.head? = some ⟨a, .editor⟩
  kinds : q.KindsAgree
  perm : q.history.entries.Perm E

section Turned

variable {a : PartId} {E : List HistoryEntry}

theorem Turned.frame {q q' : Page} (hq : Turned a E q)
    (hh : q'.history.entries = q.history.entries) (hc : q'.controller.parts = q.controller.parts) : Turned a E q' := by
  have hk : ∀ x, q'.controller.kindOf? x = q.controller.kindOf? x := fun x => by
    rw [Controller.kindOf?, Controller.kindOf?, hc]
  refine ⟨hh ▸ hq.front, fun e he => ?_, hh ▸ hq.perm⟩
  rw [hk]
  exact hq.kinds e (hh ▸ he)

theorem Turned.kindOf? {q : Page} (hq : Turned a E q) {x : PartId} (hx : x ∈ E.map (·.part)) :
    ∃ k, q.controller.kindOf? x = some k := by
  obtain ⟨e, he, rfl⟩ := List.mem_map.mp hx
  exact ⟨e.kind, hq.kinds e (hq.perm.mem_iff.mpr he)⟩

/-- Moving another part to the tail keeps the turn. -/
theorem Turned.recordActivated {q : Page} (hq : Turned a E q) {x : PartId} {k : PartKind}
    (hxa : x ≠ a) (hk : q.controller.kindOf? x = some k) (hx : x ∈ E.map (·.part)) :
    Turned a E { q with history := q.history.recordActivated x k } := by
  have hmem : x ∈ q.history.parts := by
    rw [History.parts]
    exact (hq.perm.map _).mem_iff.mpr hx
  have hp := History.recordActivated_perm hmem fun e he hex => by
    have := hq.kinds e he
    rw [hex, hk] at this
    exact (Option.some_inj.mp this).symm
  exact ⟨History.head?_recordActivated_of_ne hq.front (Ne.symm hxa) k,
    fun e he => hq.kinds e (hp.mem_iff.mp he), hp.trans hq.perm⟩

theorem ends_switch_turned {q : Page} (hq : Turned a E q) (prev : Option (PartId × PartKind))
    {x : PartId} {k : PartKind} (hxa : x ≠ a) (hk : q.controller.kindOf? x = some k)
    (hx : x ∈ E.map (·.part)) :
    Ends (switch prev (some (x, k))) q fun _ q' => Turned a E q' := by
  rw [switch, ends_bind, ends_get]
  dsimp only
  rcases prev with _ | ⟨b, kb⟩
  · exact (hq.recordActivated hxa hk hx).frame rfl rfl
  · rw [ends_bind, ends_emit]
    exact (hq.recordActivated hxa hk hx).frame rfl rfl

theorem ends_switch_none_turned {q : Page} (hq : Turned a E q)
    (prev : Option (PartId × PartKind)) :
    Ends (switch prev none) q fun _ q' => Turned a E q' := by
  rw [switch, ends_bind, ends_get]
  dsimp only
  rcases prev with _ | ⟨b, kb⟩
  · exact hq.frame rfl rfl
  · rw [ends_bind, ends_emit]
    exact hq.frame rfl rfl

/-- Once the active editor `a` is minimized, activation moves to a part that is not, so
never to `a`. -/
theorem ends_activateNext_turned {q : Page} (hq : Turned a E q) (ha : q.active = some a) :
    Ends activateNext q fun _ q' => Turned a E q' := by
  rw [activateNext, ends_bind, ends_get]
  split
  · exact hq
  · next prev hprev =>
    have hpa : prev.1 = a := by
      have h1 : q.controller.active = some prev.1 := by
        simp only [Controller.activeWithKind, Option.bind_eq_some_iff,
          Option.map_eq_some_iff] at hprev
        obtain ⟨x, hx, k, -, rfl⟩ := hprev
        exact hx
      exact Option.some_inj.mp (h1.symm.trans ha)
    split
    · exact hq
    · next hmin =>
      have hamin : q.history.isMinimized a = true := by simpa [hpa] using hmin
      rw [ends_bind]
      cases hn : q.history.current.bind q.controller.withKind with
      | none => exact (ends_switch_none_turned hq _).mono fun _ _ h => h
      | some n =>
        obtain ⟨c, hc, hw⟩ := Option.bind_eq_some_iff.mp hn
        obtain ⟨k, hk, rfl⟩ := Option.map_eq_some_iff.mp hw
        -- the part taking over is not minimized, so it is not `a`
        have hca : c ≠ a := by
          rintro rfl
          obtain ⟨_, e, _, -, rfl, hmin', -⟩ := hc ▸ History.current_latestShown q.history
          rw [hamin] at hmin'
          cases hmin'
        have hcE : c ∈ E.map (·.part) :=
          (hq.perm.map _).mem_iff.mp (History.mem_parts_of_current hc)
        exact (ends_switch_turned hq _ hca hk hcE).mono fun _ _ h => h

theorem ends_emit_turned {q : Page} (hq : Turned a E q) (e : PageEvent) :
    Ends (emit e) q fun _ q' => Turned a E q' :=
  hq.frame rfl rfl

/-- Catching up with the layout marks fast views, which keeps the entries, and may move
activation off the minimized editor `a`. -/
theorem ends_changed_turned {q : Page} (hq : Turned a E q) (ha : q.active = some a)
    (wasZoomed : Bool) : Ends (changed wasZoomed) q fun _ q' => Turned a E q' := by
  rw [changed, ends_bind, ends_get]
  dsimp only
  rw [ends_bind, ends_set]
  have hmarked : Turned a E { q with history := (q.controller.ownedIds.foldl
      (fun h id => h.setMinimized id (q.layout.isFast id)) q.history) } :=
    hq.frame (History.entries_foldl_setMinimized _ _ _) rfl
  rw [ends_bind]
  refine (ends_activateNext_turned hmarked ha).mono fun _ q₁ h₁ => ?_
  rw [ends_bind, ends_zoomed]
  split
  · rw [ends_bind]
    exact (ends_emit_turned h₁ _).mono fun _ _ h => ends_emit_turned h _
  · exact ends_emit_turned h₁ _

/-- Granting activation to another part of the turn keeps the turn. -/
theorem ends_grant_turned {q : Page} (hq : Turned a E q) {b : PartId} (hba : b ≠ a)
    (hb : b ∈ E.map (·.part)) : Ends (grant b) q fun _ q' => Turned a E q' := by
  rw [grant, ends_bind, ends_get]
  dsimp only
  split
  · exact hq
  · next kind hk =>
    split
    · rw [ends_bind, ends_onHistory]
      exact hq.recordActivated hba hk hb
    · rw [ends_bind]
      exact (ends_switch_turned hq _ hba hk hb).mono fun _ _ h => h

/-- Activating another part of the turn, while `a` is active, keeps the turn and makes that
part active. -/
theorem ends_activate_turned {q : Page} (hq : Turned a E q) (ha : q.active = some a)
    {b : PartId} (hba : b ≠ a) (hb : b ∈ E.map (·.part)) :
    Ends (activate b) q fun _ q' => Turned a E q' ∧ q'.active = some b := by
  obtain ⟨k, hk⟩ := hq.kindOf? hb
  refine ends_activate_of (P := fun q => q.active = some a ∧ Turned a E q) (R := Turned a E)
    (fun _ _ h => ⟨h.1, h.2.frame rfl rfl⟩) (fun _ _ h => h.frame rfl rfl) (fun _ h => h.2)
    (fun w q h => ends_changed_turned h.2 h.1 w)
    (fun q' h => ?_) (Controller.isOwned_of_kindOf? hk) ⟨ha, hq⟩
  have hown : q'.controller.isOwned b = true :=
    Controller.isOwned_of_kindOf? (h.kindOf? hb).choose_spec
  exact (ends_grant_turned h hba hb).and (ends_grant_active hown)

theorem turned_cycle_true {p : Page} (hkinds : p.KindsAgree) (h2 : ¬p.history.editors.length < 2)
    (hlast : p.history.editors.getLast? = some ⟨a, .editor⟩) :
    Turned a p.history.entries { p with history := (p.history.cycle true).2 } := by
  have hfr := History.cycle_true_rotates h2
  have hmoved : (p.history.cycle true).2.entries.head? = p.history.editors.getLast? := by
    simpa using hfr.moved
  exact ⟨hmoved.trans hlast, fun e he => hkinds e (hfr.perm.mem_iff.mp he), hfr.perm⟩

end Turned

/-- Cycling that answers an editor installs the turned history and activates that editor. -/
theorem ends_cycleEditors_of {p : Page} {forward : Bool} {b : PartId}
    {Q : Option PartId → Page → Prop} (hc : (p.history.cycle forward).1 = some b)
    (h : Ends (activate b) { p with history := (p.history.cycle forward).2 }
      fun _ q => Q (some b) q) : Ends (cycleEditors forward) p Q := by
  rw [cycleEditors, ends_bind, ends_get]
  dsimp only
  rw [ends_bind, ends_onHistory]
  split
  · next hnone =>
    rw [hc] at hnone
    cases hnone
  · next id hid =>
    rw [hc] at hid
    cases hid
    rw [ends_bind]
    exact h

/-- Part way through a turn of two editors or more, cycling back answers and activates the
editor at the head. -/
theorem ends_cycleEditors_false_turned {a : PartId} {E : List HistoryEntry} {q : Page}
    (hq : Turned a E q) (h2 : ¬(E.filter History.isEditor).length < 2) :
    Ends (cycleEditors false) q fun r q' => r = some a ∧ q'.active = some a := by
  have hq2 : ¬q.history.editors.length < 2 := by
    rwa [History.editors, (hq.perm.filter _).length_eq]
  have hback : (q.history.cycle false).1 = some a := by
    rw [History.cycle_false_answer hq2, History.editors_head? hq.front rfl]
    rfl
  have hown : ({ q with history := (q.history.cycle false).2 } : Page).controller.isOwned a =
      true := Controller.isOwned_of_kindOf? (hq.kinds _ (List.mem_of_head? hq.front))
  exact ends_cycleEditors_of hback ((ends_activate_active hown).mono fun _ _ h => ⟨rfl, h⟩)

end PageM

open PageM in
/-- Cycling the editors forward and then back, on any page that page commands reach and that
records each part in its history under the kind it owns the part as: when the active part is
an editor and the history holds two editors or more, cycling forward answers and activates the
editor that was second most recent, and cycling back then answers and activates the editor
that was active before. -/
theorem PageSession.cycling_editors_back_and_forth (policy : ActivationPolicy)
    (editorArea floating : Bool) (registry : Registry) (cs : List PageCommand) {a : PartId} :
    let p := (Script.pageRun (PageSession.start policy editorArea floating registry) cs).page
    p.KindsAgree → p.active = some a → ⟨a, .editor⟩ ∈ p.history.entries →
      2 ≤ p.history.editors.length →
      ∃ b, p.history.editors.dropLast.getLast?.map (·.part) = some b ∧
        Ends (cycleEditors true) p fun r q => r = some b ∧ q.active = some b ∧
          Ends (cycleEditors false) q fun r' q' => r' = some a ∧ q'.active = some a := by
  intro p hkinds ha hmem h2
  obtain ⟨c, hf⟩ : Narrated ⟨∅, none⟩ [] p :=
    Script.narrated_pageRun (Narrated.fresh _ _ _ _) cs
  have h2' : ¬p.history.editors.length < 2 := by omega
  -- the active editor is the most recent entry, so the most recent editor
  have hlast : p.history.editors.getLast? = some ⟨a, .editor⟩ :=
    History.editors_getLast? (History.getLast?_of_not_mem_dropLast hmem (hf.settled trivial a ha))
      rfl
  -- forward answers the editor in front of `a`, another part of the history
  obtain ⟨eb, heb, hba, hbE⟩ := History.exists_editor_before_last hf.nodup h2' hlast
  have hb : (p.history.cycle true).1 = some eb.part := by
    rw [History.cycle_true_answer h2', heb]
    rfl
  refine ⟨eb.part, by rw [heb]; rfl, ends_cycleEditors_of hb ?_⟩
  -- activating it keeps `a` at the head of the turned history, ready for the way back
  exact (ends_activate_turned (turned_cycle_true hkinds h2' hlast) ha hba hbE).mono
    fun _ q ⟨hq, hqa⟩ => ⟨rfl, hqa, ends_cycleEditors_false_turned hq h2'⟩

open PageM in
/-- Two editors and a view between them, the second editor active: cycling forward turns to
the first editor and back returns to the second. -/
theorem PageSession.cycling_editors_back_and_forth_pair :
    let p := (Script.pageRun (PageSession.start .kindChange true true
      (({} : Registry).register "view.outline" ⟨.view, .builds⟩))
      [.openEditor "a.rs" .editor, .openEditor "b.rs" .editor, .showView "view.outline",
        .activate "b.rs"]).page
    p.KindsAgree ∧ p.active = some "b.rs" ∧ ⟨"b.rs", .editor⟩ ∈ p.history.entries ∧
      2 ≤ p.history.editors.length ∧
      ∃ b, p.history.editors.dropLast.getLast?.map (·.part) = some b ∧
        Ends (cycleEditors true) p fun r q => r = some b ∧ q.active = some b ∧
          Ends (cycleEditors false) q fun r' q' =>
            r' = some "b.rs" ∧ q'.active = some "b.rs" := by
  intro p
  have hk : p.KindsAgree := by decide +kernel
  have ha : p.active = some "b.rs" := by decide +kernel
  have hm : (⟨"b.rs", .editor⟩ : HistoryEntry) ∈ p.history.entries := by decide +kernel
  have h2 : 2 ≤ p.history.editors.length := by decide +kernel
  exact ⟨hk, ha, hm, h2,
    PageSession.cycling_editors_back_and_forth .kindChange true true _ _ hk ha hm h2⟩

end Docking
