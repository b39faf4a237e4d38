import Docking.Proofs.Cycling
import Docking.Proofs.Page.Narration
import Mathlib.Data.List.Sort
import Mathlib.Data.String.Basic
/-!
# Activation histories reached by commands

`History.Reachable` holds of the histories that the history's operations reach from the empty
one, each with any arguments. Every reached history is `History.Kept`: no part has two entries,
and the minimized parts are listed in ascending key order, each once and each with an entry.

Main statements:
* `History.reached_history_reads_back`: saving a reached history and reading it back gives the
  same history. Reading activates the saved entries one by one; with no part twice each
  activation appends its entry, and the minimized parts come out in the same order.
* `History.recency_of_reachable`: the current part is the most recent part not minimized; the
  previous part is the most recent part not minimized in front of the most recent entry, so it
  differs from the current part exactly when that entry is not minimized.
-/

namespace Docking

namespace Keyed

/-- Inserting a key adds it and drops none. -/
theorem mem_insertKey {k x : String} {xs : List String} :
    x ∈ insertKey k xs ↔ x = k ∨ x ∈ xs := by
  induction xs with
  | nil => simp [insertKey]
  | cons j rest ih =>
    unfold insertKey
    split
    · simp
    · split
      · next hkj => subst hkj; simp
      · simp [ih, or_left_comm]

/-- Inserting a key keeps a key-ordered set strictly ascending. -/
theorem pairwise_insertKey (k : String) {xs : List String} (hs : xs.Pairwise (· < ·)) :
    (insertKey k xs).Pairwise (· < ·) := by
  induction xs with
  | nil => simp [insertKey]
  | cons j rest ih =>
    obtain ⟨hj, hrest⟩ := List.pairwise_cons.mp hs
    unfold insertKey
    split
    · next hkj =>
      refine List.pairwise_cons.mpr ⟨fun y hy => ?_, hs⟩
      rcases List.mem_cons.mp hy with rfl | hy
      · exact hkj
      · exact hkj.trans (hj y hy)
    · split
      · exact hs
      · next hkj hne =>
        have hjk : j < k := lt_of_le_of_ne (not_lt.mp hkj) (Ne.symm hne)
        refine List.pairwise_cons.mpr ⟨fun y hy => ?_, ih hrest⟩
        rcases mem_insertKey.mp hy with rfl | hy
        · exact hjk
        · exact hj y hy

theorem mem_foldl_insertKey {x : String} (ks : List String) (ms : List String) :
    x ∈ ks.foldl (fun ms k => insertKey k ms) ms ↔ x ∈ ms ∨ x ∈ ks := by
  induction ks generalizing ms with
  | nil => simp
  | cons k rest ih =>
    rw [List.foldl_cons, ih, mem_insertKey, List.mem_cons]
    tauto

theorem pairwise_foldl_insertKey (ks : List String) {ms : List String}
    (hs : ms.Pairwise (· < ·)) :
    (ks.foldl (fun ms k => insertKey k ms) ms).Pairwise (· < ·) := by
  induction ks generalizing ms with
  | nil => exact hs
  | cons k rest ih => exact ih (pairwise_insertKey k hs)

end Keyed

namespace History

@[simp] theorem minimized_recordActivated (h : History) (id : PartId) (k : PartKind) :
    (h.recordActivated id k).minimized = h.minimized := by
  unfold recordActivated
  split <;> rfl

@[simp] theorem minimized_recordOpened (h : History) (id : PartId) (k : PartKind) :
    (h.recordOpened id k).minimized = h.minimized := by
  unfold recordOpened
  split <;> rfl

theorem minimized_cycle (h : History) (forward : Bool) :
    (h.cycle forward).2.minimized = h.minimized := by
  have hc := cycle_rotates h forward
  split at hc
  · rw [hc]
  · exact hc.minimized

/-- The shape of every history that commands reach: no part has two entries, and the
minimized parts are listed in ascending key order, each once and each with an entry. -/
structure Kept (h : History) : Prop where
  nodup : h.parts.Nodup
  sorted : h.minimized.Pairwise (· < ·)
  within : ∀ x ∈ h.minimized, x ∈ h.parts

section Kept

variable {h : History}

theorem kept_empty : Kept {} := ⟨List.nodup_nil, List.Pairwise.nil, fun _ h => nomatch h⟩

theorem Kept.recordActivated (hk : Kept h) (id : PartId) (k : PartKind) :
    Kept (h.recordActivated id k) := by
  refine ⟨nodup_recordActivated hk.nodup id k, by simpa using hk.sorted, fun x hx => ?_⟩
  rw [minimized_recordActivated] at hx
  exact (mem_parts_recordActivated h id k x).mpr (.inl (hk.within x hx))

theorem Kept.recordOpened (hk : Kept h) (id : PartId) (k : PartKind) :
    Kept (h.recordOpened id k) := by
  refine ⟨nodup_recordOpened hk.nodup id k, by simpa using hk.sorted, fun x hx => ?_⟩
  rw [minimized_recordOpened] at hx
  exact (mem_parts_recordOpened h id k x).mpr (.inl (hk.within x hx))

theorem Kept.remove (hk : Kept h) (id : PartId) : Kept (h.remove id).2 := by
  refine ⟨by rw [parts_remove]; exact hk.nodup.erase id, hk.sorted.filter _, fun x hx => ?_⟩
  obtain ⟨hx, hne⟩ := List.mem_filter.mp hx
  rw [parts_remove]
  exact (List.mem_erase_of_ne (by simpa using hne)).mpr (hk.within x hx)

theorem Kept.setMinimized (hk : Kept h) (id : PartId) (b : Bool) :
    Kept (h.setMinimized id b) := by
  unfold History.setMinimized
  split
  · split
    · next hc =>
      refine ⟨hk.nodup, Keyed.pairwise_insertKey id hk.sorted, fun x hx => ?_⟩
      rcases Keyed.mem_insertKey.mp hx with rfl | hx
      · exact (contains_iff_mem_parts h x).mp hc
      · exact hk.within x hx
    · exact hk
  · exact ⟨hk.nodup, hk.sorted.filter _, fun x hx => hk.within x (List.mem_filter.mp hx).1⟩

theorem Kept.cycle (hk : Kept h) (forward : Bool) : Kept (h.cycle forward).2 := by
  have hp := parts_cycle_perm h forward
  refine ⟨hp.nodup_iff.mpr hk.nodup, by rw [minimized_cycle]; exact hk.sorted, fun x hx => ?_⟩
  rw [minimized_cycle] at hx
  exact hp.mem_iff.mpr (hk.within x hx)

theorem Kept.retain (hk : Kept h) (keep : PartId → Bool) : Kept (h.retain keep) := by
  refine ⟨by rw [parts_retain]; exact hk.nodup.filter _, hk.sorted.filter _, fun x hx => ?_⟩
  obtain ⟨hx, hkeep⟩ := List.mem_filter.mp hx
  rw [parts_retain]
  exact List.mem_filter.mpr ⟨hk.within x hx, hkeep⟩

/-- Marking a part minimized and then activating it: the part has an entry once the mark
counts. -/
theorem Kept.markActivated (hk : Kept h) (id : PartId) (k : PartKind) (mark : Prop)
    [Decidable mark] :
    Kept ((if mark then { h with minimized := Keyed.insertKey id h.minimized } else h)
      |>.recordActivated id k) := by
  split
  · have hn : ({ h with minimized := Keyed.insertKey id h.minimized } : History).parts.Nodup :=
      hk.nodup
    refine ⟨nodup_recordActivated hn id k, ?_, fun x hx => ?_⟩
    · rw [minimized_recordActivated]
      exact Keyed.pairwise_insertKey id hk.sorted
    · rw [minimized_recordActivated] at hx
      refine (mem_parts_recordActivated _ id k x).mpr ?_
      rcases Keyed.mem_insertKey.mp hx with rfl | hx
      · exact .inr rfl
      · exact .inl (hk.within x hx)
  · exact hk.recordActivated id k

/-- Reading an entry marks its part minimized, when the entry says so, and then activates
it, so the part has an entry by the time the mark counts. -/
theorem Kept.restoreEntry (hk : Kept h) {saved : Memento} {h' : History}
    (hr : restoreEntry h saved = .ok h') : Kept h' := by
  unfold History.restoreEntry at hr
  simp only [bind, Except.bind] at hr
  split at hr
  · cases hr
  split at hr
  · cases hr
  split at hr
  · cases hr
    exact hk.markActivated _ _ _
  · cases hr

theorem kept_restore {m : Memento} {h' : History} (hr : restore m = .ok h') : Kept h' :=
  foldlM_inv restoreEntry Kept (fun _ => True) (fun _ _ _ _ ha hx => ha.restoreEntry hx)
    (m.childrenOf "entry") {} h' (fun _ _ => trivial) kept_empty hr

end Kept

/-- The histories that the history's operations reach from the empty one, each operation with
any arguments; reading a saved history back, from any document, gives a fresh history. -/
inductive Reachable : History → Prop
  | empty : Reachable {}
  | recordActivated {h : History} (id : PartId) (k : PartKind) :
      Reachable h → Reachable (h.recordActivated id k)
  | recordOpened {h : History} (id : PartId) (k : PartKind) :
      Reachable h → Reachable (h.recordOpened id k)
  | remove {h : History} (id : PartId) : Reachable h → Reachable (h.remove id).2
  | setMinimized {h : History} (id : PartId) (b : Bool) :
      Reachable h → Reachable (h.setMinimized id b)
  | cycle {h : History} (forward : Bool) : Reachable h → Reachable (h.cycle forward).2
  | retain {h : History} (keep : PartId → Bool) : Reachable h → Reachable (h.retain keep)
  | restore {m : Memento} {h : History} : restore m = .ok h → Reachable h

/-- Every reached history has the reached shape: each operation keeps it, and a history read
back has it of its own. -/
theorem Reachable.kept {h : History} (hr : Reachable h) : Kept h := by
  induction hr with
  | empty => exact kept_empty
  | recordActivated id k _ ih => exact ih.recordActivated id k
  | recordOpened id k _ ih => exact ih.recordOpened id k
  | remove id _ ih => exact ih.remove id
  | setMinimized id b _ ih => exact ih.setMinimized id b
  | cycle forward _ ih => exact ih.cycle forward
  | retain keep _ ih => exact ih.retain keep
  | restore hm => exact kept_restore hm

/-! ### Reading a saved history back -/

/-- Activating a part without an entry appends it. -/
theorem recordActivated_of_not_mem {h : History} {id : PartId} (hid : id ∉ h.parts)
    (k : PartKind) : h.recordActivated id k = { h with entries := h.entries ++ [⟨id, k⟩] } := by
  have hlast : ¬((h.entries.getLast?.map (·.part)) == some id) = true := by
    cases hl : h.entries.getLast? with
    | none => simp
    | some e =>
      have he : e.part ∈ h.parts := List.mem_map_of_mem (List.mem_of_getLast? hl)
      simp only [Option.map_some, beq_iff_eq, Option.some.injEq]
      exact fun hid' => hid (hid' ▸ he)
  rw [recordActivated, if_neg hlast, List.eraseP_of_forall_not]
  intro e he hid'
  have hpart : e.part = id := by simpa using hid'
  exact hid (hpart ▸ (List.mem_map_of_mem he : e.part ∈ h.parts))

/-- The element `save` writes for an entry. -/
def savedEntry (h : History) (e : HistoryEntry) : Memento :=
  let saved := ((Memento.empty "entry").set "part" (.str e.part)).set "kind" (.str e.kind.name)
  if h.isMinimized e.part then saved.set "minimized" (.bool true) else saved

theorem save_eq_foldl (h : History) :
    h.save = h.entries.foldl (fun m e => m.push (h.savedEntry e)) (Memento.empty "history") :=
  rfl

theorem childrenOf_save (h : History) : h.save.childrenOf "entry" = h.entries.map h.savedEntry := by
  rw [save_eq_foldl, Memento.childrenOf, Memento.children_foldl_push, Memento.children_empty,
    List.nil_append, List.filter_eq_self]
  intro c hc
  obtain ⟨e, -, rfl⟩ := List.mem_map.mp hc
  unfold savedEntry
  split <;> rfl

section SavedEntry

variable (h : History) (e : HistoryEntry)

theorem get?_savedEntry_part : (h.savedEntry e).get? "part" = some (.str e.part) := by
  unfold savedEntry
  split
  · rw [Memento.get?_set_of_ne (by decide), Memento.get?_set_of_ne (by decide),
      Memento.get?_set_self]
  · rw [Memento.get?_set_of_ne (by decide), Memento.get?_set_self]

theorem get?_savedEntry_kind : (h.savedEntry e).get? "kind" = some (.str e.kind.name) := by
  unfold savedEntry
  split
  · rw [Memento.get?_set_of_ne (by decide), Memento.get?_set_self]
  · rw [Memento.get?_set_self]

theorem bool?_savedEntry_minimized :
    (h.savedEntry e).bool? "minimized" = if h.isMinimized e.part then some true else none := by
  unfold savedEntry
  split
  · simp [Memento.bool?]
  · simp only [Memento.bool?, Memento.get?_set_of_ne (show "minimized" ≠ "kind" by decide),
      Memento.get?_set_of_ne (show "minimized" ≠ "part" by decide), Memento.get?_empty]

theorem restoreEntry_savedEntry (g : History) :
    restoreEntry g (h.savedEntry e) =
      .ok ((if h.isMinimized e.part then { g with minimized := Keyed.insertKey e.part g.minimized }
        else g).recordActivated e.part e.kind) := by
  simp only [restoreEntry, Memento.requireStr, Memento.str?, get?_savedEntry_part,
    get?_savedEntry_kind, bool?_savedEntry_minimized]
  by_cases hm : h.isMinimized e.part <;> simp [hm, bind, Except.bind, pure, Except.pure]

/-- Reading saved entries whose parts are new appends them in order, and marks minimized the
parts that were. -/
theorem foldlM_restoreEntry (l : List HistoryEntry) (g : History)
    (hn : (g.parts ++ l.map (·.part)).Nodup) :
    (l.map h.savedEntry).foldlM restoreEntry g =
      .ok { entries := g.entries ++ l,
            minimized := ((l.filter (h.isMinimized ·.part)).map (·.part)).foldl
              (fun ms k => Keyed.insertKey k ms) g.minimized } := by
  induction l generalizing g with
  | nil =>
    rw [List.append_nil]
    rfl
  | cons e rest ih =>
    have hnew : e.part ∉ g.parts := fun hm => (List.nodup_append.mp hn).2.2 _ hm _
      List.mem_cons_self rfl
    -- reading the first entry appends it, whether or not it was marked
    have hstep : restoreEntry g (h.savedEntry e) =
        .ok { entries := g.entries ++ [e],
              minimized := if h.isMinimized e.part then Keyed.insertKey e.part g.minimized
                else g.minimized } := by
      rw [restoreEntry_savedEntry]
      split
      · have hnew' : e.part ∉ ({ g with minimized := Keyed.insertKey e.part g.minimized } :
            History).parts := hnew
        rw [recordActivated_of_not_mem hnew']
      · rw [recordActivated_of_not_mem hnew]
    rw [List.map_cons, List.foldlM_cons, hstep]
    refine (ih _ ?_).trans ?_
    · simpa [parts] using hn
    · by_cases hm : h.isMinimized e.part <;> simp [hm]

end SavedEntry

/-- Saving a history of the reached shape and reading it back gives the same history. -/
theorem restore_save {h : History} (hk : Kept h) : restore h.save = .ok h := by
  have hn : (({} : History).parts ++ h.entries.map (·.part)).Nodup := hk.nodup
  rw [restore, childrenOf_save, foldlM_restoreEntry h h.entries {} hn]
  congr 1
  -- the marks come back in key order, and exactly on the minimized parts
  have hsorted := Keyed.pairwise_foldl_insertKey
    ((h.entries.filter (h.isMinimized ·.part)).map (·.part)) (List.Pairwise.nil (R := (· < ·)))
  have hmem : ∀ x, x ∈ ((h.entries.filter (h.isMinimized ·.part)).map (·.part)).foldl
      (fun ms k => Keyed.insertKey k ms) [] ↔ x ∈ h.minimized := by
    intro x
    rw [Keyed.mem_foldl_insertKey]
    constructor
    · rintro (hx | hx)
      · cases hx
      · obtain ⟨e, he, rfl⟩ := List.mem_map.mp hx
        simpa [isMinimized] using (List.mem_filter.mp he).2
    · intro hx
      obtain ⟨e, he, rfl⟩ := List.mem_map.mp (hk.within x hx)
      have hm : h.isMinimized e.part = true := by simpa [isMinimized] using hx
      exact .inr (List.mem_map_of_mem (List.mem_filter.mpr ⟨he, hm⟩))
  cases h
  simp only [List.nil_append, mk.injEq, true_and]
  exact hsorted.eq_of_mem_iff hk.sorted hmem

/-- Every history that the history's operations reach reads back from its saved form as
itself. -/
theorem reached_history_reads_back {h : History} (hr : Reachable h) : restore h.save = .ok h :=
  restore_save hr.kept

/-- An editor and a minimized view read back as they were. -/
theorem reached_history_reads_back_minimized :
    let h := ((({} : History).recordActivated "e" .editor).recordActivated "v" .view).setMinimized
      "v" true
    Reachable h ∧ restore h.save = .ok h := by
  intro h
  have hr : Reachable h := .setMinimized _ _ (.recordActivated _ _ (.recordActivated _ _ .empty))
  exact ⟨hr, reached_history_reads_back hr⟩

/-! ### Recency queries -/

/-- `x` is the part of the most recent entry of `es` (listed from the least recent) that is
not minimized; none when every entry of `es` is minimized. -/
def LatestShown (h : History) (es : List HistoryEntry) : Option PartId → Prop
  | none => ∀ e ∈ es, h.isMinimized e.part = true
  | some x => ∃ pre e post, es = pre ++ e :: post ∧ e.part = x ∧ h.isMinimized x = false ∧
      ∀ e' ∈ post, h.isMinimized e'.part = true

theorem latestShown_find (h : History) (es : List HistoryEntry) :
    LatestShown h es ((es.reverse.find? fun e => !h.isMinimized e.part).map (·.part)) := by
  cases hf : es.reverse.find? fun e => !h.isMinimized e.part with
  | none =>
    intro e he
    simpa using List.find?_eq_none.mp hf e (List.mem_reverse.mpr he)
  | some e =>
    obtain ⟨he, post, pre, hes, hpost⟩ := List.find?_eq_some_iff_append.mp hf
    refine ⟨pre.reverse, e, post.reverse, ?_, rfl, by simpa using he, fun e' he' => ?_⟩
    · rw [← List.reverse_reverse es, hes]
      simp
    · simpa using hpost e' (List.mem_reverse.mp he')

theorem current_latestShown (h : History) : LatestShown h h.entries h.current := by
  simpa [current, scan] using latestShown_find h h.entries

theorem previous_latestShown (h : History) : LatestShown h h.entries.dropLast h.previous := by
  have := latestShown_find h h.entries.dropLast
  rwa [← List.tail_reverse, ← List.drop_one] at this

theorem current_eq_previous_of_last {h : History} {e : HistoryEntry}
    (he : h.entries.getLast? = some e) (hm : h.isMinimized e.part = true) :
    h.current = h.previous := by
  obtain ⟨xs, hxs⟩ := List.getLast?_eq_some_iff.mp he
  simp [current, previous, scan, hxs, hm]

theorem current_of_last {h : History} {e : HistoryEntry} (he : h.entries.getLast? = some e)
    (hm : h.isMinimized e.part = false) : h.current = some e.part := by
  obtain ⟨xs, hxs⟩ := List.getLast?_eq_some_iff.mp he
  simp [current, scan, hxs, hm]

theorem previous_ne_last {h : History} (hn : h.parts.Nodup) {e : HistoryEntry}
    (he : h.entries.getLast? = some e) {x : PartId} (hx : h.previous = some x) : x ≠ e.part := by
  rintro rfl
  have hdrop := mem_dropLast_of_previous hx
  obtain ⟨xs, hxs⟩ := List.getLast?_eq_some_iff.mp he
  rw [parts, hxs, List.map_append, List.map_singleton, List.dropLast_concat] at hdrop
  rw [parts, hxs, List.map_append] at hn
  exact (List.nodup_append.mp hn).2.2 _ hdrop _ (List.mem_singleton_self _) rfl

/-- Without a part twice, the previous part is the current one exactly when the most recent
entry is minimized. -/
theorem previous_eq_current_iff {h : History} (hn : h.parts.Nodup) {x : PartId}
    (hx : h.previous = some x) :
    h.current = some x ↔ ∃ e, h.entries.getLast? = some e ∧ h.isMinimized e.part = true := by
  obtain ⟨e, he⟩ : ∃ e, h.entries.getLast? = some e := by
    have hne : h.entries ≠ [] := by
      intro hnil
      have hdrop := mem_dropLast_of_previous hx
      simp [parts, hnil] at hdrop
    exact Option.isSome_iff_exists.mp (List.getLast?_isSome.mpr hne)
  constructor
  · intro hc
    refine ⟨e, he, ?_⟩
    cases hm : h.isMinimized e.part with
    | true => rfl
    | false =>
      rw [current_of_last he hm] at hc
      exact absurd (Option.some_inj.mp hc).symm (previous_ne_last hn he hx)
  · rintro ⟨e', he', hm⟩
    rw [current_eq_previous_of_last he' hm, hx]

/-- On every reached history the current part is the most recent part not minimized, and the
previous part the most recent part not minimized in front of the most recent entry; the two
differ exactly when that entry is not minimized. -/
theorem recency_of_reachable {h : History} (hr : Reachable h) :
    LatestShown h h.entries h.current ∧ LatestShown h h.entries.dropLast h.previous ∧
      ∀ x, h.previous = some x →
        (h.current = some x ↔ ∃ e, h.entries.getLast? = some e ∧ h.isMinimized e.part = true) :=
  ⟨current_latestShown h, previous_latestShown h,
    fun _ hx => previous_eq_current_iff hr.kept.nodup hx⟩

/-- Two parts activated one after the other: the current part is the later one, and the
previous part the earlier one. -/
theorem recency_of_reachable_pair :
    let h := (({} : History).recordActivated "a" .view).recordActivated "b" .view
    Reachable h ∧ (LatestShown h h.entries h.current ∧ LatestShown h h.entries.dropLast h.previous ∧
      ∀ x, h.previous = some x →
        (h.current = some x ↔ ∃ e, h.entries.getLast? = some e ∧ h.isMinimized e.part = true)) := by
  intro h
  have hr : Reachable h := .recordActivated _ _ (.recordActivated _ _ .empty)
  exact ⟨hr, recency_of_reachable hr⟩

/-- Minimizing the later of two activated parts: both queries then answer the earlier one. -/
theorem previous_repeats_current :
    let h := ((({} : History).recordActivated "a" .view).recordActivated "b" .view).setMinimized
      "b" true
    Reachable h ∧ h.current = some "a" ∧ h.previous = some "a" := by
  intro h
  exact ⟨.setMinimized _ _ (.recordActivated _ _ (.recordActivated _ _ .empty)), by decide, by decide⟩

end History

end Docking
