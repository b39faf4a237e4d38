import Docking.Activation.History
import Mathlib.Data.List.Rotate
/-!
# Cycling through the editors

`History.cycle` finds the index of the most (or least) recent editor in the whole recency
list, takes that entry out and puts it back at the other end. Seen through the editors alone
this turns them by one place, and the views it steps over keep their order.

Main statement (`History.cycling_rotates_editors`): with fewer than two editors cycling
answers nothing and changes nothing; otherwise the editors turn by one place, the views and
the minimized parts stay as they are, and it answers the editor that is most recent afterwards
(forward) or the one it moved (backward). A backward turn right after a forward one gives the
editors their order back. Each direction is first pinned down by where its search splits the
entries (`cycle_true_shape`, `cycle_false_shape`).
-/

namespace Docking

namespace History

/-- The editors' entries, from the least to the most recent. -/
def editors (h : History) : List HistoryEntry := h.entries.filter isEditor

/-- The views' entries, from the least to the most recent. -/
def views (h : History) : List HistoryEntry := h.entries.filter (!isEditor ·)

theorem eq_append_of_findIdx? {α : Type} {p : α → Bool} {l : List α} {i : Nat}
    (h : l.findIdx? p = some i) :
    ∃ pre e post, l = pre ++ e :: post ∧ pre.length = i ∧ p e = true ∧ pre.filter p = [] := by
  obtain ⟨hi, hp, hbefore⟩ := List.findIdx?_eq_some_iff_getElem.mp h
  refine ⟨l.take i, l[i], l.drop (i + 1), ?_, by simp; omega, hp, ?_⟩
  · rw [List.getElem_cons_drop, List.take_append_drop]
  · refine List.filter_eq_nil_iff.mpr fun x hx => ?_
    obtain ⟨j, hj, rfl⟩ := List.mem_take_iff_getElem.mp hx
    exact hbefore j (by omega)

theorem lastEditor_eq (l : List HistoryEntry) :
    lastEditor l = (l.filter isEditor).getLast? := by
  rw [lastEditor, ← List.head?_filter, List.filter_reverse, List.head?_reverse]

theorem exists_editor {h : History} (h2 : ¬h.editors.length < 2) :
    ∃ e ∈ h.entries, isEditor e := by
  have hpos : 0 < h.editors.length := by omega
  obtain ⟨e, he⟩ := List.exists_mem_of_length_pos hpos
  exact ⟨e, List.mem_of_mem_filter he, (List.mem_filter.mp he).2⟩

/-- Forward, the most recent editor leaves its place, with only views behind it, and goes to
the head. -/
theorem cycle_true_shape {h : History} (h2 : ¬h.editors.length < 2) :
    ∃ pre e post, h.entries = pre ++ e :: post ∧ isEditor e = true ∧ post.filter isEditor = [] ∧
      h.cycle true = ((lastEditor (e :: (pre ++ post))).map (·.part),
        { h with entries := e :: (pre ++ post) }) := by
  obtain ⟨k, hk⟩ : ∃ k, h.entries.reverse.findIdx? isEditor = some k := by
    refine Option.ne_none_iff_exists'.mp fun hn => ?_
    obtain ⟨e, hmem, he⟩ := exists_editor h2
    rw [List.findIdx?_eq_none_iff] at hn
    simp [hn e (List.mem_reverse.mpr hmem)] at he
  obtain ⟨rpost, e, rpre, hrev, hlen, he, hrpost⟩ := eq_append_of_findIdx? hk
  have hent : h.entries = rpre.reverse ++ e :: rpost.reverse := by
    rw [← List.reverse_reverse h.entries, hrev]
    simp
  have hi : h.entries.length - 1 - k = rpre.reverse.length := by
    rw [hent]
    simp
    omega
  refine ⟨rpre.reverse, e, rpost.reverse, hent, he, by rw [List.filter_reverse, hrpost]; rfl, ?_⟩
  rw [cycle, ← editors, if_neg h2, if_pos rfl, hk]
  dsimp only
  rw [hi]
  conv_lhs => rw [hent]
  simp [List.eraseIdx_append_of_length_le]

/-- Backward, the least recent editor leaves its place, with only views in front of it, and
goes to the tail. -/
theorem cycle_false_shape {h : History} (h2 : ¬h.editors.length < 2) :
    ∃ pre e post, h.entries = pre ++ e :: post ∧ isEditor e = true ∧ pre.filter isEditor = [] ∧
      h.cycle false = (some e.part, { h with entries := pre ++ post ++ [e] }) := by
  obtain ⟨i, hi⟩ : ∃ i, h.entries.findIdx? isEditor = some i := by
    refine Option.ne_none_iff_exists'.mp fun hn => ?_
    obtain ⟨e, hmem, he⟩ := exists_editor h2
    rw [List.findIdx?_eq_none_iff] at hn
    simp [hn e hmem] at he
  obtain ⟨pre, e, post, hent, hlen, he, hpre⟩ := eq_append_of_findIdx? hi
  refine ⟨pre, e, post, hent, he, hpre, ?_⟩
  rw [cycle, ← editors, if_neg h2, if_neg Bool.false_ne_true, hi]
  dsimp only
  rw [← hlen]
  conv_lhs => rw [hent]
  simp [List.eraseIdx_append_of_length_le]

/-- One turn of the editors. The entries are reordered, the views keep their order and the
minimized parts stay. Forward, the most recent editor becomes the least recent entry, so the
editors turn back by one place, and the answer is the editor most recent afterwards;
backward, the least recent editor becomes the most recent entry and is the answer. -/
structure RotatesEditors (forward : Bool) (h : History) (r : Option PartId × History) :
    Prop where
  perm : r.2.entries.Perm h.entries
  views : r.2.views = h.views
  minimized : r.2.minimized = h.minimized
  moved : if forward then r.2.entries.head? = h.editors.getLast?
    else r.2.entries.getLast? = h.editors.head?
  editors : if forward then r.2.editors.rotate 1 = h.editors else r.2.editors = h.editors.rotate 1
  answer : r.1 = if forward then r.2.editors.getLast?.map (·.part)
    else h.editors.head?.map (·.part)

theorem cycle_true_rotates {h : History} (h2 : ¬h.editors.length < 2) :
    RotatesEditors true h (h.cycle true) := by
  obtain ⟨pre, e, post, hent, he, hpost, hc⟩ := cycle_true_shape h2
  rw [hc]
  refine ⟨by rw [hent]; exact List.perm_middle.symm, ?_, rfl, ?_, ?_, ?_⟩
  · simp [views, hent, he]
  · simp [editors, hent, he, hpost]
  · simp [editors, hent, he, hpost, List.rotate_cons_succ]
  · simp [editors, lastEditor_eq]

theorem cycle_false_rotates {h : History} (h2 : ¬h.editors.length < 2) :
    RotatesEditors false h (h.cycle false) := by
  obtain ⟨pre, e, post, hent, he, hpre, hc⟩ := cycle_false_shape h2
  rw [hc]
  refine ⟨?_, ?_, rfl, ?_, ?_, ?_⟩
  · rw [hent, List.append_assoc]
    exact List.perm_append_left_iff pre |>.mpr (List.perm_append_singleton e post)
  · simp [views, hent, he]
  · simp [editors, hent, he, hpre]
  · simp [editors, hent, he, hpre, List.rotate_cons_succ]
  · simp [editors, hent, he, hpre]

theorem cycle_of_lt_two {h : History} (h2 : h.editors.length < 2) (forward : Bool) :
    h.cycle forward = (none, h) := by
  rw [cycle, ← editors, if_pos h2]

theorem cycle_rotates (h : History) (forward : Bool) :
    if h.editors.length < 2 then h.cycle forward = (none, h)
    else RotatesEditors forward h (h.cycle forward) := by
  split
  · next h2 => exact cycle_of_lt_two h2 forward
  · next h2 =>
    cases forward
    · exact cycle_false_rotates h2
    · exact cycle_true_rotates h2

theorem RotatesEditors.length_editors {forward : Bool} {h : History}
    {r : Option PartId × History} (hr : RotatesEditors forward h r) :
    r.2.editors.length = h.editors.length :=
  (hr.perm.filter isEditor).length_eq

theorem getLast?_rotate_one {α : Type} (l : List α) : (l.rotate 1).getLast? = l.head? := by
  cases l with
  | nil => rfl
  | cons a t => simp [List.rotate_cons_succ]

theorem getLast?_dropLast_rotate_one {α : Type} {l : List α} (hl : 2 ≤ l.length) :
    (l.rotate 1).dropLast.getLast? = l.getLast? := by
  match l, hl with
  | x :: y :: rest, _ =>
    rw [List.rotate_cons_succ, List.rotate_zero, List.dropLast_concat, List.getLast?_cons_cons]

theorem cycle_true_answer {h : History} (h2 : ¬h.editors.length < 2) :
    (h.cycle true).1 = h.editors.dropLast.getLast?.map (·.part) := by
  have hr := cycle_true_rotates h2
  have he : (h.cycle true).2.editors.rotate 1 = h.editors := by simpa using hr.editors
  have hl : 2 ≤ (h.cycle true).2.editors.length := by rw [hr.length_editors]; omega
  rw [← he, getLast?_dropLast_rotate_one hl]
  simpa using hr.answer

theorem cycle_false_answer {h : History} (h2 : ¬h.editors.length < 2) :
    (h.cycle false).1 = h.editors.head?.map (·.part) := by
  simpa using (cycle_false_rotates h2).answer

/-- A backward turn right after a forward one gives the editors their order back and answers
the editor that was most recent before both. -/
theorem cycle_false_cycle_true (h : History) :
    ((h.cycle true).2.cycle false).2.editors = h.editors ∧
      ((h.cycle true).2.cycle false).1 =
        if h.editors.length < 2 then none else h.editors.getLast?.map (·.part) := by
  by_cases h2 : h.editors.length < 2
  · simp [cycle_of_lt_two h2, h2]
  · have hf := cycle_true_rotates h2
    have h2' : ¬(h.cycle true).2.editors.length < 2 := by
      rw [hf.length_editors]
      exact h2
    have hb := cycle_false_rotates h2'
    have hfe : (h.cycle true).2.editors.rotate 1 = h.editors := by simpa using hf.editors
    refine ⟨by simpa [hfe] using hb.editors, ?_⟩
    rw [if_neg h2, cycle_false_answer h2', ← hfe, getLast?_rotate_one]

/-- Cycling the editors: with fewer than two editors it answers nothing and changes nothing;
otherwise it turns the editors by one place, keeps the views and the minimized parts, and
answers the editor most recent afterwards (forward) or the one it moved (backward). Turning
back right after turning forward restores the editors and answers the editor that was most
recent before both. -/
theorem cycling_rotates_editors (h : History) (forward : Bool) :
    (if h.editors.length < 2 then h.cycle forward = (none, h)
      else RotatesEditors forward h (h.cycle forward)) ∧
    ((h.cycle true).2.cycle false).2.editors = h.editors ∧
    ((h.cycle true).2.cycle false).1 =
      if h.editors.length < 2 then none else h.editors.getLast?.map (·.part) :=
  ⟨cycle_rotates h forward, cycle_false_cycle_true h⟩

example : ({ entries := [⟨"e1", .editor⟩, ⟨"v", .view⟩, ⟨"e2", .editor⟩, ⟨"e3", .editor⟩] } :
    History).cycle true =
      (some "e2",
        { entries := [⟨"e3", .editor⟩, ⟨"e1", .editor⟩, ⟨"v", .view⟩, ⟨"e2", .editor⟩] }) := by
  decide

end History

end Docking
