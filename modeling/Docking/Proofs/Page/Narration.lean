import Docking.Proofs.Page.Restore
import Docking.Proofs.Sound.Document
import Docking.Script.Page
import Mathlib.Data.Finset.Basic
/-!
# The events tell the owned parts and the active part

A subscriber that sees only a page's events can follow which parts the page owns and which one
is active: `opened` adds a part, `closed` removes it, `activated` makes a part active and
`deactivated` clears it. `Replay.step` reads one event and refuses one that contradicts what
is known. Main result (`PageSession.events_tell`): from what a page showed at any point of any
script (`Page.view`), the events of any further commands replay without a refusal to exactly
the page's owned parts and active part.

The page reports each change a few steps after making it. `PageM.Follows` carries this: the
events read to what the page shows, but for the parts `pend` registered and not yet reported;
it also keeps the history within the owned parts and the active part owned. `PageM.Closing` is
a page between forgetting a part and reporting it closed. Every page request keeps
`PageM.Narrated`, and a run of commands keeps it by induction (`Script.narrated_pageRun`).
-/

namespace Docking

/-- What a subscriber knows of a page from its events: the open parts and the active part. -/
structure Replay where
  owned : Finset PartId
  active : Option PartId
  deriving DecidableEq

namespace Replay

/-- Reads one event; none when it contradicts what is known: a deactivation of a part that is
not the active one, or an activation of a part that is not open. -/
def step (r : Replay) : PageEvent → Option Replay
  | .opened id => some { r with owned := insert id r.owned }
  | .closed id => some { r with owned := r.owned.erase id }
  | .activated id _ => if id ∈ r.owned then some { r with active := some id } else none
  | .deactivated id _ => if r.active = some id then some { r with active := none } else none
  | _ => some r

/-- Reads events in order; none when one of them is refused. -/
def run (r : Replay) (es : List PageEvent) : Option Replay := es.foldlM step r

theorem run_append (r : Replay) (es es' : List PageEvent) :
    r.run (es ++ es') = (r.run es).bind (·.run es') :=
  List.foldlM_append

end Replay

/-! ### The activation history, without a part twice -/

namespace History

theorem parts_eraseP (h : History) (id : PartId) :
    (h.entries.eraseP (·.part == id)).map (·.part) = h.parts.erase id := by
  rw [parts, List.erase_eq_eraseP, List.eraseP_map]
  congr 2
  funext e
  show (e.part == id) = (id == e.part)
  exact Bool.eq_iff_iff.mpr (by simp only [beq_iff_eq]; exact eq_comm)

/-- With no part twice, activating a part moves it to the tail. -/
theorem parts_recordActivated {h : History} (hn : h.parts.Nodup) (id : PartId) (k : PartKind) :
    (h.recordActivated id k).parts = h.parts.erase id ++ [id] := by
  unfold recordActivated
  split
  · next hlast =>
    -- the part is the tail already, and nowhere else
    obtain ⟨e, he, hid⟩ : ∃ e, h.entries.getLast? = some e ∧ e.part = id := by
      cases hl : h.entries.getLast? with
      | none => simp [hl] at hlast
      | some e => exact ⟨e, rfl, by simpa [hl] using hlast⟩
    obtain ⟨xs, hxs⟩ := List.getLast?_eq_some_iff.mp he
    have hparts : h.parts = xs.map (·.part) ++ [id] := by
      rw [parts, hxs, List.map_append, List.map_singleton, hid]
    have hnot : id ∉ xs.map (·.part) := by
      rw [hparts] at hn
      exact fun hm => (List.nodup_append.mp hn).2.2 _ hm _ (List.mem_singleton_self id) rfl
    rw [hparts, List.erase_append_right _ hnot]
    simp
  · simp [parts, parts_eraseP]

theorem nodup_recordActivated {h : History} (hn : h.parts.Nodup) (id : PartId) (k : PartKind) :
    (h.recordActivated id k).parts.Nodup := by
  rw [parts_recordActivated hn]
  refine List.nodup_append.mpr ⟨hn.erase id, List.nodup_singleton id, ?_⟩
  rintro a ha b hb rfl
  rw [List.mem_singleton.mp hb] at ha
  exact hn.not_mem_erase ha

theorem not_mem_dropLast_recordActivated {h : History} (hn : h.parts.Nodup) (id : PartId)
    (k : PartKind) : id ∉ (h.recordActivated id k).parts.dropLast := by
  rw [parts_recordActivated hn, List.dropLast_concat]
  exact hn.not_mem_erase

theorem recordActivated_within {h : History} (hn : h.parts.Nodup) {P : PartId → Prop}
    (hP : ∀ x ∈ h.parts, P x) {id : PartId} (hid : P id) (k : PartKind) :
    (∀ x ∈ (h.recordActivated id k).parts, P x) ∧ (h.recordActivated id k).parts.Nodup ∧
      id ∉ (h.recordActivated id k).parts.dropLast := by
  refine ⟨fun x hx => ?_, nodup_recordActivated hn id k,
    not_mem_dropLast_recordActivated hn id k⟩
  rcases (mem_parts_recordActivated h id k x).mp hx with hx | rfl
  · exact hP x hx
  · exact hid

theorem parts_recordOpened (h : History) (id : PartId) (k : PartKind) :
    (h.recordOpened id k).parts = if id ∈ h.parts then h.parts else id :: h.parts := by
  by_cases hid : id ∈ h.parts
  · simp [recordOpened, (contains_iff_mem_parts h id).mpr hid, hid]
  · have hc : h.contains id = false :=
      Bool.eq_false_iff.mpr fun hc => hid ((contains_iff_mem_parts h id).mp hc)
    rw [if_neg hid]
    simp only [recordOpened, hc, Bool.false_eq_true, if_false, parts, List.map_cons]

theorem nodup_recordOpened {h : History} (hn : h.parts.Nodup) (id : PartId) (k : PartKind) :
    (h.recordOpened id k).parts.Nodup := by
  rw [parts_recordOpened]
  split
  · exact hn
  · next hid => exact List.nodup_cons.mpr ⟨hid, hn⟩

/-- Opening a part puts it at the head: a part that was not in front of the tail is still not,
unless it is the part opened. -/
theorem not_mem_dropLast_recordOpened {h : History} {a : PartId} (ha : a ∉ h.parts.dropLast)
    (id : PartId) (k : PartKind) (hne : a ≠ id) : a ∉ (h.recordOpened id k).parts.dropLast := by
  rw [parts_recordOpened]
  split
  · exact ha
  · cases hp : h.parts with
    | nil => simp
    | cons x xs =>
      rw [List.dropLast_cons_of_ne_nil (List.cons_ne_nil x xs), ← hp, List.mem_cons]
      exact fun h' => h'.elim hne ha

@[simp] theorem parts_remove (h : History) (id : PartId) :
    (h.remove id).2.parts = h.parts.erase id :=
  parts_eraseP h id

/-- Erasing an element puts no new element in front of the last one. -/
theorem dropLast_erase_subset {α : Type} [DecidableEq α] (l : List α) (x : α) :
    (l.erase x).dropLast ⊆ l.dropLast := by
  induction l with
  | nil => simp
  | cons y ys ih =>
    rw [List.erase_cons]
    split
    · cases ys with
      | nil => simp
      | cons z zs =>
        rw [List.dropLast_cons_of_ne_nil (List.cons_ne_nil z zs)]
        exact List.subset_cons_of_subset _ (List.Subset.refl _)
    · cases he : ys.erase x with
      | nil => simp
      | cons z zs =>
        have hys : ys ≠ [] := by
          rintro rfl
          simp at he
        rw [List.dropLast_cons_of_ne_nil (List.cons_ne_nil z zs),
          List.dropLast_cons_of_ne_nil hys, ← he]
        exact List.cons_subset_cons _ ih

/-- Rotating the editors reorders the entries. -/
theorem cycle_perm (h : History) (forward : Bool) : (h.cycle forward).2.entries.Perm h.entries := by
  unfold cycle
  split
  · rfl
  split
  · split
    · rfl
    · dsimp only
      split
      · rfl
      · next e he =>
        obtain ⟨hi, rfl⟩ := List.getElem?_eq_some_iff.mp he
        exact List.getElem_cons_eraseIdx_perm hi
  · split
    · rfl
    · split
      · rfl
      · next e he =>
        obtain ⟨hi, rfl⟩ := List.getElem?_eq_some_iff.mp he
        exact (List.perm_append_singleton _ _).trans (List.getElem_cons_eraseIdx_perm hi)

theorem parts_cycle_perm (h : History) (forward : Bool) :
    (h.cycle forward).2.parts.Perm h.parts :=
  (h.cycle_perm forward).map _

/-- The editor a rotation answers has an entry. -/
theorem mem_parts_of_cycle {h : History} {forward : Bool} {x : PartId}
    (hx : (h.cycle forward).1 = some x) : x ∈ h.parts := by
  unfold cycle at hx
  split at hx
  · cases hx
  split at hx
  · split at hx
    · cases hx
    · dsimp only at hx
      split at hx
      · cases hx
      · next e he =>
        obtain ⟨hi, rfl⟩ := List.getElem?_eq_some_iff.mp he
        obtain ⟨f, hf, rfl⟩ := Option.map_eq_some_iff.mp hx
        have hmem := List.mem_reverse.mp (List.mem_of_find?_eq_some hf)
        exact List.mem_map_of_mem ((List.getElem_cons_eraseIdx_perm hi).mem_iff.mp hmem)
  · split at hx
    · cases hx
    · split at hx
      · cases hx
      · next e he =>
        cases hx
        exact List.mem_map_of_mem (List.mem_of_getElem? he)

/-- A rotation that answers no editor leaves the history as it is: rotating forward always
finds an editor once it found one to move. -/
theorem snd_cycle_of_fst_none {h : History} {forward : Bool} (hx : (h.cycle forward).1 = none) :
    (h.cycle forward).2 = h := by
  unfold cycle at hx ⊢
  split
  · rfl
  next hlt =>
  rw [if_neg hlt] at hx
  split
  · next hfw =>
    rw [if_pos hfw] at hx
    split
    · rfl
    next k hk =>
    simp only [hk] at hx
    dsimp only
    split
    · rfl
    next e he =>
    simp only [he] at hx
    -- the entry moved to the front is the editor the search found
    obtain ⟨hk', hed, -⟩ := List.findIdx?_eq_some_iff_getElem.mp hk
    obtain ⟨_, rfl⟩ := List.getElem?_eq_some_iff.mp he
    rw [List.getElem_reverse] at hed
    rw [Option.map_eq_none_iff, lastEditor, List.find?_eq_none] at hx
    exact absurd hed (hx _ (List.mem_reverse.mpr List.mem_cons_self))
  · next hfw =>
    rw [if_neg hfw] at hx
    split
    · rfl
    next i hi =>
    simp only [hi] at hx
    split
    · rfl
    next e he =>
    simp [he] at hx

theorem nodup_parts_foldl {add : History → PartId → History}
    (hadd : ∀ h id, h.parts.Nodup → (add h id).parts.Nodup) (ids : List PartId) {h : History}
    (hn : h.parts.Nodup) : (ids.foldl add h).parts.Nodup := by
  induction ids generalizing h with
  | nil => exact hn
  | cons id rest ih => exact ih (hadd h id hn)

theorem mem_parts_of_current {h : History} {x : PartId} (hx : h.current = some x) :
    x ∈ h.parts := by
  obtain ⟨e, he, rfl⟩ := Option.map_eq_some_iff.mp hx
  exact List.mem_map_of_mem (List.mem_reverse.mp (List.mem_of_mem_drop
    (List.mem_of_find?_eq_some he)))

theorem mem_dropLast_of_previous {h : History} {x : PartId} (hx : h.previous = some x) :
    x ∈ h.parts.dropLast := by
  obtain ⟨e, he, rfl⟩ := Option.map_eq_some_iff.mp hx
  have hmem := List.mem_of_find?_eq_some he
  rw [List.drop_one, List.tail_reverse, List.mem_reverse] at hmem
  rw [parts, ← List.map_dropLast]
  exact List.mem_map_of_mem hmem

/-- A history read back from a document has no part twice. -/
theorem nodup_of_restore {m : Memento} {h : History} (hr : History.restore m = .ok h) :
    h.parts.Nodup := by
  refine foldlM_inv restoreEntry (fun h : History => h.parts.Nodup) (fun _ => True)
    (fun a x a' _ ha hx => ?_) (m.childrenOf "entry") {} h (fun _ _ => trivial) List.nodup_nil hr
  -- an entry is read, marked minimized or not, then activated
  unfold restoreEntry at hx
  simp only [bind, Except.bind] at hx
  split at hx
  · cases hx
  split at hx
  · cases hx
  split at hx
  · cases hx
    exact nodup_recordActivated (by split <;> exact ha) _ _
  · cases hx

end History

/-! ### The owned parts -/

theorem Keyed.mem_keys_erase {α : Type} (k : String) (xs : List (String × α)) (x : String) :
    x ∈ (Keyed.erase k xs).map (·.1) ↔ x ∈ xs.map (·.1) ∧ x ≠ k := by
  simp only [Keyed.erase, List.mem_map, List.mem_filter, bne_iff_ne, ne_eq]
  constructor
  · rintro ⟨y, ⟨hy, hk⟩, rfl⟩
    exact ⟨⟨y, hy, rfl⟩, hk⟩
  · rintro ⟨⟨y, hy, rfl⟩, hk⟩
    exact ⟨y, ⟨hy, hk⟩, rfl⟩

namespace Controller

theorem mem_ownedIds_iff (c : Controller) (x : PartId) :
    x ∈ c.ownedIds ↔ c.isOwned x = true := by
  rw [isOwned, Keyed.isSome_find?_iff]
  rfl

theorem isOwned_register (c : Controller) (id : PartId) (k : PartKind) (x : PartId) :
    (c.register id k).isOwned x = true ↔ c.isOwned x = true ∨ x = id := by
  unfold register
  split
  · next h => exact (or_iff_left_of_imp fun hx => hx ▸ h).symm
  · by_cases hx : x = id
    · subst hx
      simp [isOwned]
    · simp [isOwned, Keyed.find?_insert_of_ne _ _ hx, hx]

theorem isOwned_forget (c : Controller) (id x : PartId) :
    (c.forget id).isOwned x = true ↔ c.isOwned x = true ∧ x ≠ id := by
  by_cases hx : x = id
  · subst hx
    simp [forget, isOwned]
  · simp [forget, isOwned, Keyed.find?_erase_of_ne _ hx, hx]

theorem isOwned_unregister (c : Controller) (id x : PartId) :
    (c.unregister id).isOwned x = true ↔ c.isOwned x = true ∧ x ≠ id :=
  c.isOwned_forget id x

theorem isOwned_of_kindOf? {c : Controller} {id : PartId} {k : PartKind}
    (h : c.kindOf? id = some k) : c.isOwned id = true := by
  rw [← mem_ownedIds_iff, ← isSome_kindOf?_iff, h]
  rfl

theorem fst_of_withKind {c : Controller} {id : PartId} {n : PartId × PartKind}
    (h : c.withKind id = some n) : n.1 = id := by
  obtain ⟨k, -, rfl⟩ := Option.map_eq_some_iff.mp h
  rfl

@[simp] theorem active_register (c : Controller) (id : PartId) (k : PartKind) :
    (c.register id k).active = c.active := by
  unfold register
  split <;> rfl

theorem mem_keys_register {ctl : Controller} {c : List (PartId × Owned)}
    (hc : ctl.parts = c) (id : PartId) (k : PartKind) (x : PartId) :
    x ∈ (ctl.register id k).parts.map (·.1) ↔ x ∈ c.map (·.1) ∨ x = id := by
  rw [← ownedIds, mem_ownedIds_iff, isOwned_register,
    ← mem_ownedIds_iff, ownedIds, hc]

theorem mem_keys_unregister {ctl : Controller} {c : List (PartId × Owned)}
    (hc : ctl.parts = c) (id x : PartId) :
    x ∈ (ctl.unregister id).parts.map (·.1) ↔ x ∈ c.map (·.1) ∧ x ≠ id := by
  rw [← ownedIds, mem_ownedIds_iff, isOwned_unregister,
    ← mem_ownedIds_iff, ownedIds, hc]

theorem activeWithKind_map {c : Controller} (h : ∀ a, c.active = some a → c.isOwned a = true) :
    c.activeWithKind.map (·.1) = c.active := by
  unfold activeWithKind
  cases ha : c.active with
  | none => rfl
  | some a =>
    obtain ⟨k, hk⟩ := Option.isSome_iff_exists.mp
      ((c.isSome_kindOf?_iff a).mpr ((c.mem_ownedIds_iff a).mpr (h a ha)))
    simp [hk]

end Controller

namespace Page

/-- The parts a page owns. -/
def owned (p : Page) : Finset PartId := p.controller.ownedIds.toFinset

/-- What a page shows of its parts: the parts it owns and its active part. -/
def view (p : Page) : Replay := ⟨p.owned, p.active⟩

end Page

namespace PageM

/-! ### Following the owned parts and the active part -/

theorem ends_emit {p : Page} (e : PageEvent) {Q : Unit → Page → Prop} :
    Ends (emit e) p Q ↔ Q () { p with events := p.events ++ [e] } := Iff.rfl

theorem ends_onController {p : Page} (f : Controller → Controller) {Q : Unit → Page → Prop} :
    Ends (onController f) p Q ↔ Q () { p with controller := f p.controller } := Iff.rfl

theorem ends_onHistory {p : Page} (f : History → History) {Q : Unit → Page → Prop} :
    Ends (onHistory f) p Q ↔ Q () { p with history := f p.history } := Iff.rfl

theorem ends_modify_eq {p : Page} (f : Page → Page) {Q : PUnit → Page → Prop} :
    Ends (modify f) p Q ↔ ∀ q, q = f p → Q () q :=
  ⟨fun h _ hq => hq ▸ h, fun h => h _ rfl⟩

theorem ends_set {p : Page} (q : Page) {Q : PUnit → Page → Prop} :
    Ends (set q : PageM PUnit) p Q ↔ Q () q := Iff.rfl

theorem Ends.of_run_eq {α : Type} {x : PageM α} {p q : Page} {a : α} {Q : α → Page → Prop}
    (h : Ends x p Q) (hrun : x.run p = (a, q)) : Q a q := by
  unfold Ends at h
  rw [hrun] at h
  exact h

theorem ends_owns {p : Page} (id : PartId) {Q : Bool → Page → Prop} :
    Ends (owns id) p Q ↔ Q (p.controller.isOwned id) p := Iff.rfl

theorem keeps_forM {P : Page → Prop} {γ : Type} (xs : List γ) {f : γ → PageM PUnit}
    (hf : ∀ x, Keeps P (f x)) : Keeps P (xs.forM f) := fun _ hp =>
  ends_forM xs f (fun _ => P) (fun x _ q hq => hf x q hq) hp

/-! ### Installing a layout -/

section LayoutOnly

/- Installing a layout changes the layout alone, so it keeps any property of pages that does
not read the layout. -/
variable {P : Page → Prop} (hP : ∀ q (l : Layout), P q → P { q with layout := l })
include hP

theorem keeps_onLayout_of {α : Type} (x : LayoutM α) : Keeps P (onLayout x) :=
  fun _ hq => ends_onLayout x fun _ => hP _ _ hq

theorem keeps_placeOwned_of (id : PartId) : Keeps P (placeOwned id) := by
  refine keeps_get_bind fun _ _ => ?_
  split
  · exact keeps_pure ()
  · split
    · exact keeps_pure ()
    · exact keeps_bind (keeps_onLayout_of hP _) fun _ => keeps_pure ()

theorem keeps_install_of (l : Layout) : Keeps P (install l) := by
  refine keeps_bind (fun q hq => hP q _ hq) fun _ => keeps_get_bind fun _ _ => ?_
  refine keeps_bind (keeps_onLayout_of hP _) fun _ => keeps_get_bind fun _ _ => ?_
  exact keeps_bind (keeps_forM _ fun _ => keeps_bind (keeps_onLayout_of hP _) fun _ =>
    keeps_pure _) fun _ => keeps_forM _ (keeps_placeOwned_of hP)

theorem keeps_loadLayout_of (saved : Except RestoreError Memento) : Keeps P (loadLayout saved) := by
  refine keeps_get_bind fun _ _ => ?_
  split
  · exact keeps_bind (keeps_install_of hP _) fun _ => keeps_pure _
  · exact keeps_bind (keeps_install_of hP _) fun _ => keeps_pure _

end LayoutOnly

section Follows

variable (r₀ : Replay) (e₀ : List PageEvent)

/-- Since it reported `e₀`, the page has reported events that read from `r₀` to `r`. -/
def Tells (p : Page) (r : Replay) : Prop := ∃ es, p.events = e₀ ++ es ∧ r₀.run es = some r

/-- The page's events follow its owned parts `c` and its active part: they read to what the
page shows, but for the parts `pend` that are registered and not reported yet; those have no
entry in the history and are not active. The history lists owned parts, none twice, and the
active part is owned. Where `S` holds, the active part is the most recent entry of the
history. -/
structure Follows (pend : Finset PartId) (S : Prop) (c : List (PartId × Owned)) (p : Page) :
    Prop where
  parts : p.controller.parts = c
  tells : Tells r₀ e₀ p ⟨(c.map (·.1)).toFinset \ pend, p.active⟩
  history_owned : ∀ x ∈ p.history.parts, x ∈ c.map (·.1) ∧ x ∉ pend
  nodup : p.history.parts.Nodup
  active_owned : ∀ a, p.active = some a → a ∈ c.map (·.1) ∧ a ∉ pend
  settled : S → ∀ a, p.active = some a → a ∉ p.history.parts.dropLast

variable {r₀ e₀} {pend : Finset PartId} {S : Prop} {c : List (PartId × Owned)} {p : Page}

theorem Tells.emit {r r' : Replay} (ht : Tells r₀ e₀ p r) {e : PageEvent}
    (he : r.step e = some r') : Tells r₀ e₀ { p with events := p.events ++ [e] } r' := by
  obtain ⟨es, hp, hr⟩ := ht
  refine ⟨es ++ [e], by rw [hp, List.append_assoc], ?_⟩
  rw [Replay.run_append, hr]
  simp [Replay.run, he]

theorem Follows.frame (hp : Follows r₀ e₀ pend S c p) {q : Page}
    (hc : q.controller = p.controller) (hh : q.history = p.history) (he : q.events = p.events) :
    Follows r₀ e₀ pend S c q := by
  obtain ⟨hparts, ⟨es, hev, hr⟩, hhist, hnodup, hact, hset⟩ := hp
  have hqa : q.active = p.active := by rw [Page.active, hc]; rfl
  refine ⟨by rw [hc, hparts], ⟨es, by rw [he, hev], by rw [hqa]; exact hr⟩, ?_, ?_, ?_, ?_⟩
  · rw [hh]
    exact hhist
  · rw [hh]
    exact hnodup
  · rw [hqa]
    exact hact
  · rw [hqa, hh]
    exact hset

theorem Follows.weaken {S' : Prop} (hp : Follows r₀ e₀ pend S c p) (hS : S' → S) :
    Follows r₀ e₀ pend S' c p :=
  ⟨hp.parts, hp.tells, hp.history_owned, hp.nodup, hp.active_owned, fun h => hp.settled (hS h)⟩

theorem Follows.isOwned_iff (hp : Follows r₀ e₀ pend S c p) (x : PartId) :
    p.controller.isOwned x = true ↔ x ∈ c.map (·.1) := by
  rw [← Controller.mem_ownedIds_iff, Controller.ownedIds, hp.parts]

theorem Follows.activeWithKind (hp : Follows r₀ e₀ pend S c p) :
    p.controller.activeWithKind.map (·.1) = p.active :=
  Controller.activeWithKind_map fun a ha => (hp.isOwned_iff a).mpr (hp.active_owned a ha).1

theorem Follows.keeps_onLayout {α : Type} (x : LayoutM α) :
    Keeps (Follows r₀ e₀ pend S c) (onLayout x) :=
  fun _ hp => ends_onLayout x fun _ => hp.frame rfl rfl rfl

theorem Follows.keeps_emit_quiet {e : PageEvent} (he : ∀ r : Replay, r.step e = some r) :
    Keeps (Follows r₀ e₀ pend S c) (emit e) := fun _ hp =>
  ⟨hp.parts, hp.tells.emit (he _), hp.history_owned, hp.nodup, hp.active_owned, hp.settled⟩

/-! ### Moving activation -/

/-- Handing activation to `id`: the part that was active is reported deactivated, then `id`
activated, and `id` moves to the tail of the history. -/
theorem ends_switch_some {r : Replay} (ht : Tells r₀ e₀ p r)
    {prev : Option (PartId × PartKind)}
    (hprev : prev.map (·.1) = r.active) {id : PartId} (kind : PartKind) (hid : id ∈ r.owned) :
    Ends (switch prev (some (id, kind))) p fun _ p' =>
      Tells r₀ e₀ p' { r with active := some id } ∧
        p'.controller = { p.controller with active := some id } ∧
        p'.history = p.history.recordActivated id kind := by
  rw [switch, ends_bind, ends_get]
  dsimp only
  rcases prev with _ | ⟨a, ka⟩
  · refine ⟨ht.emit ?_, rfl, rfl⟩
    simp [Replay.step, hid]
  · have hd : ∀ f, r.step (.deactivated a f) = some { r with active := none } := fun f => by
      simp [Replay.step, ← hprev]
    rw [ends_bind, ends_emit]
    refine ⟨(ht.emit (hd _)).emit ?_, rfl, rfl⟩
    simp [Replay.step, hid]

/-- Clearing activation: the active part is reported deactivated. -/
theorem ends_switch_none {r : Replay} (ht : Tells r₀ e₀ p r) {a : PartId} (ka : PartKind)
    (ha : r.active = some a) :
    Ends (switch (some (a, ka)) none) p fun _ p' =>
      Tells r₀ e₀ p' { r with active := none } ∧
        p'.controller = { p.controller with active := none } ∧ p'.history = p.history := by
  rw [switch, ends_bind, ends_get]
  dsimp only
  rw [ends_bind, ends_emit]
  refine ⟨ht.emit ?_, rfl, rfl⟩
  simp [Replay.step, ha]

theorem Follows.switch_some (hp : Follows r₀ e₀ pend S c p) {prev : Option (PartId × PartKind)}
    (hprev : prev.map (·.1) = p.active) {id : PartId} (kind : PartKind)
    (hid : id ∈ c.map (·.1)) (hnp : id ∉ pend) :
    Ends (switch prev (some (id, kind))) p fun _ p' =>
      Follows r₀ e₀ pend True c p' ∧ p'.active = some id := by
  have hown : id ∈ (c.map (·.1)).toFinset \ pend :=
    Finset.mem_sdiff.mpr ⟨List.mem_toFinset.mpr hid, hnp⟩
  refine (ends_switch_some hp.tells hprev kind hown).mono fun _ q ⟨ht, hc, hh⟩ => ?_
  have hqa : q.active = some id := by rw [Page.active, hc]
  obtain ⟨hin, hnodup, hlast⟩ :=
    History.recordActivated_within hp.nodup hp.history_owned ⟨hid, hnp⟩ kind
  refine ⟨⟨by rw [hc]; exact hp.parts, by rw [hqa]; exact ht, hh ▸ hin, hh ▸ hnodup,
    fun a ha => ?_, fun _ a ha => ?_⟩, hqa⟩
  · obtain rfl := Option.some_inj.mp (hqa.symm.trans ha)
    exact ⟨hid, hnp⟩
  · obtain rfl := Option.some_inj.mp (hqa.symm.trans ha)
    exact hh ▸ hlast

theorem Follows.switch_none (hp : Follows r₀ e₀ pend S c p) {a : PartId} (ka : PartKind)
    (ha : p.active = some a) :
    Ends (switch (some (a, ka)) none) p fun _ p' =>
      Follows r₀ e₀ pend True c p' ∧ p'.active = none := by
  refine (ends_switch_none hp.tells ka ha).mono fun _ q ⟨ht, hc, hh⟩ => ?_
  have hqa : q.active = none := by rw [Page.active, hc]
  refine ⟨⟨by rw [hc]; exact hp.parts, by rw [hqa]; exact ht, ?_, ?_, ?_, ?_⟩, hqa⟩
  · rw [hh]
    exact hp.history_owned
  · rw [hh]
    exact hp.nodup
  · intro a ha
    rw [hqa] at ha
    cases ha
  · intro _ a ha
    rw [hqa] at ha
    cases ha

/-- Granting activation to a part: an owned part ends active and the most recent entry of the
history; any other request changes nothing. -/
theorem Follows.ends_grant (hp : Follows r₀ e₀ ∅ S c p) (id : PartId) :
    Ends (grant id) p fun _ p' => Follows r₀ e₀ ∅ (S ∨ id ∈ c.map (·.1)) c p' := by
  rw [grant, ends_bind, ends_get]
  dsimp only
  split
  · next hk =>
    have hid : id ∉ c.map (·.1) := fun h => by
      have := (p.controller.isSome_kindOf?_iff id).mpr
        ((Controller.mem_ownedIds_iff _ _).mpr ((hp.isOwned_iff id).mpr h))
      rw [hk] at this
      cases this
    exact hp.weaken fun h => h.resolve_right hid
  · next kind hk =>
    have hid : id ∈ c.map (·.1) := (hp.isOwned_iff id).mp (Controller.isOwned_of_kindOf? hk)
    split
    · -- already active: it moves to the tail of the history
      next hact =>
      have ha : p.active = some id := by simpa [Controller.isActive, Page.active] using hact
      rw [ends_bind, ends_onHistory, ends_pure]
      obtain ⟨hin, hnodup, hlast⟩ := History.recordActivated_within hp.nodup hp.history_owned
        ⟨hid, Finset.notMem_empty id⟩ kind
      refine ⟨hp.parts, hp.tells, hin, hnodup, hp.active_owned, fun _ a ha' => ?_⟩
      obtain rfl := Option.some_inj.mp (ha.symm.trans ha')
      exact hlast
    · rw [ends_bind]
      exact (hp.switch_some hp.activeWithKind kind hid (Finset.notMem_empty _)).mono
        fun _ q h => h.1.weaken fun _ => trivial

/-- Once the active part is minimized, activation moves to the most recent part that is not,
which is owned and not pending. -/
theorem Follows.keeps_activateNext :
    Keeps (Follows r₀ e₀ pend S c) activateNext := fun p hp => by
  rw [activateNext, ends_bind, ends_get]
  split
  · exact hp
  · next prev hprev =>
    have ha : p.active = some prev.1 := by rw [← hp.activeWithKind, hprev]; rfl
    split
    · exact hp
    · rw [ends_bind]
      cases hn : p.history.current.bind p.controller.withKind with
      | none =>
        exact (hp.switch_none prev.2 ha).mono fun _ q h => h.1.weaken fun _ => trivial
      | some n =>
        obtain ⟨x, hx, hw⟩ := Option.bind_eq_some_iff.mp hn
        have hmem := hp.history_owned x (History.mem_parts_of_current hx)
        rw [← Controller.fst_of_withKind hw] at hmem
        obtain ⟨id, kind⟩ := n
        exact (hp.switch_some (by rw [ha]; rfl) kind hmem.1 hmem.2).mono fun _ q h =>
          h.1.weaken fun _ => trivial

/-! ### Catching up with the layout, and activating -/

theorem Follows.withHistory (hp : Follows r₀ e₀ pend S c p) {h : History}
    (hh : h.parts = p.history.parts) : Follows r₀ e₀ pend S c { p with history := h } :=
  ⟨hp.parts, hp.tells, fun x hx => hp.history_owned x (hh ▸ hx), hh ▸ hp.nodup,
    hp.active_owned, fun hS a ha => hh ▸ hp.settled hS a ha⟩

theorem Follows.reorder (hp : Follows r₀ e₀ pend S c p) {h : History}
    (hh : h.parts.Perm p.history.parts) : Follows r₀ e₀ pend False c { p with history := h } :=
  ⟨hp.parts, hp.tells, fun x hx => hp.history_owned x (hh.mem_iff.mp hx),
    hh.nodup_iff.mpr hp.nodup, hp.active_owned, False.elim⟩

theorem Follows.settle (hp : Follows r₀ e₀ pend S c p) (ha : p.active = none) :
    Follows r₀ e₀ pend True c p :=
  ⟨hp.parts, hp.tells, hp.history_owned, hp.nodup, hp.active_owned, fun _ a h => by
    rw [ha] at h
    cases h⟩

theorem Follows.keeps_changed (wasZoomed : Bool) :
    Keeps (Follows r₀ e₀ pend S c) (changed wasZoomed) := fun p hp => by
  rw [changed, ends_bind, ends_get]
  dsimp only
  rw [ends_bind, ends_set]
  -- marking the fast views minimized leaves the history's entries as they are
  refine keeps_bind Follows.keeps_activateNext (fun _ => keeps_zoomed_bind fun now => ?_) _
    (hp.withHistory (History.parts_foldl_setMinimized _ _ _))
  split
  · exact keeps_bind (Follows.keeps_emit_quiet fun _ => rfl) fun _ =>
      Follows.keeps_emit_quiet fun _ => rfl
  · exact Follows.keeps_emit_quiet fun _ => rfl

theorem Follows.keeps_mutate {α : Type} (x : LayoutM α) :
    Keeps (Follows r₀ e₀ pend S c) (mutate x) := by
  refine keeps_zoomed_bind fun _ => keeps_bind (Follows.keeps_onLayout x) fun _ => ?_
  split
  · exact keeps_bind (Follows.keeps_changed _) fun _ => keeps_pure _
  · exact keeps_pure _

/-- Activating a part: an owned part ends active and the most recent entry of the history,
and the layout requests on the way report nothing of the owned parts. -/
theorem Follows.ends_activate (hp : Follows r₀ e₀ ∅ S c p) (id : PartId) :
    Ends (activate id) p fun _ p' => Follows r₀ e₀ ∅ (S ∨ id ∈ c.map (·.1)) c p' := by
  rw [activate, ends_bind, ends_owns]
  split
  · next hno =>
    refine hp.weaken fun h => h.resolve_right fun hid => ?_
    rw [(hp.isOwned_iff id).mpr hid] at hno
    cases hno
  rw [ends_bind, ends_zoomed, ends_bind, ends_get]
  -- the continuations of the `do` block, from the last one back
  extract_lets finish afterRestore
  have hfinish : ∀ u q, Follows r₀ e₀ ∅ S c q → Ends (finish u) q fun _ q' =>
      Follows r₀ e₀ ∅ (S ∨ id ∈ c.map (·.1)) c q' := fun _ q hq => by
    rw [ends_bind]
    exact (Follows.keeps_onLayout _ q hq).mono fun _ q' hq' => hq'.ends_grant id
  have hafter : ∀ restored q, Follows r₀ e₀ ∅ S c q →
      Ends (afterRestore restored) q fun _ q' =>
        Follows r₀ e₀ ∅ (S ∨ id ∈ c.map (·.1)) c q' := by
    intro restored q hq
    rw [ends_bind, ends_get]
    extract_lets l afterZoom
    have hz : ∀ unzoomed q', Follows r₀ e₀ ∅ S c q' →
        Ends (afterZoom unzoomed) q' fun _ q'' =>
          Follows r₀ e₀ ∅ (S ∨ id ∈ c.map (·.1)) c q'' := by
      intro unzoomed q' hq'
      simp only [afterZoom]
      split
      · rw [ends_bind]
        exact (Follows.keeps_changed _ q' hq').mono fun _ q'' h => hfinish () q'' h
      · exact hfinish () q' hq'
    split
    · split
      · exact hz _ q hq
      · rw [ends_bind]
        exact (Follows.keeps_onLayout _ q hq).mono fun _ q' h => hz _ q' h
    · exact hz _ q hq
  split
  · rw [ends_bind]
    exact (Follows.keeps_onLayout _ p hp).mono fun _ q h => hafter _ q h
  · exact hafter _ p hp

theorem Follows.keeps_activate (id : PartId) : Keeps (Follows r₀ e₀ ∅ S c) (activate id) :=
  fun _ hp => (hp.ends_activate id).mono fun _ _ h => h.weaken .inl

/-! ### Retiring a part -/

/-- A page that has dropped the part `id` from its controller and its history, and has not
reported it closed yet: its events still count `id` among the owned parts `c`. -/
structure Closing (r₀ : Replay) (e₀ : List PageEvent) (id : PartId) (c : List (PartId × Owned))
    (q : Page) : Prop where
  parts : q.controller.parts = Keyed.erase id c
  tells : Tells r₀ e₀ q ⟨(c.map (·.1)).toFinset, q.active⟩
  history_owned : ∀ x ∈ q.history.parts, x ∈ c.map (·.1) ∧ x ≠ id
  nodup : q.history.parts.Nodup

/-- The silent first steps of retiring a part: the history and the controller drop it. -/
theorem Follows.forget (hp : Follows r₀ e₀ ∅ S c p) (id : PartId) :
    Closing r₀ e₀ id c
      { p with history := (p.history.remove id).2, controller := p.controller.forget id } := by
  have hrest : (p.history.remove id).2.parts = p.history.parts.erase id :=
    History.parts_remove _ _
  refine ⟨by rw [Controller.forget, hp.parts], ?_, fun x hx => ?_, hrest ▸ hp.nodup.erase id⟩
  · have ht := hp.tells
    rw [Finset.sdiff_empty] at ht
    exact ht
  · have hx' : x ∈ p.history.parts.erase id := hrest ▸ hx
    exact ⟨(hp.history_owned x (List.mem_of_mem_erase hx')).1,
      fun h => hp.nodup.not_mem_erase (h ▸ hx')⟩

/-- The last step of retiring a part: once activation is off it, reporting it closed makes the
events follow the parts that remain. -/
theorem Closing.close {q : Page} {id : PartId} (hq : Closing r₀ e₀ id c q)
    (hact : ∀ a, q.active = some a → a ∈ c.map (·.1) ∧ a ≠ id)
    (hset : ∀ a, q.active = some a → a ∉ q.history.parts.dropLast) :
    Follows r₀ e₀ ∅ True (Keyed.erase id c)
      { q with events := q.events ++ [.closed id] } := by
  have hkeys : ((Keyed.erase id c).map (·.1)).toFinset \ ∅ =
      (c.map (·.1)).toFinset.erase id := by
    ext x
    simp [Keyed.mem_keys_erase, and_comm]
  refine ⟨hq.parts, ?_, fun x hx => ?_, hq.nodup, fun a ha => ?_, fun _ => hset⟩
  · rw [hkeys]
    exact hq.tells.emit rfl
  · exact ⟨(Keyed.mem_keys_erase _ _ _).mpr (hq.history_owned x hx), Finset.notMem_empty _⟩
  · exact ⟨(Keyed.mem_keys_erase _ _ _).mpr (hact a ha), Finset.notMem_empty _⟩

/-- Taking activation off a retired part: the deactivation is reported and no part is active. -/
theorem Closing.switch_none {q : Page} {id : PartId} (hq : Closing r₀ e₀ id c q)
    (kind : PartKind) (ha : q.active = some id) :
    Ends (do switch (some (id, kind)) none; emit (.closed id)) q fun _ p' =>
      Follows r₀ e₀ ∅ True (Keyed.erase id c) p' := by
  rw [ends_bind]
  refine (ends_switch_none hq.tells kind ha).mono fun _ q' ⟨ht, hc, hh⟩ => ?_
  have hqa : q'.active = none := by rw [Page.active, hc]
  have hq' : Closing r₀ e₀ id c q' :=
    ⟨by rw [hc]; exact hq.parts, by rw [hqa]; exact ht, hh ▸ hq.history_owned,
      hh ▸ hq.nodup⟩
  refine hq'.close (fun a ha => ?_) fun a ha => ?_ <;> simp [hqa] at ha

/-- Handing activation from a retired part to another owned part `n`, which then is the most
recent entry of the history. -/
theorem Closing.switch_some {q : Page} {id n : PartId} (hq : Closing r₀ e₀ id c q)
    (kind kn : PartKind) (ha : q.active = some id) (hnc : n ∈ c.map (·.1)) (hnid : n ≠ id) :
    Ends (do switch (some (id, kind)) (some (n, kn)); emit (.closed id)) q fun _ p' =>
      Follows r₀ e₀ ∅ True (Keyed.erase id c) p' := by
  have hprev : (some (id, kind)).map (·.1) = q.active := by rw [ha]; rfl
  rw [ends_bind]
  refine (ends_switch_some hq.tells hprev kn (List.mem_toFinset.mpr hnc)).mono
    fun _ q' ⟨ht, hc, hh⟩ => ?_
  have hqa : q'.active = some n := by rw [Page.active, hc]
  obtain ⟨hin, hnodup, hlast⟩ :=
    History.recordActivated_within hq.nodup hq.history_owned ⟨hnc, hnid⟩ kn
  have hq' : Closing r₀ e₀ id c q' :=
    ⟨by rw [hc]; exact hq.parts, by rw [hqa]; exact ht, hh ▸ hin, hh ▸ hnodup⟩
  refine hq'.close (fun a ha => ?_) fun a ha => ?_
  · obtain rfl := Option.some_inj.mp (hqa.symm.trans ha)
    exact ⟨hnc, hnid⟩
  · obtain rfl := Option.some_inj.mp (hqa.symm.trans ha)
    exact hh ▸ hlast

/-- Retiring a part: when it was active, the part before it in the history takes over, and that
is another part because the active part is the most recent entry. -/
theorem Follows.ends_retire (hp : Follows r₀ e₀ ∅ True c p) (id : PartId) :
    Ends (retire id) p fun _ p' => ∃ c', Follows r₀ e₀ ∅ True c' p' := by
  rw [retire, ends_bind, ends_get]
  dsimp only
  split
  · exact ⟨c, hp⟩
  next kind hk =>
  rw [ends_bind, ends_onHistory, ends_bind, ends_onController]
  have hq := hp.forget id
  split
  · next hact =>
    have ha : p.active = some id := by simpa [Controller.isActive, Page.active] using hact
    cases hn : p.history.previous.bind p.controller.withKind with
    | none => exact ⟨_, hq.switch_none kind ha⟩
    | some n =>
      -- the part taking over is owned, and it is not `id`, which is the tail of the history
      obtain ⟨x, hx, hw⟩ := Option.bind_eq_some_iff.mp hn
      have hprev := History.mem_dropLast_of_previous hx
      obtain ⟨n, kn⟩ := n
      obtain rfl : n = x := Controller.fst_of_withKind hw
      have hnid : n ≠ id := fun h => hp.settled trivial id ha (h ▸ hprev)
      have hnc := (hp.history_owned n (List.dropLast_subset _ hprev)).1
      exact ⟨_, hq.switch_some kind kn ha hnc hnid⟩
  · -- another part is active, and stays so
    next hact =>
    have hne : ∀ a, p.active = some a → a ≠ id := fun a ha h => by
      subst h
      simp [Controller.isActive, Page.active] at hact ha
      exact hact ha
    rw [ends_bind, ends_emit, ends_pure]
    refine ⟨_, hq.close (fun a ha => ⟨(hp.active_owned a ha).1, hne a ha⟩)
      fun a ha hmem => ?_⟩
    rw [History.parts_remove] at hmem
    exact hp.settled trivial a ha (History.dropLast_erase_subset _ _ hmem)

/-! ### Opening a part -/

/-- Registering a part the page does not own: the part is pending, not reported yet. -/
theorem Follows.register (hp : Follows r₀ e₀ ∅ S c p) {id : PartId}
    (hno : id ∉ c.map (·.1)) (k : PartKind) :
    Follows r₀ e₀ {id} S (p.controller.register id k).parts
      { p with controller := p.controller.register id k } := by
  have hkeys := Controller.mem_keys_register hp.parts id k
  have hsame : ((p.controller.register id k).parts.map (·.1)).toFinset \ {id} =
      (c.map (·.1)).toFinset \ ∅ := by
    ext x
    simp only [Finset.mem_sdiff, List.mem_toFinset, hkeys, Finset.mem_singleton,
      Finset.notMem_empty, not_false_eq_true, and_true]
    constructor
    · rintro ⟨hx | hx, hne⟩
      · exact hx
      · exact absurd hx hne
    · intro hx
      exact ⟨.inl hx, fun h => hno (h ▸ hx)⟩
  -- the active part and the history's parts are owned already, so none of them is `id`
  have hfresh : ∀ x, x ∈ c.map (·.1) →
      x ∈ (p.controller.register id k).parts.map (·.1) ∧ x ∉ ({id} : Finset PartId) :=
    fun x hx =>
    ⟨(hkeys x).mpr (.inl hx), fun h => hno (Finset.mem_singleton.mp h ▸ hx)⟩
  have hqa : ({ p with controller := p.controller.register id k } : Page).active = p.active :=
    Controller.active_register _ _ _
  refine ⟨rfl, ?_, fun x hx => hfresh x (hp.history_owned x hx).1, hp.nodup,
    fun a ha => hfresh a (hp.active_owned a (hqa ▸ ha)).1,
    fun hS a ha => hp.settled hS a (hqa ▸ ha)⟩
  rw [hsame, hqa]
  exact hp.tells

/-- A pending part the layout refused is dropped again, silently. -/
theorem Follows.unregister {id : PartId} (hp : Follows r₀ e₀ {id} S c p) :
    Follows r₀ e₀ ∅ S (p.controller.unregister id).parts
      { p with controller := p.controller.unregister id } := by
  have hkeys := Controller.mem_keys_unregister hp.parts id
  have hna : p.controller.isActive id = false := by
    cases ha : p.controller.active with
    | none => simp [Controller.isActive, ha]
    | some a =>
      have := (hp.active_owned a ha).2
      simp only [Finset.mem_singleton] at this
      simp [Controller.isActive, ha, this]
  have hqa : ({ p with controller := p.controller.unregister id } : Page).active = p.active := by
    simp [Page.active, Controller.unregister, hna]
  have hsame : ((p.controller.unregister id).parts.map (·.1)).toFinset \ ∅ =
      (c.map (·.1)).toFinset \ {id} := by
    ext x
    simp [hkeys]
  -- what was owned and not pending stays owned, and nothing is pending any more
  have hkept : ∀ x, x ∈ c.map (·.1) ∧ x ∉ ({id} : Finset PartId) →
      x ∈ (p.controller.unregister id).parts.map (·.1) ∧ x ∉ (∅ : Finset PartId) :=
    fun x hx => ⟨(hkeys x).mpr ⟨hx.1, fun h => hx.2 (Finset.mem_singleton.mpr h)⟩,
      Finset.notMem_empty x⟩
  refine ⟨rfl, ?_, fun x hx => hkept x (hp.history_owned x hx), hp.nodup,
    fun a ha => hkept a (hp.active_owned a (hqa ▸ ha)),
    fun hS a ha => hp.settled hS a (hqa ▸ ha)⟩
  rw [hsame, hqa]
  exact hp.tells

/-- A pending part the layout accepted enters the history as its least recent entry and is
reported opened. -/
theorem Follows.opened {id : PartId} (hp : Follows r₀ e₀ {id} S c p) (hid : id ∈ c.map (·.1))
    (k : PartKind) :
    Follows r₀ e₀ ∅ S c
      { p with history := p.history.recordOpened id k, events := p.events ++ [.opened id] } := by
  have hsame : insert id ((c.map (·.1)).toFinset \ {id}) = (c.map (·.1)).toFinset \ ∅ := by
    rw [Finset.sdiff_singleton_eq_erase, Finset.insert_erase (List.mem_toFinset.mpr hid),
      Finset.sdiff_empty]
  refine ⟨hp.parts, ?_, fun x hx => ?_, History.nodup_recordOpened hp.nodup _ _,
    fun a ha => ⟨(hp.active_owned a ha).1, Finset.notMem_empty _⟩, fun hS a ha => ?_⟩
  · rw [← hsame]
    exact hp.tells.emit rfl
  · rcases (History.mem_parts_recordOpened _ _ _ x).mp hx with hx | rfl
    · exact ⟨(hp.history_owned x hx).1, Finset.notMem_empty _⟩
    · exact ⟨hid, Finset.notMem_empty _⟩
  · have hne : a ≠ id := fun h => (hp.active_owned a ha).2 (Finset.mem_singleton.mpr h)
    exact History.not_mem_dropLast_recordOpened (hp.settled hS a ha) id k hne

/-- Opening an editor: a new editor is registered, placed, reported opened and activated; an
editor that is open already is only activated. -/
theorem Follows.ends_openEditor (hp : Follows r₀ e₀ ∅ True c p) (id : PartId)
    (kind : PartKind) :
    Ends (openEditor id kind) p fun _ p' => ∃ c', Follows r₀ e₀ ∅ True c' p' := by
  rw [openEditor]
  split
  · exact ⟨c, hp⟩
  rw [ends_bind, ends_owns]
  split
  · rw [ends_bind]
    exact (hp.ends_activate id).mono fun _ _ h => ⟨c, h.weaken .inl⟩
  next hown =>
  have hno : id ∉ c.map (·.1) := fun h => hown ((hp.isOwned_iff id).mpr h)
  rw [ends_bind, ends_onController, ends_bind]
  refine (Follows.keeps_mutate _ _ (hp.register hno kind)).mono fun r q hq => ?_
  have hid : id ∈ (p.controller.register id kind).parts.map (·.1) :=
    (Controller.mem_keys_register hp.parts id kind id).mpr (.inr rfl)
  split
  · rw [ends_bind, ends_onController, ends_pure]
    exact ⟨_, hq.unregister⟩
  · rw [ends_bind, ends_onHistory, ends_bind, ends_emit, ends_bind]
    exact ((hq.opened hid .editor).ends_activate id).mono fun _ _ h => ⟨_, h.weaken .inl⟩

/-- Showing a view: a view the page did not own is registered, placed, reported opened and
activated; when the layout refuses it, it is unregistered again and nothing is reported. -/
theorem Follows.ends_showView (hp : Follows r₀ e₀ ∅ True c p) (id : PartId) :
    Ends (showView id) p fun _ p' => ∃ c', Follows r₀ e₀ ∅ True c' p' := by
  rw [showView, ends_bind, ends_get]
  dsimp only
  rw [ends_bind, ends_modify_eq]
  intro q hq
  have hq' : Follows r₀ e₀ ∅ True c q := hp.frame (by rw [hq]) (by rw [hq]) (by rw [hq])
  split
  · exact ⟨c, hq'⟩
  next _ inst _ =>
  rw [ends_bind, ends_owns]
  split
  · next hnew =>
    have hno : id ∉ c.map (·.1) := fun h => by
      simp [(hq'.isOwned_iff id).mpr h] at hnew
    have hid := (Controller.mem_keys_register hq'.parts id inst.kind id).mpr (.inr rfl)
    rw [ends_bind, ends_onController, ends_bind, ends_zoomed, ends_bind]
    refine (Follows.keeps_onLayout _ _ (hq'.register hno inst.kind)).mono fun _ q₂ h₂ => ?_
    split
    · rw [ends_bind, ends_modify, ends_bind, ends_onController, ends_pure]
      -- giving the instance back touches the factory alone
      have h₃ :
          Follows r₀ e₀ {id} True _ { q₂ with factory := (q₂.factory.release id).2 } :=
        h₂.frame rfl rfl rfl
      exact ⟨_, h₃.unregister⟩
    · rw [ends_bind, ends_onHistory, ends_bind, ends_emit, ends_bind]
      refine (Follows.keeps_changed _ _ (h₂.opened hid .view)).mono fun _ q₃ h₃ => ?_
      rw [ends_bind]
      exact (h₃.ends_activate id).mono fun _ _ h => ⟨_, h.weaken .inl⟩
  · next hown =>
    rw [ends_bind, ends_zoomed, ends_bind]
    refine (Follows.keeps_onLayout _ _ hq').mono fun _ q₂ h₂ => ?_
    split
    · rw [ends_bind, ends_modify, ends_pure]
      exact ⟨c, h₂.frame rfl rfl rfl⟩
    · rw [ends_bind]
      refine (Follows.keeps_changed _ _ h₂).mono fun _ q₃ h₃ => ?_
      rw [ends_bind]
      exact (h₃.ends_activate id).mono fun _ _ h => ⟨_, h.weaken .inl⟩

theorem Follows.ends_retire_changed (hp : Follows r₀ e₀ ∅ True c p) (id : PartId)
    (wasZoomed : Bool) {β : Type} (b : β) :
    Ends (do let _ ← retire id; changed wasZoomed; pure b) p fun _ p' =>
      ∃ c', Follows r₀ e₀ ∅ True c' p' := by
  rw [ends_bind]
  refine (hp.ends_retire id).mono fun _ q ⟨c', hq⟩ => ?_
  rw [ends_bind]
  exact (Follows.keeps_changed wasZoomed q hq).mono fun _ _ h => ⟨c', h⟩

/-- Hiding a view: its pane leaves the layout and the part is retired. -/
theorem Follows.ends_hideView (hp : Follows r₀ e₀ ∅ True c p) (id : PartId) :
    Ends (hideView id) p fun _ p' => ∃ c', Follows r₀ e₀ ∅ True c' p' := by
  rw [hideView, ends_bind, ends_get]
  split
  · exact ⟨c, hp⟩
  rw [ends_bind, ends_modify, ends_bind, ends_zoomed, ends_bind]
  have hq : Follows r₀ e₀ ∅ True c { p with factory := (p.factory.release id).2 } :=
    hp.frame rfl rfl rfl
  refine (Follows.keeps_onLayout _ _ hq).mono fun r q₂ h₂ => ?_
  extract_lets retireChanged
  have hrc : ∀ q, Follows r₀ e₀ ∅ True c q → Ends (retireChanged ()) q fun _ p' =>
      ∃ c', Follows r₀ e₀ ∅ True c' p' := fun q hq => hq.ends_retire_changed id _ true
  split
  · exact hrc q₂ h₂
  · rw [ends_bind]
    exact (Follows.keeps_onLayout _ q₂ h₂).mono fun _ q₃ h₃ => hrc q₃ h₃

theorem Follows.ends_closeEditor (hp : Follows r₀ e₀ ∅ True c p) (id : PartId) :
    Ends (closeEditor id) p fun _ p' => ∃ c', Follows r₀ e₀ ∅ True c' p' := by
  rw [closeEditor, ends_bind, ends_get]
  split
  · exact ⟨c, hp⟩
  rw [ends_bind, ends_zoomed, ends_bind]
  exact (Follows.keeps_onLayout _ p hp).mono fun _ q h => h.ends_retire_changed id _ true

/-! ### Rearranging -/

theorem Follows.keeps_bringToTop (id : PartId) :
    Keeps (Follows r₀ e₀ pend S c) (bringToTop id) := by
  refine keeps_get_bind fun _ _ => ?_
  split
  · exact keeps_pure _
  split
  · exact keeps_pure _
  split
  · exact keeps_pure _
  refine keeps_bind (Follows.keeps_onLayout _) fun _ => ?_
  split
  · exact keeps_pure _
  · exact keeps_bind (Follows.keeps_emit_quiet fun _ => rfl) fun _ => keeps_pure _

theorem Follows.keeps_zoomIn (id : PartId) : Keeps (Follows r₀ e₀ pend S c) (zoomIn id) := by
  refine keeps_owns_bind id fun _ => ?_
  split
  · exact keeps_pure _
  refine keeps_bind (Follows.keeps_onLayout _) fun _ => ?_
  split
  · split
    · exact keeps_bind (Follows.keeps_emit_quiet fun _ => rfl) fun _ => keeps_pure _
    · exact keeps_pure _
  · exact keeps_pure _

theorem Follows.keeps_zoomOut : Keeps (Follows r₀ e₀ pend S c) zoomOut := by
  refine keeps_bind (Follows.keeps_onLayout _) fun _ => ?_
  split
  · split
    · exact keeps_bind (Follows.keeps_emit_quiet fun _ => rfl) fun _ => keeps_pure _
    · exact keeps_pure _
  · exact keeps_pure _

theorem Follows.keeps_toggleFastView (id : PartId) :
    Keeps (Follows r₀ e₀ pend S c) (toggleFastView id) := by
  refine keeps_owns_bind id fun _ => ?_
  split
  · exact keeps_pure _
  refine keeps_get_bind fun _ _ => ?_
  split
  · exact keeps_bind (Follows.keeps_mutate _) fun _ => keeps_pure _
  · exact keeps_bind (Follows.keeps_mutate _) fun _ => keeps_pure _

theorem Follows.keeps_ownedMutate {α β : Type} (id : PartId) (x : LayoutM α)
    (f : Option α → β) (b : β) :
    Keeps (Follows r₀ e₀ pend S c) (do
      if !(← owns id) then return b
      return f (← mutate x)) := by
  refine keeps_owns_bind id fun _ => ?_
  split
  · exact keeps_pure _
  · exact keeps_bind (Follows.keeps_mutate _) fun _ => keeps_pure _

theorem Follows.keeps_resizeSash (split : NodeId) (index : Nat) (delta : Int) :
    Keeps (Follows r₀ e₀ pend S c) (resizeSash split index delta) := by
  refine keeps_zoomed_bind fun _ => keeps_bind (Follows.keeps_onLayout _) fun _ => ?_
  split
  · exact keeps_bind (Follows.keeps_changed _) fun _ => keeps_pure _
  · exact keeps_pure _
  · exact keeps_pure _

theorem Follows.keeps_applyDrop (d : DropDecision) :
    Keeps (Follows r₀ e₀ pend S c) (applyDrop d) := by
  unfold applyDrop
  split
  · exact keeps_pure _
  · exact keeps_bind (Follows.keeps_mutate _) fun _ => keeps_pure _

/-- Rotating the editors reorders the history; the answered editor is then activated, and
then it is the most recent entry again. -/
theorem Follows.keeps_cycleEditors (forward : Bool) :
    Keeps (Follows r₀ e₀ ∅ True c) (cycleEditors forward) := fun p hp => by
  rw [cycleEditors, ends_bind, ends_get]
  dsimp only
  rw [ends_bind, ends_onHistory]
  split
  · next hnone =>
    exact hp.frame rfl (History.snd_cycle_of_fst_none hnone) rfl
  · next id hid =>
    have hr : Follows r₀ e₀ ∅ False c { p with history := (p.history.cycle forward).2 } :=
      hp.reorder (History.parts_cycle_perm _ _)
    have hidc : id ∈ c.map (·.1) := (hp.history_owned id (History.mem_parts_of_cycle hid)).1
    rw [ends_bind]
    exact (hr.ends_activate id).mono fun _ _ h => h.weaken fun _ => .inr hidc

/-! ### Restoring -/

/-- Merging a history whose parts are distinct: the merged history lists owned parts, none
twice, but its most recent entry need not be the active part. -/
theorem Follows.ends_mergeHistory (hp : Follows r₀ e₀ ∅ S c p) {h : History}
    (hh : h.parts.Nodup) : Ends (mergeHistory h) p fun _ q => Follows r₀ e₀ ∅ False c q := by
  have hm := (mergeHistory_ends h p).2.2
  rw [mergeHistory, ends_bind, ends_get, onHistory, ends_modify]
  refine ⟨hp.parts, hp.tells, fun x hx => ⟨?_, Finset.notMem_empty _⟩, ?_, hp.active_owned,
    False.elim⟩
  · have hx' := (hm x).mp hx
    rwa [Controller.ownedIds, hp.parts] at hx'
  · -- an owned part the history lacks is added at its head
    refine History.nodup_parts_foldl (fun h' id hn => ?_) _ ?_
    · split
      · exact hn
      · split
        · exact History.nodup_recordOpened hn _ _
        · exact hn
    · rw [History.parts_retain]
      exact hh.filter _

theorem Follows.ends_restore (hp : Follows r₀ e₀ ∅ True c p) (m : Memento) :
    Ends (restore m) p fun _ p' => Follows r₀ e₀ ∅ True c p' := by
  rw [restore, ends_bind, ends_zoomed, ends_bind]
  refine (keeps_loadLayout_of (fun q _ hq => hq.frame rfl rfl rfl) _ p hp).mono fun _ q hq => ?_
  rw [ends_bind, ends_get]
  dsimp only
  -- the saved history when it reads back, else the page's own: either lists no part twice
  rw [ends_bind]
  refine (hq.ends_mergeHistory ?_).mono fun _ q₁ h₁ => ?_
  · split
    · next h hr => exact History.nodup_of_restore (Option.map_eq_some_iff.mp hr).choose_spec.2
    · exact hq.nodup
    · exact hq.nodup
  rw [ends_bind]
  refine (Follows.keeps_changed _ q₁ h₁).mono fun _ q₂ h₂ => ?_
  rw [ends_bind, ends_get]
  split
  · next t ht =>
    -- the target is the saved active part when the page owns it, else the active part
    have htc : t ∈ c.map (·.1) := by
      split at ht
      · split at ht
        · next hown => exact (h₂.isOwned_iff t).mp (Option.some_inj.mp ht ▸ hown)
        · exact (h₂.active_owned t ht).1
      · exact (h₂.active_owned t ht).1
    rw [ends_bind]
    exact (h₂.ends_activate t).mono fun _ _ h => h.weaken fun _ => .inr htc
  · next ht =>
    have hna : q₂.active = none := by
      split at ht
      · split at ht
        · cases ht
        · exact ht
      · exact ht
    exact h₂.settle hna

theorem Follows.keeps_resetLayout (template : Memento) :
    Keeps (Follows r₀ e₀ pend S c) (resetLayout template) :=
  keeps_zoomed_bind fun _ =>
    keeps_bind (keeps_loadLayout_of (fun _ _ hq => hq.frame rfl rfl rfl) _) fun _ =>
      keeps_bind (Follows.keeps_changed _) fun _ => keeps_pure _

/-! ### Deferred work -/

theorem Follows.ends_completeOperation (hp : Follows r₀ e₀ ∅ True c p) (t : Token)
    (action : DeferredAction) :
    Ends (completeOperation t action) p fun _ p' => ∃ c', Follows r₀ e₀ ∅ True c' p' := by
  unfold completeOperation
  split
  · exact ⟨c, hp⟩
  rw [ends_bind, ends_get]
  split
  · exact ⟨c, hp⟩
  split
  · exact (hp.ends_activate _).mono fun _ _ h => ⟨c, h.weaken .inl⟩
  · exact (Follows.keeps_bringToTop _ p hp).mono fun _ _ h => ⟨c, h⟩
  · exact hp.ends_closeEditor _
  · exact hp.ends_hideView _

end Follows

/-! ### Every page request -/

/-- The page's events, since it reported `e₀`, read from `r₀` to what it shows. -/
def Narrated (r₀ : Replay) (e₀ : List PageEvent) (p : Page) : Prop :=
  ∃ c, Follows r₀ e₀ ∅ True c p

section Narrated

variable {r₀ : Replay} {e₀ : List PageEvent} {p : Page}

theorem Follows.view_eq {pend : Finset PartId} {S : Prop} {c : List (PartId × Owned)}
    (hp : Follows r₀ e₀ pend S c p) :
    p.view = ⟨(c.map (·.1)).toFinset \ ∅, p.active⟩ := by
  rw [Finset.sdiff_empty, Page.view, Page.owned, Controller.ownedIds, hp.parts]

theorem Narrated.tells (h : Narrated r₀ e₀ p) : Tells r₀ e₀ p p.view := by
  obtain ⟨c, hp⟩ := h
  rw [hp.view_eq]
  exact hp.tells

theorem Narrated.resubscribe (h : Narrated r₀ e₀ p) : Narrated p.view p.events p := by
  obtain ⟨c, hp⟩ := h
  refine ⟨c, ⟨hp.parts, ⟨[], (List.append_nil _).symm, ?_⟩, hp.history_owned, hp.nodup,
    hp.active_owned, hp.settled⟩⟩
  rw [← hp.view_eq]
  rfl

/-- A fresh page owns nothing and has reported nothing. -/
theorem Narrated.fresh (policy : ActivationPolicy) (editorArea : Bool) (host : Host)
    (registry : Registry) :
    Narrated ⟨∅, none⟩ [] (Page.fresh policy editorArea host registry) :=
 by
  refine ⟨[], rfl, ⟨[], rfl, ?_⟩, fun _ h => ?_, List.nodup_nil, fun _ h => ?_,
    fun _ _ h => ?_⟩
  · rfl
  · cases h
  · cases h
  · cases h

end Narrated

end PageM

namespace Script

open PageM

variable {r₀ : Replay} {e₀ : List PageEvent}

theorem narrated_pageCommand {s : PageSession} (h : Narrated r₀ e₀ s.page) (cmd : PageCommand) :
    Narrated r₀ e₀ (pageCommand s cmd).2.page := by
  obtain ⟨c, hp⟩ := h
  -- the requests that keep the owned parts as they are
  have hk : ∀ {α : Type} (x : PageM α), Keeps (Follows r₀ e₀ ∅ True c) x →
      Narrated r₀ e₀ (x.run s.page).2 := fun x hx => ⟨c, hx _ hp⟩
  cases cmd with
  | openEditor part kind => exact hp.ends_openEditor part kind
  | showView part =>
    simp only [pageCommand]
    split
    next r q hrun =>
    split <;> exact (hp.ends_showView part).of_run_eq hrun
  | hideView part => exact hp.ends_hideView part
  | closeEditor part => exact hp.ends_closeEditor part
  | activate part => exact hk (activate part) (Follows.keeps_activate part)
  | bringToTop part => exact hk (bringToTop part) (Follows.keeps_bringToTop part)
  | toggleFastView part => exact hk (toggleFastView part) (Follows.keeps_toggleFastView part)
  | zoomIn part => exact hk (zoomIn part) (Follows.keeps_zoomIn part)
  | isOwned part => exact ⟨c, hp⟩
  | zoomOut => exact hk zoomOut Follows.keeps_zoomOut
  | cycleEditors forward => exact hk (cycleEditors forward) (Follows.keeps_cycleEditors forward)
  | movePart part side reference =>
    exact hk (movePart part side reference) (Follows.keeps_ownedMutate part _ _ false)
  | stack part reference =>
    exact hk (PageM.stack part reference) (Follows.keeps_ownedMutate part _ _ false)
  | detach part bounds =>
    exact hk (PageM.detach part bounds) (Follows.keeps_ownedMutate part _ Option.join none)
  | resizeSash split index delta =>
    simp only [pageCommand]
    split
    next r q hrun =>
    split <;> exact ⟨c, (Follows.keeps_resizeSash split index delta _ hp).of_run_eq hrun⟩
  | drop source target pointer =>
    simp only [pageCommand]
    split
    · exact ⟨c, hp⟩
    · exact hk (applyDrop _) (Follows.keeps_applyDrop _)
  | applyDrop d => exact hk (applyDrop d) (Follows.keeps_applyDrop d)
  | setDirty part dirty => exact ⟨c, hp⟩
  | beginOperation part keepAs =>
    simp only [pageCommand]
    split <;> exact ⟨c, hp⟩
  | cancel token => exact ⟨c, hp⟩
  | completeOperation t action => exact hp.ends_completeOperation t action
  | saveState name => exact ⟨c, hp⟩
  | restoreState m => exact ⟨c, hp.ends_restore m⟩
  | resetLayout m => exact hk (resetLayout m) (Follows.keeps_resetLayout m)
  | onLayout cmd =>
    simp only [pageCommand]
    exact ⟨c, hp.frame rfl rfl rfl⟩

theorem narrated_pageStep {s : PageSession} (h : Narrated r₀ e₀ s.page) (cmd : PageCommand) :
    Narrated r₀ e₀ (pageStep s cmd).2.page :=
  narrated_pageCommand h cmd

/-- The session after page commands run one after another; the page's events pile up. -/
def pageRun (s : PageSession) (cs : List PageCommand) : PageSession :=
  cs.foldl (fun s c => (pageStep s c).2) s

theorem narrated_pageRun {s : PageSession} (h : Narrated r₀ e₀ s.page) (cs : List PageCommand) :
    Narrated r₀ e₀ (pageRun s cs).page := by
  induction cs generalizing s with
  | nil => exact h
  | cons cmd rest ih => exact ih (narrated_pageStep h cmd)

end Script

open PageM in
/-- A subscriber can follow the owned parts and the active part from the page's events alone:
from what a page shows when it starts listening, after any commands, the events the page
reports from then on, replayed in order, read to exactly what the page shows after any further
commands. The replay is defined, so every deactivation names the active part and no part is
activated before it is reported opened. -/
theorem PageSession.events_tell (policy : ActivationPolicy) (editorArea floating : Bool)
    (registry : Registry) (before after : List PageCommand) :
    let s := Script.pageRun (PageSession.start policy editorArea floating registry) before
    let t := Script.pageRun s after
    s.page.view.run (t.page.events.drop s.page.events.length) = some t.page.view := by
  intro s t
  have hs : Narrated ⟨∅, none⟩ [] s.page :=
    Script.narrated_pageRun (Narrated.fresh _ _ _ _) before
  obtain ⟨es, hev, hrun⟩ := (Script.narrated_pageRun hs.resubscribe after).tells
  rw [hev, List.drop_left]
  exact hrun

end Docking
