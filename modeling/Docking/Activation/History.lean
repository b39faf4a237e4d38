import Docking.Part
import Docking.Keyed
import Docking.Memento.Basic
/-!
# Activation history

A page remembers the order in which its parts were last activated: `History.entries` runs
from the least to the most recently activated part, each with its kind. Parts shown as fast
views are marked minimized, and recency queries pass over them: `current` is the most recent
part not minimized, `previous` the next one before it.

A part activated again moves to the tail; a part opened but not yet activated goes to the
head, so that opening does not take activation away. Editors can be cycled: forward moves the
most recent editor to the head and answers the editor that is now most recent, backward moves
the least recent editor to the tail and answers it.

The history is saved as a `history` element with one `entry` child per entry, and read back
by activating the saved entries in order.
-/

namespace Docking

/-- A part in the activation history. -/
structure HistoryEntry where
  part : PartId
  kind : PartKind
  deriving DecidableEq, Repr, Inhabited

/-- The recency order of a page's parts, with the set of minimized parts in key order. -/
structure History where
  entries : List HistoryEntry := []
  minimized : List PartId := []
  deriving DecidableEq, Repr, Inhabited

namespace History

/-- Whether a part has an entry. -/
def contains (h : History) (id : PartId) : Bool := h.entries.any (·.part == id)

/-- Whether a part is marked minimized. -/
def isMinimized (h : History) (id : PartId) : Bool := h.minimized.contains id

/-- Moves a part to the tail, adding it when absent. A part already at the tail stays as it
is, kind included. -/
def recordActivated (h : History) (id : PartId) (kind : PartKind) : History :=
  if (h.entries.getLast?.map (·.part)) == some id then h
  else { h with entries := h.entries.eraseP (·.part == id) ++ [⟨id, kind⟩] }

/-- Adds a part at the head, as the least recent one, unless it has an entry. -/
def recordOpened (h : History) (id : PartId) (kind : PartKind) : History :=
  if h.contains id then h else { h with entries := ⟨id, kind⟩ :: h.entries }

/-- Forgets a part; answers whether it had an entry. -/
def remove (h : History) (id : PartId) : Bool × History :=
  (h.contains id, { entries := h.entries.eraseP (·.part == id),
                    minimized := h.minimized.filter (· != id) })

/-- Marks a part minimized (only a part with an entry) or clears the mark. -/
def setMinimized (h : History) (id : PartId) (minimized : Bool) : History :=
  if minimized then
    if h.contains id then { h with minimized := Keyed.insertKey id h.minimized } else h
  else { h with minimized := h.minimized.filter (· != id) }

/-- The most recent part not minimized after passing over the `skip` most recent entries. -/
def scan (h : History) (skip : Nat) : Option PartId :=
  ((h.entries.reverse.drop skip).find? (fun e => !h.isMinimized e.part)).map (·.part)

/-- The most recent part that is not minimized. -/
def current (h : History) : Option PartId := h.scan 0

/-- The most recent part not minimized, passing over the most recent entry. -/
def previous (h : History) : Option PartId := h.scan 1

/-- Whether an entry is an editor's. -/
def isEditor (e : HistoryEntry) : Bool := e.kind == .editor

/-- The most recent editor. -/
def lastEditor (entries : List HistoryEntry) : Option HistoryEntry :=
  entries.reverse.find? isEditor

/-- Rotates the editors; none with fewer than two editors, and then nothing changes. -/
def cycle (h : History) (forward : Bool) : Option PartId × History :=
  if (h.entries.filter isEditor).length < 2 then (none, h)
  else if forward then
    match h.entries.reverse.findIdx? isEditor with
    | none => (none, h)
    | some k =>
      let i := h.entries.length - 1 - k
      match h.entries[i]? with
      | none => (none, h)
      | some e =>
        let entries := e :: h.entries.eraseIdx i
        ((lastEditor entries).map (·.part), { h with entries })
  else
    match h.entries.findIdx? isEditor with
    | none => (none, h)
    | some i =>
      match h.entries[i]? with
      | none => (none, h)
      | some e => (some e.part, { h with entries := h.entries.eraseIdx i ++ [e] })

/-- The number of entries. -/
def length (h : History) : Nat := h.entries.length

/-- Whether there are no entries. -/
def isEmpty (h : History) : Bool := h.entries.isEmpty

/-- Keeps only the parts a predicate accepts. -/
def retain (h : History) (keep : PartId → Bool) : History :=
  { entries := h.entries.filter (keep ·.part), minimized := h.minimized.filter keep }

/-- The parts from the least to the most recent. -/
def parts (h : History) : List PartId := h.entries.map (·.part)

/-- The saved form: an `entry` child per entry, in order, with `minimized` set on the
minimized ones. -/
def save (h : History) : Memento :=
  let entry := fun (m : Memento) (e : HistoryEntry) =>
    let saved := ((Memento.empty "entry").set "part" (.str e.part)).set "kind" (.str e.kind.name)
    m.push (if h.isMinimized e.part then saved.set "minimized" (.bool true) else saved)
  h.entries.foldl entry (Memento.empty "history")

/-- Reads one saved entry into a history. -/
def restoreEntry (h : History) (saved : Memento) : Except RestoreError History := do
  let id ← saved.requireStr "part"
  let name ← saved.requireStr "kind"
  let some kind := PartKind.parse? name | .error (.invalidValue saved.kind "kind")
  let h := if saved.bool? "minimized" == some true then
    { h with minimized := Keyed.insertKey id h.minimized } else h
  pure (h.recordActivated id kind)

/-- Reads a history back from its saved form: the `entry` children are activated in order. -/
def restore (m : Memento) : Except RestoreError History :=
  (m.childrenOf "entry").foldlM restoreEntry {}

@[simp] theorem contains_recordOpened_self (h : History) (id : PartId) (k : PartKind) :
    (h.recordOpened id k).contains id = true := by
  unfold recordOpened
  split
  · assumption
  · simp [contains]

@[simp] theorem contains_recordActivated_self (h : History) (id : PartId) (k : PartKind) :
    (h.recordActivated id k).contains id = true := by
  unfold recordActivated
  split
  · rename_i hl
    simp only [contains, List.any_eq_true, beq_iff_eq]
    cases he : h.entries.getLast? with
    | none => simp [he] at hl
    | some e =>
      simp [he] at hl
      exact ⟨e, List.mem_of_getLast? he, hl⟩
  · simp [contains]

@[simp] theorem isMinimized_setMinimized_false (h : History) (id : PartId) :
    (h.setMinimized id false).isMinimized id = false := by
  simp [setMinimized, isMinimized]

theorem isMinimized_setMinimized_true {h : History} {id : PartId} (hc : h.contains id = true) :
    (h.setMinimized id true).isMinimized id = true := by
  simp [setMinimized, hc, isMinimized]

theorem contains_iff_mem_parts (h : History) (id : PartId) :
    h.contains id = true ↔ id ∈ h.parts := by
  simp [contains, parts]

/-- Activating a part adds it to the parts and drops none. -/
theorem mem_parts_recordActivated (h : History) (id : PartId) (k : PartKind) (x : PartId) :
    x ∈ (h.recordActivated id k).parts ↔ x ∈ h.parts ∨ x = id := by
  unfold recordActivated
  split
  · rename_i hlast
    -- the part is already the most recent one
    have hid : id ∈ h.parts := by
      have := contains_recordActivated_self h id k
      rwa [recordActivated, if_pos hlast, contains_iff_mem_parts] at this
    exact (or_iff_left_of_imp fun hx => hx ▸ hid).symm
  · by_cases hx : x = id
    · simp [parts, hx]
    · simp only [parts, List.map_append, List.mem_append, List.mem_map, List.map_cons,
        List.map_nil, List.mem_singleton, hx, or_false]
      constructor
      · rintro ⟨e, he, rfl⟩
        exact ⟨e, List.mem_of_mem_eraseP he, rfl⟩
      · rintro ⟨e, he, rfl⟩
        exact ⟨e, (List.mem_eraseP_of_neg (by simpa using hx)).mpr he, rfl⟩

theorem mem_parts_recordOpened (h : History) (id : PartId) (k : PartKind) (x : PartId) :
    x ∈ (h.recordOpened id k).parts ↔ x ∈ h.parts ∨ x = id := by
  unfold recordOpened
  split
  · rename_i hc
    exact (or_iff_left_of_imp fun hx => hx ▸ (contains_iff_mem_parts h id).mp hc).symm
  · simp [parts, or_comm]

@[simp] theorem parts_setMinimized (h : History) (id : PartId) (b : Bool) :
    (h.setMinimized id b).parts = h.parts := by
  unfold setMinimized
  split
  · split <;> rfl
  · rfl

@[simp] theorem parts_retain (h : History) (keep : PartId → Bool) :
    (h.retain keep).parts = h.parts.filter keep := by
  simp [retain, parts, List.filter_map, Function.comp_def]

theorem parts_foldl_setMinimized (ids : List PartId) (g : PartId → Bool) (h : History) :
    (ids.foldl (fun h id => h.setMinimized id (g id)) h).parts = h.parts := by
  induction ids generalizing h with
  | nil => rfl
  | cons id rest ih => rw [List.foldl_cons, ih, parts_setMinimized]

theorem mem_parts_foldl {add : History → PartId → History} {ids : List PartId}
    (hadd : ∀ h, ∀ id ∈ ids, ∀ x, x ∈ (add h id).parts ↔ x ∈ h.parts ∨ x = id)
    (h : History) (x : PartId) : x ∈ (ids.foldl add h).parts ↔ x ∈ h.parts ∨ x ∈ ids := by
  induction ids generalizing h with
  | nil => simp
  | cons id rest ih =>
    rw [List.foldl_cons, ih (fun h' y hy => hadd h' y (List.mem_cons_of_mem _ hy)),
      hadd h id List.mem_cons_self, List.mem_cons, or_assoc]

end History

end Docking
