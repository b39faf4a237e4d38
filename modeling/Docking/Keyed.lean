/-!
# Lists in key order

Maps and sets keyed by text are kept as lists in ascending key order, without two entries
of one key: the order is the one in which such maps and sets are listed, and two maps with
the same entries are the same list.
-/

namespace Docking

namespace Keyed

/-- Puts `(k, v)` into a key-ordered list of pairs, replacing an entry of the same key. -/
def insert {α : Type} (k : String) (v : α) : List (String × α) → List (String × α)
  | [] => [(k, v)]
  | (k', v') :: rest =>
    if k < k' then (k, v) :: (k', v') :: rest
    else if k = k' then (k, v) :: rest
    else (k', v') :: insert k v rest

/-- The value under a key. -/
def find? {α : Type} (k : String) (xs : List (String × α)) : Option α :=
  (xs.find? (·.1 == k)).map (·.2)

/-- Drops the entry of a key. -/
def erase {α : Type} (k : String) (xs : List (String × α)) : List (String × α) :=
  xs.filter (·.1 != k)

/-- Changes the value under a key, if there is one. -/
def modify {α : Type} (k : String) (f : α → α) (xs : List (String × α)) : List (String × α) :=
  xs.map fun (k', v) => if k' == k then (k', f v) else (k', v)

/-- Adds one to the count under a key, counting from zero. -/
def bump (k : String) (xs : List (String × Nat)) : List (String × Nat) :=
  insert k ((find? k xs).getD 0 + 1) xs

/-- Puts a key into a key-ordered set. -/
def insertKey (k : String) : List String → List String
  | [] => [k]
  | k' :: rest =>
    if k < k' then k :: k' :: rest
    else if k = k' then k' :: rest
    else k' :: insertKey k rest

@[simp] theorem find?_insert_self {α : Type} (k : String) (v : α) (xs : List (String × α)) :
    find? k (insert k v xs) = some v := by
  induction xs with
  | nil => simp [insert, find?]
  | cons p rest ih =>
    obtain ⟨k', v'⟩ := p
    unfold insert
    by_cases h1 : k < k'
    · simp [h1, find?]
    · by_cases h2 : k = k'
      · subst h2; simp [find?]
      · have : (k' == k) = false := by simp; exact fun h => h2 h.symm
        simp only [h1, h2, if_false]
        simpa [find?, List.find?, this] using ih

theorem find?_insert_of_ne {α : Type} {k k' : String} (v : α) (xs : List (String × α))
    (h : k' ≠ k) : find? k' (insert k v xs) = find? k' xs := by
  induction xs with
  | nil =>
    have : (k == k') = false := by simpa using fun e => h e.symm
    simp [insert, find?, List.find?, this]
  | cons p rest ih =>
    obtain ⟨j, w⟩ := p
    have hk : (k == k') = false := by simpa using fun e => h e.symm
    unfold insert
    by_cases h1 : k < j
    · simp [h1, find?, List.find?, hk]
    · by_cases h2 : k = j
      · subst h2
        simp [find?, List.find?, hk]
      · simp only [h1, h2, if_false]
        by_cases h3 : j = k'
        · subst h3; simp [find?, List.find?]
        · have hj : (j == k') = false := by simpa using h3
          simpa [find?, List.find?, hj] using ih

@[simp] theorem find?_erase_self {α : Type} (k : String) (xs : List (String × α)) :
    find? k (erase k xs) = none := by
  simp only [find?, erase, Option.map_eq_none_iff, List.find?_eq_none, List.mem_filter]
  intro x hx
  simpa using hx.2

theorem find?_erase_of_ne {α : Type} {k k' : String} (xs : List (String × α)) (h : k' ≠ k) :
    find? k' (erase k xs) = find? k' xs := by
  induction xs with
  | nil => rfl
  | cons p rest ih =>
    obtain ⟨j, w⟩ := p
    by_cases hj : j = k
    · subst hj
      have : (j == k') = false := by simpa using fun e => h e.symm
      simpa [erase, find?, List.find?, this] using ih
    · have hne : (j != k) = true := by simpa using hj
      by_cases hk : j = k'
      · subst hk; simp [erase, find?, List.filter, List.find?, hne]
      · have : (j == k') = false := by simpa using hk
        simpa [erase, find?, List.filter, List.find?, hne, this] using ih

@[simp] theorem find?_bump_self (k : String) (xs : List (String × Nat)) :
    find? k (bump k xs) = some ((find? k xs).getD 0 + 1) := by
  simp [bump]

@[simp] theorem find?_modify_self {α : Type} (k : String) (f : α → α) (xs : List (String × α)) :
    find? k (modify k f xs) = (find? k xs).map f := by
  induction xs with
  | nil => rfl
  | cons p rest ih =>
    obtain ⟨j, w⟩ := p
    unfold modify find? at *
    by_cases h : j = k
    · subst h
      simp only [List.map_cons, beq_self_eq_true, if_true, List.find?_cons]
      rfl
    · have hj : (j == k) = false := by simpa using h
      simp only [List.map_cons, hj, List.find?_cons, Bool.false_eq_true, if_false]
      exact ih

theorem find?_modify_of_ne {α : Type} {k k' : String} (f : α → α) (xs : List (String × α))
    (h : k' ≠ k) : find? k' (modify k f xs) = find? k' xs := by
  induction xs with
  | nil => rfl
  | cons p rest ih =>
    obtain ⟨j, w⟩ := p
    unfold modify find? at *
    by_cases hj : j = k
    · subst hj
      have hk : (j == k') = false := by simpa using fun e => h e.symm
      simpa [List.find?_cons, hk] using ih
    · have hj' : (j == k) = false := by simpa using hj
      simp only [List.map_cons, hj', Bool.false_eq_true, if_false, List.find?_cons]
      split
      · rfl
      · exact ih

theorem isSome_find?_iff {α : Type} (k : String) (xs : List (String × α)) :
    (find? k xs).isSome ↔ k ∈ xs.map (·.1) := by
  simp [find?, List.find?_isSome]

@[simp] theorem mem_insertKey_self (k : String) (xs : List String) : k ∈ insertKey k xs := by
  induction xs with
  | nil => simp [insertKey]
  | cons j rest ih =>
    unfold insertKey
    by_cases h1 : k < j
    · simp [h1]
    · by_cases h2 : k = j
      · subst h2; simp
      · simp [h1, h2, ih]

end Keyed

end Docking
