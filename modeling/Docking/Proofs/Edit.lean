import Docking.Proofs.Store
/-!
# The child edits of the node table

`removeChild`, `insertChild`, `pushChild` and `replaceChild` are the edits that change which
container holds a node. Each one is refused without changing anything, or succeeds. For each
this module gives

* `*_eq_ok`: what a success needs and what the table then is;
* the four views of the table after a success (`parent?`, `held`, `form?`, `contains`);
* `*_ok`: the edit does succeed when its container can hold children and its node is there.

Later proofs use only these lemmas and never unfold an edit.
-/

namespace Docking

/-! ### Running `Except` computations -/

@[simp] theorem except_ok_bind {ε α β : Type} (a : α) (f : α → Except ε β) :
    (Except.ok a >>= f) = f a := rfl

@[simp] theorem except_error_bind {ε α β : Type} (e : ε) (f : α → Except ε β) :
    (Except.error e >>= f : Except ε β) = Except.error e := rfl

@[simp] theorem except_pure_bind {ε α β : Type} (a : α) (f : α → Except ε β) :
    (pure a >>= f : Except ε β) = f a := rfl

@[simp] theorem except_throw_bind {ε α β : Type} (e : ε) (f : α → Except ε β) :
    (throw e >>= f : Except ε β) = throw e := rfl

@[simp] theorem except_throw_ne_ok {ε α : Type} (e : ε) (a : α) :
    (throw e : Except ε α) ≠ .ok a := by
  intro h
  cases h

theorem idxOf_eq_of_idxOf? {l : List NodeId} {a : NodeId} {i : Nat} (h : l.idxOf? a = some i) :
    l.idxOf a = i := by
  induction l generalizing i with
  | nil => simp at h
  | cons x xs ih =>
    rw [List.idxOf?_cons] at h
    rw [List.idxOf_cons]
    by_cases hx : x = a
    · subst hx
      simp at h
      simp [h]
    · simp only [beq_iff_eq, hx, if_false, Option.map_eq_some_iff] at h
      obtain ⟨j, hj, rfl⟩ := h
      simp only [Bool.cond_eq_ite, beq_iff_eq, hx, if_false, ih hj]

namespace Store

/-- A node that holds tabs or slots: a folder or a split. -/
def IsContainer (s : Store) (p : NodeId) : Prop :=
  s.form? p = some .folder ∨ s.form? p = some .split

theorem isContainer_iff {s : Store} {p : NodeId} :
    s.IsContainer p ↔ ∃ pn, s.get? p = some pn ∧ (pn.kind.form = .folder ∨ pn.kind.form = .split) := by
  unfold IsContainer form?
  cases s.get? p <;> simp

theorem walkChildren_of_form {k : NodeKind} (h : k.form = .folder ∨ k.form = .split) :
    walkChildren true k = k.children := by
  cases k <;> simp_all [NodeKind.form, walkChildren, NodeKind.children]

theorem SameShape.isContainer_iff {s s' : Store} (h : SameShape s s') (p : NodeId) :
    s'.IsContainer p ↔ s.IsContainer p := by
  simp only [IsContainer, (h p).2.2]

/-! ### Finding a child -/

/-- Looking a node up among children succeeds only when it is one of them, at its first
position. -/
theorem mem_of_lookup_eq_ok {cs : List NodeId} {c : NodeId} {i : Nat}
    (h : (match cs.idxOf? c with
      | some i => pure i
      | none => throw (LayoutError.orphan c) : Except LayoutError Nat) = .ok i) :
    c ∈ cs ∧ cs.idxOf? c = some i := by
  cases hx : cs.idxOf? c with
  | none => simp [hx] at h
  | some j =>
    simp only [hx] at h
    cases h
    exact ⟨List.isSome_idxOf?.mp (by simp [hx]), rfl⟩

theorem childIndex_eq_ok {s : Store} {p c : NodeId} {i : Nat} (h : s.childIndex p c = .ok i) :
    ∃ pn, s.get? p = some pn ∧ c ∈ walkChildren true pn.kind ∧
      (pn.kind.isCollapsed = false → pn.kind.children.idxOf? c = some i) := by
  unfold childIndex node at h
  cases hp : s.get? p with
  | none => simp [hp] at h
  | some pn =>
    simp only [hp, except_ok_bind] at h
    refine ⟨pn, rfl, ?_⟩
    cases hk : pn.kind with
    | collapsed inner =>
      rw [hk] at h
      by_cases hi : inner = c
      · subst hi
        simp [walkChildren, NodeKind.isCollapsed]
      · simp [hi] at h
    | folder cs sel =>
      rw [hk] at h
      obtain ⟨hm, hx⟩ := @mem_of_lookup_eq_ok cs c i h
      exact ⟨hm, fun _ => hx⟩
    | split o cs ws =>
      rw [hk] at h
      obtain ⟨hm, hx⟩ := @mem_of_lookup_eq_ok cs c i h
      exact ⟨hm, fun _ => hx⟩
    | pane q =>
      rw [hk] at h
      simpa using (@mem_of_lookup_eq_ok [] c i h).1
    | placeholder q =>
      rw [hk] at h
      simpa using (@mem_of_lookup_eq_ok [] c i h).1

/-- A listed child of a folder or a split is found at its index. -/
theorem childIndex_of_mem {s : Store} {p c : NodeId} {pn : Node} (hp : s.get? p = some pn)
    (hf : pn.kind.form = .folder ∨ pn.kind.form = .split) (hc : c ∈ pn.kind.children) :
    s.childIndex p c = .ok (pn.kind.children.idxOf c) := by
  have hx : pn.kind.children.idxOf? c = some (pn.kind.children.idxOf c) := by
    obtain ⟨i, hi⟩ := Option.isSome_iff_exists.mp (List.isSome_idxOf?.mpr hc)
    rw [hi, idxOf_eq_of_idxOf? hi]
  unfold childIndex node
  simp only [hp, except_ok_bind]
  cases hk : pn.kind with
  | folder cs sel => simp_all [NodeKind.children]; rfl
  | split o cs ws => simp_all [NodeKind.children]; rfl
  | pane q => simp_all [NodeKind.form]
  | placeholder q => simp_all [NodeKind.form]
  | collapsed inner => simp_all [NodeKind.form]

/-! ### Taking a child out -/

theorem removeChild_eq_ok {s s' : Store} {p c : NodeId} {w : Float32}
    (h : s.removeChild p c = .ok (w, s')) :
    ∃ pn k, s.get? p = some pn ∧ (pn.kind.form = .folder ∨ pn.kind.form = .split) ∧
      c ∈ pn.kind.children ∧ s.contains c = true ∧
      walkChildren true k = pn.kind.children.erase c ∧ k.form = pn.kind.form ∧
      s' = ((s.setKind p k).modify c fun n => { n with parent := none }).fixSelection p := by
  unfold removeChild at h
  cases hi : s.childIndex p c with
  | error e => simp [hi] at h
  | ok i =>
    obtain ⟨pn, hp, hm, hidx⟩ := childIndex_eq_ok hi
    simp only [hi, node, hp, except_ok_bind] at h
    -- every kind that can hold `c` ends in the same two steps
    have finish : ∀ k : NodeKind, walkChildren true k = pn.kind.children.erase c →
        k.form = pn.kind.form → (pn.kind.form = .folder ∨ pn.kind.form = .split) →
        c ∈ pn.kind.children → ∀ w', (do
          let s ← (s.setKind p k).setParent c none
          pure (w', s.fixSelection p) : Except LayoutError (Float32 × Store)) = .ok (w, s') →
        ∃ pn k, s.get? p = some pn ∧ (pn.kind.form = .folder ∨ pn.kind.form = .split) ∧
          c ∈ pn.kind.children ∧ s.contains c = true ∧
          walkChildren true k = pn.kind.children.erase c ∧ k.form = pn.kind.form ∧
          s' = ((s.setKind p k).modify c fun n => { n with parent := none }).fixSelection p := by
      intro k hk hf hc hm w' hrun
      cases hsp : (s.setKind p k).setParent c none with
      | error e =>
        simp only [hsp, except_error_bind] at hrun
        cases hrun
      | ok s₁ =>
        simp only [hsp, except_ok_bind] at hrun
        obtain ⟨hcc, rfl⟩ := setParent_eq_ok hsp
        cases hrun
        exact ⟨pn, k, hp, hc, hm, by simpa [contains_setKind] using hcc, hk, hf, rfl⟩
    cases hk : pn.kind with
    | folder cs sel =>
      rw [hk] at h hm hidx
      have hx : cs.idxOf c = i := idxOf_eq_of_idxOf? (hidx rfl)
      simp only [except_pure_bind] at h
      refine finish _ ?_ (by rw [hk]; rfl) (by rw [hk]; simp [NodeKind.form])
        (by rw [hk]; simpa [walkChildren, NodeKind.children] using hm) _ h
      simp [hk, walkChildren, NodeKind.children, List.erase_eq_eraseIdx_of_idxOf hx]
    | split o cs ws =>
      rw [hk] at h hm hidx
      have hx : cs.idxOf c = i := idxOf_eq_of_idxOf? (hidx rfl)
      simp only [except_pure_bind] at h
      refine finish _ ?_ (by rw [hk]; rfl) (by rw [hk]; simp [NodeKind.form])
        (by rw [hk]; simpa [walkChildren, NodeKind.children] using hm) _ h
      simp [hk, walkChildren, NodeKind.children, List.erase_eq_eraseIdx_of_idxOf hx]
    | pane q => rw [hk] at h; exact absurd h (by simp)
    | placeholder q => rw [hk] at h; exact absurd h (by simp)
    | collapsed inner => rw [hk] at h; exact absurd h (by simp)

section Remove

variable {s s' : Store} {p c : NodeId} {w : Float32}

theorem removeChild_mem (h : s.removeChild p c = .ok (w, s')) : c ∈ s.held p := by
  obtain ⟨pn, -, hp, hf, hc, -⟩ := removeChild_eq_ok h
  rw [held_of_get? hp, walkChildren_of_form hf]
  exact hc

theorem parent?_removeChild (h : s.removeChild p c = .ok (w, s')) (x : NodeId) :
    s'.parent? x = if x = c then none else s.parent? x := by
  obtain ⟨pn, k, hp, hf, hc, hcc, hk, -, rfl⟩ := removeChild_eq_ok h
  rw [(sameShape_fixSelection _ p x).1, parent?_setParentField, contains_setKind, parent?_setKind]
  by_cases hx : x = c
  · subst hx
    simp [hcc]
  · simp [hx, Ne.symm hx]

theorem held_removeChild (h : s.removeChild p c = .ok (w, s')) (x : NodeId) :
    s'.held x = if x = p then (s.held p).erase c else s.held x := by
  obtain ⟨pn, k, hp, hf, hc, hcc, hk, -, rfl⟩ := removeChild_eq_ok h
  rw [(sameShape_fixSelection _ p x).2.1, held_setParentField, held_setKind]
  by_cases hx : x = p
  · subst hx
    simp [hp, hk, held_of_get? hp, walkChildren_of_form hf]
  · simp [hx, Ne.symm hx]

theorem form?_removeChild (h : s.removeChild p c = .ok (w, s')) (x : NodeId) :
    s'.form? x = s.form? x := by
  obtain ⟨pn, k, hp, hf, hc, hcc, hk, hkf, rfl⟩ := removeChild_eq_ok h
  rw [(sameShape_fixSelection _ p x).2.2, form?_setParentField, form?_setKind]
  by_cases hx : p = x
  · subst hx
    simp [form?, hp, hkf]
  · simp [hx]

theorem contains_removeChild (h : s.removeChild p c = .ok (w, s')) (x : NodeId) :
    s'.contains x = s.contains x := by
  rw [Bool.eq_iff_iff, contains_iff_form?, contains_iff_form?, form?_removeChild h]

end Remove

/-- Taking out a listed child of a folder or a split succeeds. -/
theorem removeChild_ok {s : Store} {p c : NodeId} (hp : s.IsContainer p) (hc : c ∈ s.held p)
    (hcc : s.contains c = true) : ∃ w s', s.removeChild p c = .ok (w, s') := by
  obtain ⟨pn, hpn, hf⟩ := isContainer_iff.mp hp
  rw [held_of_get? hpn, walkChildren_of_form hf] at hc
  have hset : ∀ k, ∃ s₁, (s.setKind p k).setParent c none = .ok s₁ := fun k =>
    ⟨_, setParent_of_contains none (by rwa [contains_setKind])⟩
  unfold removeChild
  rw [childIndex_of_mem hpn hf hc]
  simp only [node, hpn, except_ok_bind]
  cases hk : pn.kind with
  | folder cs sel =>
    simp only [except_pure_bind, NodeKind.children]
    obtain ⟨s₁, h₁⟩ := hset (.folder (cs.eraseIdx (cs.idxOf c))
      (selectionAfterRemoval (cs.eraseIdx (cs.idxOf c)).length (cs.idxOf c) sel))
    rw [h₁]
    exact ⟨_, _, rfl⟩
  | split o cs ws =>
    simp only [except_pure_bind, NodeKind.children]
    obtain ⟨s₁, h₁⟩ := hset (.split o (cs.eraseIdx (cs.idxOf c)) (ws.eraseIdx (cs.idxOf c)))
    rw [h₁]
    exact ⟨_, _, rfl⟩
  | pane q => simp_all [NodeKind.form]
  | placeholder q => simp_all [NodeKind.form]
  | collapsed inner => simp_all [NodeKind.form]

/-! ### Putting a child in -/

theorem insertChild_eq_ok {s s' : Store} {p c : NodeId} {i : Nat} {w : Float32}
    (h : s.insertChild p i c w = .ok s') :
    s.contains c = true ∧ ∃ pn k, s.get? p = some pn ∧
      (pn.kind.form = .folder ∨ pn.kind.form = .split) ∧
      walkChildren true k = pn.kind.children.insertIdx (min i pn.kind.children.length) c ∧
      k.form = pn.kind.form ∧
      s' = ((s.setKind p k).modify c fun n => { n with parent := some p }).fixSelection p := by
  unfold insertChild at h
  by_cases hc : s.contains c = true
  · refine ⟨hc, ?_⟩
    simp only [hc, Bool.not_true, Bool.false_eq_true, if_false, node] at h
    obtain ⟨pn, hp⟩ : ∃ pn, s.get? p = some pn := by
      cases hp : s.get? p with
      | none => simp [hp] at h
      | some pn => exact ⟨pn, rfl⟩
    simp only [hp, except_ok_bind] at h
    have finish : ∀ k : NodeKind,
        walkChildren true k = pn.kind.children.insertIdx (min i pn.kind.children.length) c →
        k.form = pn.kind.form → (pn.kind.form = .folder ∨ pn.kind.form = .split) →
        (do
          let s ← (s.setKind p k).setParent c (some p)
          pure (s.fixSelection p) : Except LayoutError Store) = .ok s' →
        ∃ pn k, s.get? p = some pn ∧ (pn.kind.form = .folder ∨ pn.kind.form = .split) ∧
          walkChildren true k = pn.kind.children.insertIdx (min i pn.kind.children.length) c ∧
          k.form = pn.kind.form ∧
          s' = ((s.setKind p k).modify c fun n => { n with parent := some p }).fixSelection p := by
      intro k hk hkf hf hrun
      rw [setParent_of_contains _ (by rwa [contains_setKind])] at hrun
      cases hrun
      exact ⟨pn, k, hp, hf, hk, hkf, rfl⟩
    cases hk : pn.kind with
    | folder cs sel =>
      rw [hk] at h
      simp only [except_pure_bind] at h
      exact finish _ (by simp [hk, walkChildren, NodeKind.children]) (by rw [hk]; rfl)
        (by rw [hk]; simp [NodeKind.form]) h
    | split o cs ws =>
      rw [hk] at h
      simp only [except_pure_bind] at h
      exact finish _ (by simp [hk, walkChildren, NodeKind.children]) (by rw [hk]; rfl)
        (by rw [hk]; simp [NodeKind.form]) h
    | pane q => rw [hk] at h; exact absurd h (by simp)
    | placeholder q => rw [hk] at h; exact absurd h (by simp)
    | collapsed inner => rw [hk] at h; exact absurd h (by simp)
  · simp [hc] at h

section Insert

variable {s s' : Store} {p c : NodeId} {i : Nat} {w : Float32}

theorem insertChild_isContainer (h : s.insertChild p i c w = .ok s') : s.IsContainer p := by
  obtain ⟨-, pn, -, hp, hf, -⟩ := insertChild_eq_ok h
  exact isContainer_iff.mpr ⟨pn, hp, hf⟩

theorem insertChild_contains (h : s.insertChild p i c w = .ok s') : s.contains c = true :=
  (insertChild_eq_ok h).1

theorem parent?_insertChild (h : s.insertChild p i c w = .ok s') (x : NodeId) :
    s'.parent? x = if x = c then some p else s.parent? x := by
  obtain ⟨hcc, pn, k, hp, hf, hk, -, rfl⟩ := insertChild_eq_ok h
  rw [(sameShape_fixSelection _ p x).1, parent?_setParentField, contains_setKind, parent?_setKind]
  by_cases hx : x = c
  · subst hx
    simp [hcc]
  · simp [hx, Ne.symm hx]

theorem held_insertChild (h : s.insertChild p i c w = .ok s') (x : NodeId) :
    s'.held x = if x = p then (s.held p).insertIdx (min i (s.held p).length) c else s.held x := by
  obtain ⟨hcc, pn, k, hp, hf, hk, -, rfl⟩ := insertChild_eq_ok h
  rw [(sameShape_fixSelection _ p x).2.1, held_setParentField, held_setKind]
  by_cases hx : x = p
  · subst hx
    simp [hp, hk, held_of_get? hp, walkChildren_of_form hf]
  · simp [hx, Ne.symm hx]

theorem form?_insertChild (h : s.insertChild p i c w = .ok s') (x : NodeId) :
    s'.form? x = s.form? x := by
  obtain ⟨hcc, pn, k, hp, hf, hk, hkf, rfl⟩ := insertChild_eq_ok h
  rw [(sameShape_fixSelection _ p x).2.2, form?_setParentField, form?_setKind]
  by_cases hx : p = x
  · subst hx
    simp [form?, hp, hkf]
  · simp [hx]

theorem contains_insertChild (h : s.insertChild p i c w = .ok s') (x : NodeId) :
    s'.contains x = s.contains x := by
  rw [Bool.eq_iff_iff, contains_iff_form?, contains_iff_form?, form?_insertChild h]

end Insert

/-- Putting a node that is there into a folder or a split succeeds. -/
theorem insertChild_ok {s : Store} {p c : NodeId} (i : Nat) (w : Float32) (hp : s.IsContainer p)
    (hc : s.contains c = true) : ∃ s', s.insertChild p i c w = .ok s' := by
  obtain ⟨pn, hpn, hf⟩ := isContainer_iff.mp hp
  have hset : ∀ k, (s.setKind p k).setParent c (some p) =
      .ok ((s.setKind p k).modify c fun n => { n with parent := some p }) := fun k =>
    setParent_of_contains _ (by rwa [contains_setKind])
  unfold insertChild
  simp only [hc, Bool.not_true, Bool.false_eq_true, if_false, node, hpn, except_ok_bind]
  cases hk : pn.kind with
  | folder cs sel =>
    simp only [except_pure_bind, hset]
    exact ⟨_, rfl⟩
  | split o cs ws =>
    simp only [except_pure_bind, hset]
    exact ⟨_, rfl⟩
  | pane q => simp_all [NodeKind.form]
  | placeholder q => simp_all [NodeKind.form]
  | collapsed inner => simp_all [NodeKind.form]

theorem pushChild_eq_insertChild {s : Store} {p c : NodeId} {pn : Node} (hp : s.get? p = some pn) :
    s.pushChild p c = s.insertChild p pn.kind.children.length c (meanWeight pn.kind.weights) := by
  simp [pushChild, node, hp]

section Push

variable {s s' : Store} {p c : NodeId}

theorem pushChild_eq_ok (h : s.pushChild p c = .ok s') :
    ∃ pn, s.get? p = some pn ∧
      s.insertChild p pn.kind.children.length c (meanWeight pn.kind.weights) = .ok s' := by
  cases hp : s.get? p with
  | none => simp [pushChild, node, hp] at h
  | some pn => exact ⟨pn, rfl, by rwa [← pushChild_eq_insertChild hp]⟩

theorem pushChild_isContainer (h : s.pushChild p c = .ok s') : s.IsContainer p := by
  obtain ⟨pn, -, hi⟩ := pushChild_eq_ok h
  exact insertChild_isContainer hi

theorem parent?_pushChild (h : s.pushChild p c = .ok s') (x : NodeId) :
    s'.parent? x = if x = c then some p else s.parent? x := by
  obtain ⟨pn, -, hi⟩ := pushChild_eq_ok h
  exact parent?_insertChild hi x

theorem held_pushChild (h : s.pushChild p c = .ok s') (x : NodeId) :
    s'.held x = if x = p then s.held p ++ [c] else s.held x := by
  obtain ⟨pn, hp, hi⟩ := pushChild_eq_ok h
  obtain ⟨-, pn', -, hp', hf, -⟩ := insertChild_eq_ok hi
  rw [hp] at hp'
  cases hp'
  rw [held_insertChild hi, held_of_get? hp, walkChildren_of_form hf, Nat.min_self,
    List.insertIdx_length_self]

theorem form?_pushChild (h : s.pushChild p c = .ok s') (x : NodeId) : s'.form? x = s.form? x := by
  obtain ⟨pn, -, hi⟩ := pushChild_eq_ok h
  exact form?_insertChild hi x

end Push

theorem pushChild_ok {s : Store} {p c : NodeId} (hp : s.IsContainer p) (hc : s.contains c = true) :
    ∃ s', s.pushChild p c = .ok s' := by
  obtain ⟨pn, hpn, -⟩ := isContainer_iff.mp hp
  rw [pushChild_eq_insertChild hpn]
  exact insertChild_ok _ _ hp hc

/-! ### Putting a child in another's slot -/

theorem replaceChild_eq_ok {s s' : Store} {p old new : NodeId}
    (h : s.replaceChild p old new = .ok s') :
    s.contains old = true ∧ s.contains new = true ∧ ∃ pn k, s.get? p = some pn ∧
      old ∈ walkChildren true pn.kind ∧
      walkChildren true k =
        (walkChildren true pn.kind).set ((walkChildren true pn.kind).idxOf old) new ∧
      k.form = pn.kind.form ∧
      s' = (((s.setKind p k).modify old fun n => { n with parent := none }).modify new
        fun n => { n with parent := some p }).fixSelection p := by
  unfold replaceChild at h
  cases hi : s.childIndex p old with
  | error e => simp [hi] at h
  | ok i =>
    obtain ⟨pn, hp, hm, hidx⟩ := childIndex_eq_ok hi
    simp only [hi, except_ok_bind] at h
    by_cases hn : s.contains new = true
    · simp only [hn, Bool.not_true, Bool.false_eq_true, if_false, node, hp, except_ok_bind] at h
      -- the two links change after the kind, whatever the kind was
      have finish : ∀ k : NodeKind,
          walkChildren true k =
            (walkChildren true pn.kind).set ((walkChildren true pn.kind).idxOf old) new →
          k.form = pn.kind.form →
          (do
            let s ← (s.setKind p k).setParent old none
            let s ← s.setParent new (some p)
            pure (s.fixSelection p) : Except LayoutError Store) = .ok s' →
          s.contains old = true ∧ s.contains new = true ∧ ∃ pn k, s.get? p = some pn ∧
            old ∈ walkChildren true pn.kind ∧
            walkChildren true k =
              (walkChildren true pn.kind).set ((walkChildren true pn.kind).idxOf old) new ∧
            k.form = pn.kind.form ∧
            s' = (((s.setKind p k).modify old fun n => { n with parent := none }).modify new
              fun n => { n with parent := some p }).fixSelection p := by
        intro k hk hkf hrun
        cases hsp : (s.setKind p k).setParent old none with
        | error e =>
          simp only [hsp, except_error_bind] at hrun
          cases hrun
        | ok s₁ =>
          simp only [hsp, except_ok_bind] at hrun
          obtain ⟨hoc, rfl⟩ := setParent_eq_ok hsp
          have hnc : ((s.setKind p k).modify old fun n => { n with parent := none }).contains new :=
            by rwa [contains_modify, contains_setKind]
          rw [setParent_of_contains _ hnc] at hrun
          cases hrun
          exact ⟨by simpa [contains_setKind] using hoc, hn, pn, k, hp, hm, hk, hkf, rfl⟩
      cases hk : pn.kind with
      | folder cs sel =>
        rw [hk] at h hm hidx
        have hx : cs.idxOf old = i := idxOf_eq_of_idxOf? (hidx rfl)
        simp only [except_pure_bind] at h
        exact finish _ (by simp [hk, walkChildren, hx]) (by rw [hk]; rfl) h
      | split o cs ws =>
        rw [hk] at h hm hidx
        have hx : cs.idxOf old = i := idxOf_eq_of_idxOf? (hidx rfl)
        simp only [except_pure_bind] at h
        exact finish _ (by simp [hk, walkChildren, hx]) (by rw [hk]; rfl) h
      | collapsed inner =>
        rw [hk] at h hm
        simp only [walkChildren, if_true, List.mem_singleton] at hm
        subst hm
        simp only [except_pure_bind] at h
        exact finish _ (by simp [hk, walkChildren]) (by rw [hk]; rfl) h
      | pane q => rw [hk] at h; exact absurd h (by simp)
      | placeholder q => rw [hk] at h; exact absurd h (by simp)
    · simp [hn] at h

section Replace

variable {s s' : Store} {p old new : NodeId}

theorem replaceChild_mem (h : s.replaceChild p old new = .ok s') : old ∈ s.held p := by
  obtain ⟨-, -, pn, -, hp, hm, -⟩ := replaceChild_eq_ok h
  rwa [held_of_get? hp]

theorem parent?_replaceChild (h : s.replaceChild p old new = .ok s') (x : NodeId) :
    s'.parent? x = if x = new then some p else if x = old then none else s.parent? x := by
  obtain ⟨hoc, hnc, pn, k, hp, hm, hk, -, rfl⟩ := replaceChild_eq_ok h
  rw [(sameShape_fixSelection _ p x).1, parent?_setParentField, parent?_setParentField,
    contains_modify, contains_setKind, parent?_setKind]
  by_cases hx : x = new
  · subst hx
    simp [hnc]
  · by_cases ho : x = old
    · subst ho
      simp [hx, Ne.symm hx, hoc]
    · simp [hx, ho, Ne.symm hx, Ne.symm ho]

theorem held_replaceChild (h : s.replaceChild p old new = .ok s') (x : NodeId) :
    s'.held x = if x = p then (s.held p).set ((s.held p).idxOf old) new else s.held x := by
  obtain ⟨hoc, hnc, pn, k, hp, hm, hk, -, rfl⟩ := replaceChild_eq_ok h
  rw [(sameShape_fixSelection _ p x).2.1, held_setParentField, held_setParentField, held_setKind]
  by_cases hx : x = p
  · subst hx
    simp [hp, hk, held_of_get? hp]
  · simp [hx, Ne.symm hx]

theorem form?_replaceChild (h : s.replaceChild p old new = .ok s') (x : NodeId) :
    s'.form? x = s.form? x := by
  obtain ⟨hoc, hnc, pn, k, hp, hm, hk, hkf, rfl⟩ := replaceChild_eq_ok h
  rw [(sameShape_fixSelection _ p x).2.2, form?_setParentField, form?_setParentField, form?_setKind]
  by_cases hx : p = x
  · subst hx
    simp [form?, hp, hkf]
  · simp [hx]

theorem contains_replaceChild (h : s.replaceChild p old new = .ok s') (x : NodeId) :
    s'.contains x = s.contains x := by
  rw [Bool.eq_iff_iff, contains_iff_form?, contains_iff_form?, form?_replaceChild h]

end Replace

/-- Putting a node that is there into the slot of a listed child of a folder or a split
succeeds. -/
theorem replaceChild_ok {s : Store} {p old new : NodeId} (hp : s.IsContainer p)
    (ho : old ∈ s.held p) (hoc : s.contains old = true) (hn : s.contains new = true) :
    ∃ s', s.replaceChild p old new = .ok s' := by
  obtain ⟨pn, hpn, hf⟩ := isContainer_iff.mp hp
  rw [held_of_get? hpn, walkChildren_of_form hf] at ho
  have hset : ∀ k, ∃ s₁, (do
      let s ← (s.setKind p k).setParent old none
      let s ← s.setParent new (some p)
      pure (s.fixSelection p) : Except LayoutError Store) = .ok s₁ := by
    intro k
    rw [setParent_of_contains _ (by rwa [contains_setKind])]
    have hnc : ((s.setKind p k).modify old fun n => { n with parent := none }).contains new := by
      rwa [contains_modify, contains_setKind]
    simp only [except_ok_bind, setParent_of_contains _ hnc]
    exact ⟨_, rfl⟩
  unfold replaceChild
  rw [childIndex_of_mem hpn hf ho]
  simp only [except_ok_bind, hn, Bool.not_true, Bool.false_eq_true, if_false, node, hpn]
  cases hk : pn.kind with
  | folder cs sel =>
    simp only [except_pure_bind]
    exact hset _
  | split o cs ws =>
    simp only [except_pure_bind]
    exact hset _
  | pane q => simp_all [NodeKind.form]
  | placeholder q => simp_all [NodeKind.form]
  | collapsed inner => simp_all [NodeKind.form]

/-- A node is found among the children of whatever node holds it, a collapsed node included. -/
theorem childIndex_ok_of_held {s : Store} {p c : NodeId} (hc : c ∈ s.held p) :
    ∃ i, s.childIndex p c = .ok i := by
  obtain ⟨pn, hpn⟩ := (contains_iff s p).mp (contains_of_mem_held hc)
  rw [held_of_get? hpn] at hc
  cases hk : pn.kind with
  | collapsed inner =>
    rw [hk] at hc
    simp only [walkChildren, if_true, List.mem_singleton] at hc
    subst hc
    refine ⟨0, ?_⟩
    unfold childIndex node
    simp [hpn, hk]
    rfl
  | folder cs sel =>
    rw [hk] at hc
    exact ⟨_, childIndex_of_mem hpn (by rw [hk]; exact .inl rfl) (by rw [hk]; exact hc)⟩
  | split o cs ws =>
    rw [hk] at hc
    exact ⟨_, childIndex_of_mem hpn (by rw [hk]; exact .inr rfl) (by rw [hk]; exact hc)⟩
  | pane q => rw [hk] at hc; cases hc
  | placeholder q => rw [hk] at hc; cases hc

/-- Putting a node that is there into the slot of a node that is held succeeds, whatever
holds it: a folder, a split, or a collapsed node, which then folds the new node. -/
theorem replaceChild_ok_of_held {s : Store} {p old new : NodeId} (ho : old ∈ s.held p)
    (hoc : s.contains old = true) (hn : s.contains new = true) :
    ∃ s', s.replaceChild p old new = .ok s' := by
  obtain ⟨pn, hpn⟩ := (contains_iff s p).mp (contains_of_mem_held ho)
  have hheld := ho
  rw [held_of_get? hpn] at hheld
  cases hk : pn.kind with
  | collapsed inner =>
    rw [hk] at hheld
    simp only [walkChildren, if_true, List.mem_singleton] at hheld
    subst hheld
    unfold replaceChild
    obtain ⟨i, hi⟩ := childIndex_ok_of_held ho
    rw [hi]
    simp only [except_ok_bind, hn, Bool.not_true, Bool.false_eq_true, if_false, node, hpn, hk,
      except_pure_bind]
    rw [setParent_of_contains _ (by rwa [contains_setKind])]
    have hnc : ((s.setKind p (.collapsed new)).modify old
        fun n => { n with parent := none }).contains new := by
      rwa [contains_modify, contains_setKind]
    simp only [except_ok_bind, setParent_of_contains _ hnc]
    exact ⟨_, rfl⟩
  | folder cs sel =>
    exact replaceChild_ok (isContainer_iff.mpr ⟨pn, hpn, by rw [hk]; exact .inl rfl⟩) ho hoc hn
  | split o cs ws =>
    exact replaceChild_ok (isContainer_iff.mpr ⟨pn, hpn, by rw [hk]; exact .inr rfl⟩) ho hoc hn
  | pane q => rw [hk] at hheld; cases hheld
  | placeholder q => rw [hk] at hheld; cases hheld

/-! ### Kinds after a child edit: only the container's kind changes -/

section Kinds

variable {s s' : Store} {p c x : NodeId}

theorem kindOf_removeChild {w : Float32} (h : s.removeChild p c = .ok (w, s')) (hx : p ≠ x) :
    s'.kindOf x = s.kindOf x := by
  obtain ⟨pn, k, -, -, -, -, -, -, rfl⟩ := removeChild_eq_ok h
  rw [kindOf_fixSelection_of_ne _ hx, kindOf_setParentField, kindOf_setKind_of_ne _ _ hx]

theorem kindOf_insertChild {i : Nat} {w : Float32} (h : s.insertChild p i c w = .ok s')
    (hx : p ≠ x) : s'.kindOf x = s.kindOf x := by
  obtain ⟨-, pn, k, -, -, -, -, rfl⟩ := insertChild_eq_ok h
  rw [kindOf_fixSelection_of_ne _ hx, kindOf_setParentField, kindOf_setKind_of_ne _ _ hx]

theorem kindOf_pushChild (h : s.pushChild p c = .ok s') (hx : p ≠ x) :
    s'.kindOf x = s.kindOf x := by
  obtain ⟨pn, -, hi⟩ := pushChild_eq_ok h
  exact kindOf_insertChild hi hx

theorem kindOf_replaceChild {old new : NodeId} (h : s.replaceChild p old new = .ok s')
    (hx : p ≠ x) : s'.kindOf x = s.kindOf x := by
  obtain ⟨-, -, pn, k, -, -, -, -, rfl⟩ := replaceChild_eq_ok h
  rw [kindOf_fixSelection_of_ne _ hx, kindOf_setParentField, kindOf_setParentField,
    kindOf_setKind_of_ne _ _ hx]

/-- Selecting a tab changes the kind of its folder only. -/
theorem kindOf_select (hp : s.parent? c = some p) (hx : p ≠ x) :
    (s.select c).2.kindOf x = s.kindOf x := by
  unfold select
  simp only [hp]
  split
  · rfl
  · split
    · split
      · rfl
      · exact kindOf_setKind_of_ne s _ hx
    · rfl

/-- Selecting a tab of a folder makes it the tab the folder shows. -/
theorem selectedTab_select {f : NodeId} {cs : List NodeId} {sel : Option Nat}
    (hp : s.parent? c = some f) (hk : s.kindOf f = some (.folder cs sel)) (hc : c ∈ cs) :
    (s.select c).2.selectedTab f = some c := by
  have hget : cs[cs.idxOf c]? = some c := by
    rw [List.getElem?_eq_getElem (List.idxOf_lt_length_of_mem hc), List.getElem_idxOf]
  obtain ⟨⟨ident, parent, bounds, kind⟩, hfn, rfl⟩ := Option.map_eq_some_iff.mp hk
  have hidx := childIndex_of_mem hfn (.inl rfl) hc
  unfold select
  simp only [hp, hidx, hfn]
  split
  · next h =>
    dsimp only [NodeKind.children] at h
    subst h
    simpa only [selectedTab, kindOf, hfn, Option.map_some] using hget
  · simpa only [selectedTab, kindOf, setKind, get?_modify, hfn, if_true, Option.map_some,
      NodeKind.children] using hget

end Kinds

end Store

end Docking
