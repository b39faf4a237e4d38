import Docking.Proofs.Walk
/-!
# Every split has a weight per child

A split lists its children and, beside them, the weights it shares its room by. The edits of
the node table keep the two lists in step: a child goes in with its weight, goes out with it,
or takes another's slot and weight. `Store.Aligned` says that every split of a table has one
weight per child, and each edit keeps it (`Store.Aligned.insertChild`, ...): it is one of the
invariants of a sound layout.

The edits are also read exactly on a split (`Store.kindOf_insertChild_split`, ...): which
children and weights the split holds afterwards.
-/

namespace Docking

/-- Whether a split has one weight per child; the other kinds hold no weights. -/
def NodeKind.aligned : NodeKind → Bool
  | .split _ cs ws => ws.length == cs.length
  | _ => true

theorem NodeKind.aligned_of_form {k : NodeKind} (h : k.form ≠ .split) : k.aligned = true := by
  cases k <;> simp_all [NodeKind.aligned, NodeKind.form]

theorem NodeKind.aligned_split {o : Orientation} {cs : List NodeId} {ws : List Float32} :
    (NodeKind.split o cs ws).aligned = true ↔ ws.length = cs.length := by
  simp [NodeKind.aligned]

namespace Store

/-- Every split of the table has one weight per child. -/
def Aligned (s : Store) : Prop := ∀ x k, s.kindOf x = some k → k.aligned = true

variable {s s' : Store} {p c x : NodeId}

theorem kindOf_setKind_self (s : Store) (id : NodeId) (k : NodeKind) :
    (s.setKind id k).kindOf id = (s.kindOf id).map fun _ => k := by
  simp only [setKind, kindOf, get?_modify, if_true, Option.map_map]
  rfl

theorem fixSelection_of_split {o : Orientation} {cs : List NodeId} {ws : List Float32}
    (hk : s.kindOf p = some (.split o cs ws)) : s.fixSelection p = s := by
  obtain ⟨pn, hpn, hkind⟩ := Option.map_eq_some_iff.mp hk
  unfold fixSelection
  split
  · next n _ _ _ _ hn => rw [hpn] at hn; cases hn; cases hkind
  · rfl

theorem form?_eq_map_kindOf (s : Store) (x : NodeId) : s.form? x = (s.kindOf x).map NodeKind.form := by
  simp only [form?, kindOf, Option.map_map]
  rfl

theorem kindOf_of_get? {n : Node} (h : s.get? x = some n) : s.kindOf x = some n.kind := by
  simp [kindOf, h]

/-! ### The edits read on a split -/

theorem kindOf_splitEdit {o : Orientation} {cs : List NodeId} {ws : List Float32}
    (hp : s.contains p = true) (f : Store → Store) (hf : ∀ t, (f t).kindOf p = t.kindOf p) :
    ((f (s.setKind p (.split o cs ws))).fixSelection p).kindOf p = some (.split o cs ws) := by
  have hk : (f (s.setKind p (.split o cs ws))).kindOf p = some (.split o cs ws) := by
    obtain ⟨pn, hpn⟩ := (contains_iff s p).mp hp
    rw [hf, kindOf_setKind_self, kindOf, hpn]
    rfl
  rw [fixSelection_of_split hk, hk]

/-- Inserting into a split puts the child and its weight at the same place, at most the end. -/
theorem kindOf_insertChild_split {o : Orientation} {cs : List NodeId} {ws : List Float32} {i : Nat}
    {w : Float32} (hk : s.kindOf p = some (.split o cs ws)) (h : s.insertChild p i c w = .ok s') :
    s'.kindOf p = some (.split o (cs.insertIdx (min i cs.length) c)
      (ws.insertIdx (min (min i cs.length) ws.length) w)) := by
  obtain ⟨pn, hpn, hkind⟩ := Option.map_eq_some_iff.mp hk
  have hcc : s.contains c = true := insertChild_contains h
  unfold insertChild at h
  simp only [hcc, Bool.not_true, Bool.false_eq_true, if_false, node, hpn, except_ok_bind,
    hkind, except_pure_bind] at h
  rw [setParent_of_contains _ (by rwa [contains_setKind])] at h
  cases h
  exact kindOf_splitEdit ((contains_iff s p).mpr ⟨pn, hpn⟩)
    (fun t => t.modify c fun n => { n with parent := some p }) fun t => kindOf_setParentField t c p _

theorem childIndex_split {o : Orientation} {cs : List NodeId} {ws : List Float32} {i : Nat}
    (hk : s.kindOf p = some (.split o cs ws)) (h : s.childIndex p c = .ok i) :
    cs.idxOf? c = some i := by
  obtain ⟨pn, hpn, hkind⟩ := Option.map_eq_some_iff.mp hk
  obtain ⟨pn', hpn', -, hidx⟩ := childIndex_eq_ok h
  rw [hpn] at hpn'
  cases hpn'
  have := hidx (by rw [hkind]; rfl)
  rwa [hkind] at this

/-- Taking a child out of a split takes its weight out too, and gives it back. -/
theorem kindOf_removeChild_split {o : Orientation} {cs : List NodeId} {ws : List Float32}
    {w : Float32} (hk : s.kindOf p = some (.split o cs ws)) (h : s.removeChild p c = .ok (w, s')) :
    ∃ i, cs.idxOf? c = some i ∧ w = ws.getD i defaultWeight ∧
      s'.kindOf p = some (.split o (cs.eraseIdx i) (ws.eraseIdx i)) := by
  obtain ⟨pn, hpn, hkind⟩ := Option.map_eq_some_iff.mp hk
  obtain ⟨-, -, -, -, -, hcc, -⟩ := removeChild_eq_ok h
  unfold removeChild at h
  cases hi : s.childIndex p c with
  | error e => simp [hi] at h
  | ok i =>
    simp only [hi, node, hpn, except_ok_bind, hkind, except_pure_bind] at h
    rw [setParent_of_contains _ (by rwa [contains_setKind])] at h
    cases h
    exact ⟨i, childIndex_split hk hi, rfl, kindOf_splitEdit ((contains_iff s p).mpr ⟨pn, hpn⟩)
      (fun t => t.modify c fun n => { n with parent := none }) fun t => kindOf_setParentField t c _ _⟩

/-- A child that takes another's place in a split takes its slot and its weight. -/
theorem kindOf_replaceChild_split {o : Orientation} {cs : List NodeId} {ws : List Float32}
    {old new : NodeId} (hk : s.kindOf p = some (.split o cs ws))
    (h : s.replaceChild p old new = .ok s') :
    ∃ i, cs.idxOf? old = some i ∧ s'.kindOf p = some (.split o (cs.set i new) ws) := by
  obtain ⟨pn, hpn, hkind⟩ := Option.map_eq_some_iff.mp hk
  obtain ⟨hoc, hnc, -⟩ := replaceChild_eq_ok h
  unfold replaceChild at h
  cases hi : s.childIndex p old with
  | error e => simp [hi] at h
  | ok i =>
    simp only [hi, hnc, Bool.not_true, Bool.false_eq_true, if_false, node, hpn, except_ok_bind,
      hkind, except_pure_bind] at h
    rw [setParent_of_contains _ (by rwa [contains_setKind]), except_ok_bind,
      setParent_of_contains _ (by rwa [contains_modify, contains_setKind])] at h
    cases h
    exact ⟨i, childIndex_split hk hi, kindOf_splitEdit ((contains_iff s p).mpr ⟨pn, hpn⟩)
      (fun t => (t.modify old fun n => { n with parent := none }).modify new
        fun n => { n with parent := some p })
      fun t => by rw [kindOf_setParentField, kindOf_setParentField]⟩

/-- Appending to a split gives the new child the mean of the weights there. -/
theorem kindOf_pushChild_split {o : Orientation} {cs : List NodeId} {ws : List Float32}
    (hk : s.kindOf p = some (.split o cs ws)) (h : s.pushChild p c = .ok s') :
    s'.kindOf p = some (.split o (cs.insertIdx cs.length c)
      (ws.insertIdx (min cs.length ws.length) (meanWeight ws))) := by
  obtain ⟨pn, hpn, hi⟩ := pushChild_eq_ok h
  obtain ⟨pn', hpn', hkind⟩ := Option.map_eq_some_iff.mp hk
  rw [hpn] at hpn'
  cases hpn'
  rw [hkind] at hi
  have := kindOf_insertChild_split hk hi
  simp only [NodeKind.children, NodeKind.weights, Nat.min_self] at this
  exact this

/-! ### Every edit keeps the weights in step -/

theorem Aligned.of_kinds (ha : s.Aligned)
    (h : ∀ x k, s'.kindOf x = some k → k.aligned = true ∨ s.kindOf x = some k) : s'.Aligned :=
  fun x k hk => (h x k hk).elim id (ha x k)

theorem Aligned.setKind (ha : s.Aligned) (id : NodeId) {k : NodeKind} (hk : k.aligned = true) :
    (s.setKind id k).Aligned := by
  refine ha.of_kinds fun x k' hx => ?_
  by_cases h : id = x
  · subst h
    rw [kindOf_setKind_self] at hx
    obtain ⟨-, -, rfl⟩ := Option.map_eq_some_iff.mp hx
    exact .inl hk
  · exact .inr (by rwa [kindOf_setKind_of_ne _ _ h] at hx)

theorem Aligned.setWeights (ha : s.Aligned) {o : Orientation} {cs : List NodeId} {ws : List Float32}
    (hk : s.kindOf p = some (.split o cs ws)) (o' : Orientation) {ws' : List Float32}
    (hlen : ws'.length = ws.length) : (s.setKind p (.split o' cs ws')).Aligned :=
  ha.setKind p (NodeKind.aligned_split.mpr (hlen.trans (NodeKind.aligned_split.mp (ha p _ hk))))

theorem Aligned.setParentField (ha : s.Aligned) (id : NodeId) (q : Option NodeId) :
    (s.modify id fun n => { n with parent := q }).Aligned :=
  ha.of_kinds fun x k hx => .inr (by rwa [kindOf_setParentField] at hx)

theorem kindOf_setBounds (s : Store) (id x : NodeId) (r : Rect) :
    (s.setBounds id r).kindOf x = s.kindOf x := by
  by_cases h : id = x
  · subst h
    simp only [Store.setBounds, kindOf, get?_modify, if_true, Option.map_map]
    rfl
  · exact kindOf_modify_of_ne s _ h

theorem Aligned.setParent (ha : s.Aligned) {id : NodeId} {q : Option NodeId}
    (h : s.setParent id q = .ok s') : s'.Aligned := by
  unfold Store.setParent at h
  cases hn : s.node id with
  | error e => rw [hn] at h; cases h
  | ok n =>
    rw [hn] at h
    cases h
    exact ha.setParentField id q

theorem Aligned.setBounds (ha : s.Aligned) (id : NodeId) (r : Rect) :
    (s.setBounds id r).Aligned :=
  ha.of_kinds fun x k hx => .inr (by rwa [kindOf_setBounds] at hx)

theorem Aligned.fixSelection (ha : s.Aligned) (folder : NodeId) : (s.fixSelection folder).Aligned := by
  unfold Store.fixSelection
  split
  · exact ha.setKind folder rfl
  · exact ha

theorem Aligned.select (ha : s.Aligned) (child : NodeId) : (s.select child).2.Aligned := by
  unfold Store.select
  split
  · exact ha
  · split
    · exact ha
    · split
      · split
        · exact ha
        · exact ha.setKind _ rfl
      · exact ha

theorem Aligned.alloc (ha : s.Aligned) (ident : String) {k : NodeKind} (hk : k.aligned = true) :
    (s.alloc ident k).2.Aligned := by
  refine ha.of_kinds fun x k' hx => ?_
  by_cases h : x = s.nextId
  · subst h
    simp only [kindOf, get?_alloc, if_true, Node.fresh, Option.map_some, Option.some.injEq] at hx
    exact .inl (hx ▸ hk)
  · exact .inr (by rwa [kindOf_alloc_of_ne _ _ _ h] at hx)

theorem Aligned.discard (ha : s.Aligned) (id : NodeId) : (s.discard id).Aligned := by
  refine ha.of_kinds fun x k hx => .inr ?_
  by_cases h : id = x
  · subst h
    simp [kindOf, get?_discard] at hx
  · rwa [kindOf_discard_of_ne _ h] at hx

/-- A child edit that leaves the container's form and the other kinds alone keeps the table
aligned when, on a split, it leaves the split aligned. -/
theorem Aligned.of_childEdit (ha : s.Aligned) (hx : ∀ x, p ≠ x → s'.kindOf x = s.kindOf x)
    (hform : s'.form? p = s.form? p)
    (hsplit : ∀ o cs ws, s.kindOf p = some (.split o cs ws) → ∀ k, s'.kindOf p = some k →
      k.aligned = true) :
    s'.Aligned := by
  refine ha.of_kinds fun x k hk => ?_
  by_cases h : p = x
  · subst h
    refine .inl ?_
    cases hk₀ : s.kindOf p with
    | none =>
      simp [form?_eq_map_kindOf, hk, hk₀] at hform
    | some k₀ =>
      cases k₀ with
      | split o cs ws => exact hsplit o cs ws hk₀ k hk
      | _ =>
        -- the container keeps its form, which is no split
        refine NodeKind.aligned_of_form fun hf => ?_
        rw [form?_eq_map_kindOf, form?_eq_map_kindOf, hk, hk₀, Option.map_some, Option.map_some,
          Option.some.injEq, hf] at hform
        cases hform
  · exact .inr (by rwa [hx x h] at hk)

theorem Aligned.insertChild (ha : s.Aligned) {i : Nat} {w : Float32}
    (h : s.insertChild p i c w = .ok s') : s'.Aligned :=
  ha.of_childEdit (fun _ hx => kindOf_insertChild h hx) (form?_insertChild h p)
    fun o cs ws hk k hk' => by
      rw [kindOf_insertChild_split hk h] at hk'
      cases hk'
      have hlen : ws.length = cs.length := NodeKind.aligned_split.mp (ha p _ hk)
      simp only [NodeKind.aligned_split, List.length_insertIdx, if_pos (Nat.min_le_right _ _), hlen]

theorem Aligned.pushChild (ha : s.Aligned) (h : s.pushChild p c = .ok s') : s'.Aligned := by
  obtain ⟨pn, -, hi⟩ := pushChild_eq_ok h
  exact ha.insertChild hi

theorem Aligned.removeChild (ha : s.Aligned) {w : Float32} (h : s.removeChild p c = .ok (w, s')) :
    s'.Aligned :=
  ha.of_childEdit (fun _ hx => kindOf_removeChild h hx) (form?_removeChild h p)
    fun o cs ws hk k hk' => by
      obtain ⟨i, -, -, hk₂⟩ := kindOf_removeChild_split hk h
      rw [hk₂] at hk'
      cases hk'
      have hlen : ws.length = cs.length := NodeKind.aligned_split.mp (ha p _ hk)
      simp only [NodeKind.aligned_split, List.length_eraseIdx, hlen]

theorem Aligned.replaceChild (ha : s.Aligned) {old new : NodeId}
    (h : s.replaceChild p old new = .ok s') : s'.Aligned :=
  ha.of_childEdit (fun _ hx => kindOf_replaceChild h hx) (form?_replaceChild h p)
    fun o cs ws hk k hk' => by
      obtain ⟨i, -, hk₂⟩ := kindOf_replaceChild_split hk h
      rw [hk₂] at hk'
      cases hk'
      have hlen : ws.length = cs.length := NodeKind.aligned_split.mp (ha p _ hk)
      simp only [NodeKind.aligned_split, List.length_set, hlen]

theorem Aligned.free (ha : s.Aligned) (hf : s.Forest) (t : NodeId) : (s.free t).Aligned := by
  refine ha.of_kinds fun x k hx => .inr ?_
  rw [hf.kindOf_free] at hx
  split at hx
  · cases hx
  · exact hx

end Store

end Docking
