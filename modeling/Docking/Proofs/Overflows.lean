import Docking.Drop.Gesture
/-!
# Where checked arithmetic stops a drop

The zone of a drop measures the pointer from the target's origin in a checked signed 32-bit
word, and the policy computes the zone for every node of the source's own window before it
looks at what the node is. So the policy decides every drop but those whose target is a node of
the source's window with a nonempty rectangle, with a pointer coordinate further below the
rectangle's origin than the word reaches (`DropQuery.ZoneOverflows`); those stop with a
subtraction overflow (`DropQuery.decide_eq_error_iff`). A pointer no lower than `65535` above the
bottom of the word always gets a decision (`DropQuery.decides_of_pointer`).
-/

namespace Docking

theorem offset32_eq_error_iff {p : Int32} {origin : UInt16} {e : Overflow} :
    offset32 p origin = .error e ↔ e = .subtract ∧ p.toInt - origin.toNat < int32Min := by
  unfold offset32
  dsimp only
  split
  · next h =>
    constructor
    · intro he
      exact ⟨(Except.error.inj he).symm, h⟩
    · rintro ⟨rfl, -⟩
      rfl
  · next h =>
    constructor
    · intro he
      cases he
    · rintro ⟨-, hlt⟩
      exact absurd hlt h

/-- The zone of a pointer over a rectangle stops exactly when the rectangle is not empty and a
coordinate of the pointer lies further below the rectangle's origin than the word reaches. -/
theorem dropZone_eq_error_iff {r : Rect} {x y : Int32} {e : Overflow} :
    dropZone r x y = .error e ↔ e = .subtract ∧ r.width ≠ 0 ∧ r.height ≠ 0 ∧
      (x.toInt - r.x.toNat < int32Min ∨ y.toInt - r.y.toNat < int32Min) := by
  unfold dropZone
  split
  · next h =>
    constructor
    · intro he
      cases he
    · rintro ⟨-, hw, hh, -⟩
      exact absurd h (not_or.mpr ⟨hw, hh⟩)
  · next h =>
    obtain ⟨hw, hh⟩ := not_or.mp h
    -- the horizontal offset is computed first, and its overflow wins
    cases hx : offset32 x r.x with
    | error ex =>
      obtain ⟨rfl, hlt⟩ := offset32_eq_error_iff.mp hx
      constructor
      · intro he
        exact ⟨(Except.error.inj he).symm, hw, hh, .inl hlt⟩
      · rintro ⟨rfl, -⟩
        rfl
    | ok dx =>
      have hxok : ¬ x.toInt - r.x.toNat < int32Min := fun hlt => by
        cases hx.symm.trans (offset32_eq_error_iff.mpr ⟨rfl, hlt⟩)
      cases hy : offset32 y r.y with
      | error ey =>
        obtain ⟨rfl, hlt⟩ := offset32_eq_error_iff.mp hy
        constructor
        · intro he
          exact ⟨(Except.error.inj he).symm, hw, hh, .inr hlt⟩
        · rintro ⟨rfl, -⟩
          rfl
      | ok dy =>
        have hyok : ¬ y.toInt - r.y.toNat < int32Min := fun hlt => by
          cases hy.symm.trans (offset32_eq_error_iff.mpr ⟨rfl, hlt⟩)
        constructor
        · intro he
          cases he
        · rintro ⟨-, -, -, hlt⟩
          exact absurd hlt (not_or.mpr ⟨hxok, hyok⟩)

/-- The drop's target is a node of the source's window with a nonempty rectangle, and a
coordinate of the pointer lies further below the rectangle's origin than a signed 32-bit word
reaches. -/
def DropQuery.ZoneOverflows (q : DropQuery) : Prop :=
  ∃ n role b, q.target = .node n q.source.window role b ∧ b.width ≠ 0 ∧ b.height ≠ 0 ∧
    (q.pointer.1.toInt - b.x.toNat < int32Min ∨ q.pointer.2.toInt - b.y.toNat < int32Min)

theorem DropQuery.decide_of_node (q : DropQuery) {n : NodeId} {role : TargetRole} {b : Rect}
    (h : q.target = .node n q.source.window role b) :
    q.decide = dropZone b q.pointer.1 q.pointer.2 >>= fun zone =>
      pure (q.onNode n q.source.window role zone) := by
  unfold DropQuery.decide
  rw [h]
  simp

/-- Every other target gets a decision with no arithmetic at all. -/
theorem DropQuery.decide_of_not_node (q : DropQuery)
    (h : ∀ n role b, q.target ≠ .node n q.source.window role b) : ∃ d, q.decide = .ok d := by
  unfold DropQuery.decide
  split
  · exact ⟨_, rfl⟩
  · exact ⟨_, rfl⟩
  · next n w role b ht =>
    have hw : w ≠ q.source.window := fun hw => h n role b (hw ▸ ht)
    rw [if_pos (by simpa using hw)]
    exact ⟨_, rfl⟩

/-- The drop policy stops, with a subtraction overflow, exactly on the drops whose zone leaves
the word; every other drop gets a decision. -/
theorem DropQuery.decide_eq_error_iff (q : DropQuery) (e : Overflow) :
    q.decide = .error e ↔ e = .subtract ∧ q.ZoneOverflows := by
  constructor
  · intro he
    by_cases hn : ∃ n role b, q.target = .node n q.source.window role b
    · obtain ⟨n, role, b, hn⟩ := hn
      rw [q.decide_of_node hn] at he
      -- the zone is the only step that can stop
      cases hz : dropZone b q.pointer.1 q.pointer.2 with
      | error ez =>
        rw [hz] at he
        cases he
        obtain ⟨rfl, hzw, hzh, hlt⟩ := dropZone_eq_error_iff.mp hz
        exact ⟨rfl, n, role, b, hn, hzw, hzh, hlt⟩
      | ok zone =>
        rw [hz] at he
        cases he
    · obtain ⟨d, hd⟩ := q.decide_of_not_node fun n role b h => hn ⟨n, role, b, h⟩
      cases hd.symm.trans he
  · rintro ⟨rfl, n, role, b, hn, hw, hh, hlt⟩
    rw [q.decide_of_node hn, dropZone_eq_error_iff.mpr ⟨rfl, hw, hh, hlt⟩]
    rfl

theorem DropQuery.decides_iff (q : DropQuery) : (∃ d, q.decide = .ok d) ↔ ¬ q.ZoneOverflows := by
  constructor
  · rintro ⟨d, hd⟩ ho
    cases hd.symm.trans ((q.decide_eq_error_iff .subtract).mpr ⟨rfl, ho⟩)
  · intro ho
    cases hq : q.decide with
    | ok d => exact ⟨d, rfl⟩
    | error e => exact absurd ((q.decide_eq_error_iff e).mp hq).2 ho

/-- A pointer no lower than `65535` above the bottom of the word always gets a decision: no
rectangle's origin lies further up than that. -/
theorem DropQuery.decides_of_pointer (q : DropQuery) (hx : int32Min + 65535 ≤ q.pointer.1.toInt)
    (hy : int32Min + 65535 ≤ q.pointer.2.toInt) : ∃ d, q.decide = .ok d := by
  rw [q.decides_iff]
  rintro ⟨n, role, b, -, -, -, hlt⟩
  have hbx : b.x.toNat < 65536 := b.x.toNat_lt
  have hby : b.y.toNat < 65536 := b.y.toNat_lt
  omega

end Docking
