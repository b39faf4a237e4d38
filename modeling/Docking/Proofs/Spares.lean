import Docking.Proofs.Walk
/-!
# What tidying spares

Tidying climbs from a node and edits that node, the nodes above it and what is folded with
them. `Store.Spares start s s'` records what it leaves alone: every node of `s` that is not
`start` or above it is still in `s'`, with its form and the nodes it holds, and indeed with
its whole kind (a folder's selection and a split's weights included), and a node of `s'` is the
tab of a folder only if it was that folder's tab in `s`.

Moving and stacking take a node out, tidy behind it and then put it next to a node chosen
before: `Spares` is what lets them find both as they were. Each edit tidying makes spares
the node it starts from (`spares_removeChild`, `spares_replaceChild`, `spares_discard`,
`Forest.spares_free`, `Forest.spares_fold`), and a climb composes them (`Spares.trans`).
-/

namespace Docking

namespace Store

/-- What editing `start`, the nodes above it and what is folded with them leaves alone. -/
structure Spares (start : NodeId) (s s' : Store) : Prop where
  kept : ∀ x, s.contains x = true → ¬ Under s.parent? x start →
    s'.contains x = true ∧ s'.form? x = s.form? x ∧ s'.held x = s.held x
  tabs : ∀ x q, s'.parent? x = some q → s'.form? q = some .folder →
    s.parent? x = some q ∧ s.form? q = some .folder
  kinds : ∀ x, s.contains x = true → ¬ Under s.parent? x start → s'.kindOf x = s.kindOf x

variable {s s₁ s₂ s' : Store} {cur : NodeId}

theorem Spares.refl (s : Store) (cur : NodeId) : s.Spares cur s :=
  ⟨fun _ hx _ => ⟨hx, rfl, rfl⟩, fun _ _ hx hq => ⟨hx, hq⟩, fun _ _ _ => rfl⟩

/-- Sparing `cur`, then a node `next` above it whose ancestors the first edits kept, spares
`cur`. -/
theorem Spares.trans {next : NodeId} (h₁ : s.Spares cur s₁) (hnext : Under s.parent? next cur)
    (hup : ∀ x, Under s₁.parent? x next → Under s.parent? x next) (h₂ : s₁.Spares next s₂) :
    s.Spares cur s₂ := by
  refine ⟨fun x hx hu => ?_, fun x q hx hq => ?_, fun x hx hu => ?_⟩
  · obtain ⟨hx₁, hf₁, hh₁⟩ := h₁.kept x hx hu
    obtain ⟨hx₂, hf₂, hh₂⟩ := h₂.kept x hx₁ fun hu' => hu ((hup x hu').trans hnext)
    exact ⟨hx₂, hf₂.trans hf₁, hh₂.trans hh₁⟩
  · obtain ⟨hx₁, hq₁⟩ := h₂.tabs x q hx hq
    exact h₁.tabs x q hx₁ hq₁
  · have hx₁ := (h₁.kept x hx hu).1
    exact (h₂.kinds x hx₁ fun hu' => hu ((hup x hu').trans hnext)).trans (h₁.kinds x hx hu)

theorem Spares.then (h₁ : s.Spares cur s₁) (hup : ∀ x, Under s₁.parent? x cur → Under s.parent? x cur)
    (h₂ : s₁.Spares cur s₂) : s.Spares cur s₂ :=
  h₁.trans (.refl _) hup h₂

/-- Where a pass of an upward loop that edits `s` into `s'` goes on: from `next`, a container
above `cur` whose own containers the edits left as they were. -/
structure GoesUp (s s' : Store) (cur next : NodeId) : Prop where
  above : Above s.parent? next cur
  up : ∀ x, Under s'.parent? x next → Under s.parent? x next

theorem Spares.trans_goesUp {next : NodeId} (h₁ : s.Spares cur s₁) (hg : GoesUp s s₁ cur next)
    (h₂ : s₁.Spares next s₂) : s.Spares cur s₂ :=
  h₁.trans (.inr hg.above) hg.up h₂

theorem GoesUp.shallower {next : NodeId} (hg : GoesUp s s' cur next) (hf' : s'.Forest) :
    s.Shallower s' cur next := by
  refine ⟨fun x hx => ?_, ⟨next, hg.above, hf'.not_above_self next⟩⟩
  rcases hg.up x (.inr hx) with rfl | hx
  · exact hg.above
  · exact hx.trans hg.above

/-- Below a node whose subtree lies off the path of the edits, the nodes are those that were
below it before. -/
theorem Spares.above (h : s.Spares cur s') (hf : s.Forest) (hf' : s'.Forest) {a : NodeId}
    (ha : s.contains a = true) (hoff : ∀ m, Under s.parent? a m → ¬ Under s.parent? m cur)
    {n : NodeId} (hn : Above s'.parent? a n) : Above s.parent? a n := by
  induction hn with
  | @parent n hn =>
    obtain ⟨-, -, hheld⟩ := h.kept a ha (hoff a (.refl _))
    have hmem : n ∈ s.held a := by
      rw [← hheld]
      exact hf'.mem_held_iff.mpr hn
    exact .parent (hf.mem_held_iff.mp hmem)
  | @up n m hn _ ih =>
    -- `m` is below `a` before the edits, so it kept the nodes it holds
    obtain ⟨q, hq⟩ := ih.exists_parent
    obtain ⟨-, -, hheld⟩ := h.kept m (contains_of_parent? hq) (hoff m (.inr ih))
    have hmem : n ∈ s.held m := by
      rw [← hheld]
      exact hf'.mem_held_iff.mpr hn
    exact .up (hf.mem_held_iff.mp hmem) ih

theorem cut_removeChild {p c : NodeId} {w : Float32} (h : s.removeChild p c = .ok (w, s')) :
    ∀ x, s'.parent? x = s.parent? x ∨ s'.parent? x = none := fun x => by
  rw [parent?_removeChild h]
  split
  · exact .inr rfl
  · exact .inl rfl

theorem cut_discard (y : NodeId) :
    ∀ x, (s.discard y).parent? x = s.parent? x ∨ (s.discard y).parent? x = none := fun x => by
  rw [parent?_discard]
  split
  · exact .inr rfl
  · exact .inl rfl

theorem cut_alloc (ident : String) (kind : NodeKind) :
    ∀ x, (s.alloc ident kind).2.parent? x = s.parent? x ∨ (s.alloc ident kind).2.parent? x = none :=
  fun x => by
  rw [parent?_alloc]
  split
  · exact .inr rfl
  · exact .inl rfl

theorem Forest.cut_free (hf : s.Forest) (t : NodeId) :
    ∀ x, (s.free t).parent? x = s.parent? x ∨ (s.free t).parent? x = none := fun x => by
  rw [hf.parent?_free]
  split
  · exact .inr rfl
  · exact .inl rfl

theorem spares_removeChild {p c : NodeId} {w : Float32} (h : s.removeChild p c = .ok (w, s'))
    (hp : Under s.parent? p cur) : s.Spares cur s' := by
  refine ⟨fun x hx hu => ⟨?_, form?_removeChild h x, ?_⟩, fun x q hx hq => ?_,
    fun x _ hu => kindOf_removeChild h fun he => hu (he ▸ hp)⟩
  · rw [contains_removeChild h]
    exact hx
  · rw [held_removeChild h, if_neg]
    rintro rfl
    exact hu hp
  · rw [parent?_removeChild h] at hx
    split at hx
    · cases hx
    · exact ⟨hx, (form?_removeChild h q).symm.trans hq⟩

/-- Putting a node into the slot of another spares the nodes off the path, when the container
is on it and is no folder. -/
theorem spares_replaceChild {p old new : NodeId} (h : s.replaceChild p old new = .ok s')
    (hp : Under s.parent? p cur) (hpf : s.form? p ≠ some .folder) : s.Spares cur s' := by
  refine ⟨fun x hx hu => ⟨?_, form?_replaceChild h x, ?_⟩, fun x q hx hq => ?_,
    fun x _ hu => kindOf_replaceChild h fun he => hu (he ▸ hp)⟩
  · rw [contains_replaceChild h]
    exact hx
  · rw [held_replaceChild h, if_neg]
    rintro rfl
    exact hu hp
  · rw [form?_replaceChild h] at hq
    rw [parent?_replaceChild h] at hx
    split at hx
    · cases hx
      exact absurd hq hpf
    · split at hx
      · cases hx
      · exact ⟨hx, hq⟩

theorem spares_discard {y : NodeId} (hy : Under s.parent? y cur) : s.Spares cur (s.discard y) := by
  refine ⟨fun x hx hu => ?_, fun x q hx hq => ?_,
    fun x _ hu => kindOf_discard_of_ne s fun he => hu (he ▸ hy)⟩
  · have hne : y ≠ x := by
      rintro rfl
      exact hu hy
    refine ⟨?_, by rw [form?_discard, if_neg hne], by rw [held_discard, if_neg hne]⟩
    rw [contains_iff_form?, form?_discard, if_neg hne, ← contains_iff_form?]
    exact hx
  · rw [parent?_discard] at hx
    rw [form?_discard] at hq
    split at hx
    · cases hx
    split at hq
    · cases hq
    exact ⟨hx, hq⟩

/-- Freeing a subtree that lies on the path spares the nodes off it. -/
theorem Forest.spares_free (hf : s.Forest) {t : NodeId}
    (ht : ∀ y, Under s.parent? t y → Under s.parent? y cur) : s.Spares cur (s.free t) := by
  refine ⟨fun x hx hu => ?_, fun x q hx hq => ?_,
    fun x _ hu => by rw [hf.kindOf_free, if_neg fun h => hu (ht x h)]⟩
  · have hnt : ¬ Under s.parent? t x := fun h => hu (ht x h)
    refine ⟨?_, by rw [hf.form?_free, if_neg hnt], by rw [hf.held_free, if_neg hnt]⟩
    rw [hf.contains_free]
    simp [hnt, hx]
  · rw [hf.parent?_free] at hx
    rw [hf.form?_free] at hq
    split at hx
    · cases hx
    split at hq
    · cases hq
    exact ⟨hx, hq⟩

/-- Folding `cur` behind a new collapsed node spares `cur`, when its container is no folder. -/
theorem Forest.spares_fold (hf : s.Forest) {ident : String} {p : NodeId} {s₃ : Store}
    (hcur : s.parent? cur = some p) (hpf : s.form? p ≠ some .folder)
    (h₂ : (s.alloc ident (.collapsed cur)).2.replaceChild p cur s.nextId = .ok s₂)
    (h₃ : s₂.setParent cur (some s.nextId) = .ok s₃) : s.Spares cur s₃ := by
  have hne : ∀ {x}, s.contains x = true → x ≠ s.nextId := fun hx =>
    ne_nextId_of_get? ((contains_iff _ _).mp hx).choose_spec
  have hpn : p ≠ s.nextId := hne (hf.contains_of_parent hcur)
  have hoff : ∀ {x}, ¬ Under s.parent? x cur → x ≠ p := fun hu he => hu (he ▸ .inr (.parent hcur))
  refine ⟨fun x hx hu => ?_, fun x q hx hq => ?_, fun x hx hu => ?_⟩
  · have hxp : x ≠ p := hoff hu
    refine ⟨(contains_fold h₂ h₃ x).mpr (.inr hx), ?_, ?_⟩
    · rw [form?_fold h₂ h₃, if_neg (hne hx)]
    · rw [hf.held_fold hcur h₂ h₃, if_neg hxp, if_neg (hne hx)]
  · rw [parent?_fold hcur h₂ h₃] at hx
    rw [form?_fold h₂ h₃] at hq
    split at hx
    · -- the new node is collapsed, no folder
      cases hx
      rw [if_pos rfl] at hq
      cases hq
    split at hx
    · cases hx
      rw [if_neg hpn] at hq
      exact absurd hq hpf
    split at hq
    · cases hq
    exact ⟨hx, hq⟩
  · -- the fold edits the container's kind and the link of `cur`
    obtain ⟨-, rfl⟩ := setParent_eq_ok h₃
    rw [kindOf_setParentField, kindOf_replaceChild h₂ (hoff hu).symm,
      kindOf_alloc_of_ne _ _ _ (hne hx)]

end Store

end Docking
