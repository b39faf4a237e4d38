import Docking.Proofs.Forest
import Mathlib.Data.List.Nodup
import Mathlib.Data.List.Flatten
/-!
# Bounded walks over a forest

The walks of the node table climb or descend at most `Store.depthBound` levels, one more
than the table has slots. In a forest that bound is never reached: a climb from a node
visits distinct nodes, all of them in the table, so it ends within as many steps as the
table has slots. This module proves it and reads the bounded walks back as relations:

* `Forest.isAncestor_iff`: `isAncestor a n` holds exactly when `a` is above `n`;
* `Forest.mem_walk_iff`: the walk from `t` into collapsed containers lists exactly the nodes
  under `t`, each once (`Forest.nodup_walkFrom`);
* `Forest.get?_free`: freeing `t` drops exactly the nodes under `t`, and `Forest.free` keeps
  the table a forest when `t` has no container.
-/

namespace Docking

namespace Store

/-- The containers met climbing from `n`, nearest first, at most `fuel` of them. -/
def ancestorsFrom (s : Store) : Nat → NodeId → List NodeId
  | 0, _ => []
  | k + 1, n =>
    match s.parent? n with
    | none => []
    | some p => p :: s.ancestorsFrom k p

/-- The number of containers above `x`, found climbing: how far `x` lies from the root of its
window. -/
def depth (s : Store) (x : NodeId) : Nat := (s.ancestorsFrom s.slots.size x).length

variable {s : Store}

/-- Where an upward loop goes on from `next` of `s'` after standing at `cur` of `s`, it stands
closer to the root: every container of `next` was one of `cur`, and one of `cur`'s is not one
of `next`'s. -/
structure Shallower (s s' : Store) (cur next : NodeId) : Prop where
  above : ∀ x, Above s'.parent? x next → Above s.parent? x cur
  drops : ∃ a, Above s.parent? a cur ∧ ¬ Above s'.parent? a next

theorem Shallower.of_parent {cur p : NodeId} (hp : s.parent? cur = some p)
    (hnot : ¬ Above s.parent? p p) : s.Shallower s cur p :=
  ⟨fun _ hx => hx.trans (.parent hp), ⟨p, .parent hp, hnot⟩⟩

theorem ancestorsFrom_succ_of_parent {k : Nat} {n p : NodeId} (h : s.parent? n = some p) :
    s.ancestorsFrom (k + 1) n = p :: s.ancestorsFrom k p := by
  simp [ancestorsFrom, h]

theorem ancestorsFrom_of_top {k : Nat} {n : NodeId} (h : s.parent? n = none) :
    s.ancestorsFrom k n = [] := by
  cases k <;> simp [ancestorsFrom, h]

/-- The bounded ancestor test looks through the list of containers met climbing. -/
theorem meets_parent? (a : NodeId) (k : Nat) (n : NodeId) :
    s.meets a k (s.parent? n) = (s.ancestorsFrom k n).contains a := by
  induction k generalizing n with
  | zero => cases s.parent? n <;> rfl
  | succ k ih =>
    cases hp : s.parent? n with
    | none => simp [meets, ancestorsFrom_of_top hp]
    | some p =>
      rw [ancestorsFrom_succ_of_parent hp, meets, ih, List.contains_cons]
      by_cases hpa : p = a
      · subst hpa
        simp
      · have h₁ : (p == a) = false := beq_eq_false_iff_ne.mpr hpa
        have h₂ : (a == p) = false := beq_eq_false_iff_ne.mpr (Ne.symm hpa)
        rw [h₁, h₂]

theorem above_of_mem_ancestorsFrom {k : Nat} {a n : NodeId} (h : a ∈ s.ancestorsFrom k n) :
    Above s.parent? a n := by
  induction k generalizing n with
  | zero => simp [ancestorsFrom] at h
  | succ k ih =>
    cases hp : s.parent? n with
    | none => simp [ancestorsFrom_of_top hp] at h
    | some p =>
      rw [ancestorsFrom_succ_of_parent hp, List.mem_cons] at h
      rcases h with rfl | h
      · exact .parent hp
      · exact .up hp (ih h)

theorem mem_ancestorsFrom_of_above {a n : NodeId} (h : Above s.parent? a n) :
    ∃ k, a ∈ s.ancestorsFrom k n := by
  induction h with
  | parent hp => exact ⟨1, by simp [ancestorsFrom_succ_of_parent hp]⟩
  | up hp _ ih =>
    obtain ⟨k, hk⟩ := ih
    exact ⟨k + 1, by simp [ancestorsFrom_succ_of_parent hp, hk]⟩

theorem ancestorsFrom_prefix_of_le {k k' : Nat} (hk : k ≤ k') (n : NodeId) :
    s.ancestorsFrom k n <+: s.ancestorsFrom k' n := by
  induction k generalizing k' n with
  | zero => exact List.nil_prefix
  | succ k ih =>
    obtain ⟨k', rfl⟩ : ∃ j, k' = j + 1 := ⟨k' - 1, by omega⟩
    cases hp : s.parent? n with
    | none => simp [ancestorsFrom_of_top hp]
    | some p =>
      rw [ancestorsFrom_succ_of_parent hp, ancestorsFrom_succ_of_parent hp]
      exact List.cons_prefix_cons.mpr ⟨rfl, ih (by omega) p⟩

/-- A climb that stopped before its bound ended at a node without a container: more fuel
finds nothing more. -/
theorem ancestorsFrom_stable {k k' : Nat} {n : NodeId} (hlen : (s.ancestorsFrom k n).length < k)
    (hk : k ≤ k') : s.ancestorsFrom k' n = s.ancestorsFrom k n := by
  induction k generalizing k' n with
  | zero => simp at hlen
  | succ k ih =>
    obtain ⟨k', rfl⟩ : ∃ j, k' = j + 1 := ⟨k' - 1, by omega⟩
    cases hp : s.parent? n with
    | none => simp [ancestorsFrom_of_top hp]
    | some p =>
      rw [ancestorsFrom_succ_of_parent hp] at hlen
      rw [ancestorsFrom_succ_of_parent hp, ancestorsFrom_succ_of_parent hp,
        ih (by simpa using hlen) (by omega)]

theorem mem_walkFrom_self {k : Nat} {x : NodeId} (hx : s.contains x = true) :
    x ∈ s.walkFrom true (k + 1) x := by
  obtain ⟨xn, hxn⟩ := (contains_iff s x).mp hx
  simp [walkFrom, hxn]

/-- A node the walk reaches has its held nodes reached one level deeper. -/
theorem mem_walkFrom_of_held {k : Nat} {t y c : NodeId} (hy : y ∈ s.walkFrom true k t)
    (hc : c ∈ s.held y) (hcc : s.contains c = true) : c ∈ s.walkFrom true (k + 1) t := by
  induction k generalizing t with
  | zero => simp [walkFrom] at hy
  | succ k ih =>
    cases ht : s.get? t with
    | none => simp [walkFrom, ht] at hy
    | some tn =>
      simp only [walkFrom, ht, List.mem_cons, List.mem_flatMap] at hy ⊢
      rcases hy with rfl | ⟨c', hc', hy⟩
      · rw [held_of_get? ht] at hc
        exact .inr ⟨c, hc, mem_walkFrom_self hcc⟩
      · exact .inr ⟨c', hc', ih hy⟩

theorem mem_walkChildren_true {b : Bool} {k : NodeKind} {c : NodeId}
    (h : c ∈ walkChildren b k) : c ∈ walkChildren true k := by
  cases k <;> cases b <;> simp_all [walkChildren]

/-- A walk that stays out of collapsed containers meets part of what one that enters them
meets. -/
theorem walkFrom_false_sublist :
    ∀ (k : Nat) (x : NodeId), List.Sublist (s.walkFrom false k x) (s.walkFrom true k x)
  | 0, _ => List.nil_sublist _
  | k + 1, x => by
    cases hx : s.get? x with
    | none => simp [walkFrom, hx]
    | some n =>
      simp only [walkFrom, hx]
      refine List.Sublist.cons_cons _ ?_
      have hchildren : List.Sublist (walkChildren false n.kind) (walkChildren true n.kind) := by
        cases n.kind <;> simp [walkChildren]
      exact (List.Sublist.flatMap_right _ fun c _ => walkFrom_false_sublist k c).trans
        (hchildren.flatMap _)

section Forest

variable (hf : s.Forest)
include hf

theorem Forest.nodup_ancestorsFrom (k : Nat) (n : NodeId) : (n :: s.ancestorsFrom k n).Nodup := by
  induction k generalizing n with
  | zero => simp [ancestorsFrom]
  | succ k ih =>
    cases hp : s.parent? n with
    | none => simp [ancestorsFrom_of_top hp]
    | some p =>
      rw [ancestorsFrom_succ_of_parent hp, List.nodup_cons]
      refine ⟨?_, ih p⟩
      rw [List.mem_cons]
      rintro (rfl | hn)
      · exact hf.not_above_self n (.parent hp)
      · exact hf.not_above_self n ((above_of_mem_ancestorsFrom hn).trans (.parent hp))

/-- A climb from a node of the table meets fewer containers than the table has slots. -/
theorem Forest.length_ancestorsFrom_lt (k : Nat) {n : NodeId} (hn : s.contains n = true) :
    (s.ancestorsFrom k n).length < s.slots.size := by
  have hnd : ((n :: s.ancestorsFrom k n).map (·.val)).Nodup :=
    (hf.nodup_ancestorsFrom k n).map (fun a b h => val_eq_iff.mp h)
  have hsub : (n :: s.ancestorsFrom k n).map (·.val) ⊆ List.range s.slots.size := by
    intro v hv
    obtain ⟨x, hx, rfl⟩ := List.mem_map.mp hv
    have hxc : s.contains x = true := by
      rcases List.mem_cons.mp hx with rfl | hx
      · exact hn
      · obtain ⟨c, hc⟩ := (above_of_mem_ancestorsFrom hx).exists_child
        exact hf.contains_of_parent hc
    obtain ⟨xn, hxn⟩ := (contains_iff s x).mp hxc
    exact List.mem_range.mpr (lt_size_of_get? hxn)
  have := hnd.length_le_of_subset hsub
  simp at this
  omega

theorem Forest.mem_ancestorsFrom_iff {a n : NodeId} :
    a ∈ s.ancestorsFrom s.slots.size n ↔ Above s.parent? a n := by
  refine ⟨above_of_mem_ancestorsFrom, fun h => ?_⟩
  obtain ⟨m, hm⟩ := h.exists_parent
  have hn : s.contains n = true := contains_of_parent? hm
  obtain ⟨k, hk⟩ := mem_ancestorsFrom_of_above h
  have hlen := hf.length_ancestorsFrom_lt s.slots.size hn
  by_cases hks : k ≤ s.slots.size
  · exact (ancestorsFrom_prefix_of_le hks n).subset hk
  · rwa [← ancestorsFrom_stable hlen (by omega : s.slots.size ≤ k)]

/-- The bounded ancestor test is the ancestor relation. -/
theorem Forest.isAncestor_iff {a n : NodeId} : s.isAncestor a n = true ↔ Above s.parent? a n := by
  rw [isAncestor, meets_parent?, List.contains_iff_mem, ← hf.mem_ancestorsFrom_iff]
  cases hp : s.parent? n with
  | none => simp [ancestorsFrom_of_top hp]
  | some m =>
    have hlen := hf.length_ancestorsFrom_lt s.slots.size (contains_of_parent? hp)
    rw [depthBound, ancestorsFrom_stable hlen (by omega)]

/-- A node of a forest `s'` lies closer to its root than a node of a forest `s` when it is
`Shallower`: its containers are among those of the other, one of them missing. -/
theorem Forest.depth_lt {s' : Store} (hf' : s'.Forest) {cur next : NodeId}
    (h : s.Shallower s' cur next) : s'.depth next < s.depth cur := by
  obtain ⟨a, ha, hna⟩ := h.drops
  have hmem : a ∈ s.ancestorsFrom s.slots.size cur := hf.mem_ancestorsFrom_iff.mpr ha
  have hsub : s'.ancestorsFrom s'.slots.size next ⊆ (s.ancestorsFrom s.slots.size cur).erase a := by
    intro x hx
    have hxa : Above s'.parent? x next := hf'.mem_ancestorsFrom_iff.mp hx
    exact (List.mem_erase_of_ne fun (he : x = a) => hna (he ▸ hxa)).mpr
      (hf.mem_ancestorsFrom_iff.mpr (h.above x hxa))
  have hlen := (List.nodup_cons.mp (hf'.nodup_ancestorsFrom _ next)).2.length_le_of_subset hsub
  rw [List.length_erase_of_mem hmem] at hlen
  have hpos := List.length_pos_of_mem hmem
  unfold depth
  omega

/-- Giving a collapsed node's slot back to the node it folds brings that node closer to the
root. -/
theorem Forest.shallower_unfold {cur hold grand : NodeId} {s₁ : Store}
    (hcur : s.parent? cur = some hold) (hform : s.form? hold = some .collapsed)
    (hg : s.parent? hold = some grand) (h₁ : s.replaceChild grand hold cur = .ok s₁) :
    s.Shallower (s₁.discard hold) cur cur := by
  refine ⟨fun x hx => above_of_shortcut (fun y m hy => ?_) hx, ⟨hold, .parent hcur, fun ha => ?_⟩⟩
  · -- the only new link takes `cur` straight to `grand`, which was above it
    rw [parent?_unfold h₁] at hy
    split at hy
    · cases hy
    split at hy
    · next hyc =>
      cases hy
      rw [hyc]
      exact .up hcur (.parent hg)
    · exact .parent hy
  · obtain ⟨c, hc⟩ := ha.exists_child
    exact ((contains_unfold h₁ hold).mp ((hf.unfold hcur hform hg h₁).contains_of_parent hc)).1 rfl

/-! ### Walking down -/

theorem Forest.mem_walkFrom {b : Bool} {k : Nat} {t x : NodeId} (h : x ∈ s.walkFrom b k t) :
    s.contains x = true ∧ Under s.parent? t x := by
  induction k generalizing t with
  | zero => simp [walkFrom] at h
  | succ k ih =>
    cases ht : s.get? t with
    | none => simp [walkFrom, ht] at h
    | some tn =>
      simp only [walkFrom, ht, List.mem_cons, List.mem_flatMap] at h
      rcases h with rfl | ⟨c, hc, hx⟩
      · exact ⟨(contains_iff s x).mpr ⟨tn, ht⟩, .refl _⟩
      · have hct : c ∈ s.held t := by rw [held_of_get? ht]; exact mem_walkChildren_true hc
        obtain ⟨hxc, hu⟩ := ih hx
        exact ⟨hxc, (Under.of_above (hf.above_of_mem_held hct)).trans hu⟩

theorem Forest.mem_walkFrom_of_ancestor {k : Nat} {t x : NodeId} (hx : s.contains x = true)
    (h : t ∈ s.ancestorsFrom k x) : x ∈ s.walkFrom true (k + 1) t := by
  induction k generalizing x with
  | zero => simp [ancestorsFrom] at h
  | succ k ih =>
    cases hp : s.parent? x with
    | none => simp [ancestorsFrom_of_top hp] at h
    | some p =>
      rw [ancestorsFrom_succ_of_parent hp, List.mem_cons] at h
      have hpc : s.contains p = true := hf.contains_of_parent hp
      have hxp : x ∈ s.held p := hf.mem_held_iff.mpr hp
      rcases h with rfl | h
      · obtain ⟨tn, htn⟩ := (contains_iff s t).mp hpc
        rw [held_of_get? htn] at hxp
        simp only [walkFrom, htn, List.mem_cons, List.mem_flatMap]
        exact .inr ⟨x, hxp, mem_walkFrom_self hx⟩
      · exact mem_walkFrom_of_held (ih hpc h) hxp hx

/-- Two children of one container have no node under both. -/
theorem Forest.eq_of_under_siblings {p c₁ c₂ x : NodeId} (h₁ : s.parent? c₁ = some p)
    (h₂ : s.parent? c₂ = some p) (hx₁ : Under s.parent? c₁ x) (hx₂ : Under s.parent? c₂ x) :
    c₁ = c₂ := by
  rcases under_total hx₁ hx₂ with (he | ha) | (he | ha)
  · exact he
  · rcases ha.step h₂ with rfl | ha
    · exact absurd (.parent h₁) (hf.not_above_self c₁)
    · exact absurd (ha.trans (.parent h₁)) (hf.not_above_self c₁)
  · exact he.symm
  · rcases ha.step h₁ with rfl | ha
    · exact absurd (.parent h₂) (hf.not_above_self c₂)
    · exact absurd (ha.trans (.parent h₂)) (hf.not_above_self c₂)

/-- A bounded walk over a forest visits each node once. -/
theorem Forest.nodup_walkFrom (k : Nat) (t : NodeId) : (s.walkFrom true k t).Nodup := by
  induction k generalizing t with
  | zero => simp [walkFrom]
  | succ k ih =>
    cases ht : s.get? t with
    | none => simp [walkFrom, ht]
    | some tn =>
      have hcs : ∀ c ∈ walkChildren true tn.kind, s.parent? c = some t := fun c hc =>
        hf.held_parent (by rwa [held_of_get? ht])
      simp only [walkFrom, ht, List.nodup_cons, List.mem_flatMap, not_exists, not_and]
      refine ⟨fun c hc ht' => ?_, List.nodup_flatMap.mpr ⟨fun c _ => ih c, ?_⟩⟩
      · obtain ⟨-, hu⟩ := hf.mem_walkFrom ht'
        exact hf.not_above_self c (hu.of_parent (hcs c hc))
      · have hnd : (walkChildren true tn.kind).Nodup := by
          simpa [held_of_get? ht] using hf.held_nodup t
        refine hnd.pairwise_of_forall_ne fun c₁ hc₁ c₂ hc₂ hne => ?_
        exact List.disjoint_left.mpr fun {x} hx₁ hx₂ => hne
          (hf.eq_of_under_siblings (hcs c₁ hc₁) (hcs c₂ hc₂) (hf.mem_walkFrom hx₁).2
            (hf.mem_walkFrom hx₂).2)

theorem Forest.length_ancestors_child {c t : NodeId}
    (hc : s.parent? c = some t) :
    (s.ancestorsFrom s.slots.size c).length = (s.ancestorsFrom s.slots.size t).length + 1 := by
  have hlen := hf.length_ancestorsFrom_lt s.slots.size (contains_of_parent? hc)
  obtain ⟨N, hN⟩ : ∃ N, s.slots.size = N + 1 := ⟨s.slots.size - 1, by omega⟩
  rw [hN, ancestorsFrom_succ_of_parent hc] at hlen ⊢
  rw [List.length_cons, ancestorsFrom_stable (by simpa using hlen) (Nat.le_succ N)]

/-- A walk from a node with enough containers above it meets all it can meet: more fuel
changes nothing. -/
theorem Forest.walkFrom_succ_of_deep (b : Bool) :
    ∀ (k : Nat) (t : NodeId), s.slots.size ≤ (s.ancestorsFrom s.slots.size t).length + k →
      s.walkFrom b (k + 1) t = s.walkFrom b k t := by
  intro k
  induction k with
  | zero =>
    intro t ht
    cases htn : s.get? t with
    | none => simp [walkFrom, htn]
    | some tn =>
      have := hf.length_ancestorsFrom_lt s.slots.size ((contains_iff s t).mpr ⟨tn, htn⟩)
      omega
  | succ k ih =>
    intro t ht
    cases htn : s.get? t with
    | none => simp [walkFrom, htn]
    | some tn =>
      simp only [walkFrom, htn]
      congr 1
      refine List.flatMap_congr fun c hc => ih c ?_
      -- each child lies one level deeper, so its walk has one level of fuel fewer to spare
      have hct : s.parent? c = some t :=
        hf.held_parent (by rw [held_of_get? htn]; exact mem_walkChildren_true hc)
      rw [hf.length_ancestors_child hct]
      omega

/-! ### The walk with a stack of handles

`walk` keeps the handles still to visit on a stack, each visited node pushing its children in
front of the rest. Over a forest it lists what the recursive walk lists: a handle popped from
the stack is followed by everything under it before the stack below it is reached. The stack
walk pops one handle a step, so its fuel must cover the nodes it lists and the handles it
finds empty; in a forest every child has a node, so only the handles it starts from can be
empty. -/

theorem Forest.walkFrom_depthBound (b : Bool) (t : NodeId) :
    s.walkFrom b s.depthBound t = s.walkFrom b s.slots.size t :=
  hf.walkFrom_succ_of_deep b _ t (Nat.le_add_left _ _)

theorem Forest.walkFrom_depthBound_of_get? {b : Bool} {t : NodeId} {n : Node}
    (ht : s.get? t = some n) :
    s.walkFrom b s.depthBound t =
      t :: (walkChildren b n.kind).flatMap (s.walkFrom b s.depthBound) := by
  conv_lhs => rw [show s.depthBound = s.slots.size + 1 from rfl]
  simp only [walkFrom, ht]
  congr 1
  exact List.flatMap_congr fun c _ => (hf.walkFrom_depthBound b c).symm

/-- Over a forest the walk with a stack lists the full recursive walks of its handles in
order, given fuel for one step per node listed and per handle without a node. -/
theorem Forest.walkStack_eq (b : Bool) :
    ∀ (fuel : Nat) (stack : List NodeId),
      (stack.flatMap (s.walkFrom b s.depthBound)).length +
          stack.countP (fun x => !s.contains x) ≤ fuel →
        s.walkStack b fuel stack = stack.flatMap (s.walkFrom b s.depthBound) := by
  intro fuel
  induction fuel with
  | zero =>
    intro stack hcost
    cases stack with
    | nil => rfl
    | cons t rest =>
      -- the handle on top costs a step whether or not it has a node
      cases ht : s.get? t with
      | none => simp [contains, ht] at hcost
      | some n => simp [hf.walkFrom_depthBound_of_get? ht] at hcost
  | succ fuel ih =>
    intro stack hcost
    cases stack with
    | nil => rfl
    | cons t rest =>
      cases ht : s.get? t with
      | none =>
        have hw : s.walkFrom b s.depthBound t = [] := by simp [depthBound, walkFrom, ht]
        have hc : s.contains t = false := by simp [contains, ht]
        simp only [walkStack, ht, List.flatMap_cons, hw, List.nil_append]
        refine ih rest ?_
        simp only [List.flatMap_cons, hw, List.nil_append, List.countP_cons, hc, Bool.not_false,
          if_true] at hcost
        omega
      | some n =>
        have hcs : ∀ c ∈ walkChildren b n.kind, s.contains c = true := fun c hc =>
          contains_of_parent? (hf.held_parent (by rw [held_of_get? ht]; exact mem_walkChildren_true hc))
        have hfull : (walkChildren b n.kind).countP (fun x => !s.contains x) = 0 :=
          List.countP_eq_zero.mpr fun c hc => by simp [hcs c hc]
        have hc : s.contains t = true := by simp [contains, ht]
        -- the node is listed and its children take its place on the stack
        have hcost' : ((walkChildren b n.kind ++ rest).flatMap (s.walkFrom b s.depthBound)).length +
            (walkChildren b n.kind ++ rest).countP (fun x => !s.contains x) ≤ fuel := by
          simp only [List.flatMap_cons, hf.walkFrom_depthBound_of_get? ht, List.countP_cons, hc,
            Bool.not_true, List.length_cons, List.length_append] at hcost
          simp only [List.flatMap_append, List.countP_append, hfull, List.length_append]
          omega
        simp only [walkStack, ht, ih _ hcost', List.flatMap_cons,
          hf.walkFrom_depthBound_of_get? ht, List.cons_append, List.flatMap_append]

/-- A walk over a forest lists no more nodes than the table has slots: it lists each node
once, and only nodes of the table. -/
theorem Forest.length_walkFrom_le (b : Bool) (k : Nat) (t : NodeId) :
    (s.walkFrom b k t).length ≤ s.slots.size := by
  have hsub : (s.walkFrom true k t).map NodeId.val ⊆ List.range s.slots.size := by
    intro i hi
    obtain ⟨x, hx, rfl⟩ := List.mem_map.mp hi
    obtain ⟨xn, hxn⟩ := (contains_iff s x).mp (hf.mem_walkFrom hx).1
    exact List.mem_range.mpr (lt_size_of_get? hxn)
  have hnd : ((s.walkFrom true k t).map NodeId.val).Nodup :=
    (hf.nodup_walkFrom k t).map fun x y h => by cases x; cases y; cases h; rfl
  have htrue : (s.walkFrom b k t).length ≤ (s.walkFrom true k t).length := by
    cases b
    · exact (walkFrom_false_sublist k t).length_le
    · exact Nat.le_refl _
  calc (s.walkFrom b k t).length
      ≤ ((s.walkFrom true k t).map NodeId.val).length := by rw [List.length_map]; exact htrue
    _ ≤ (List.range s.slots.size).length := hnd.length_le_of_subset hsub
    _ = s.slots.size := List.length_range

/-- Over a forest the walk with a stack lists what the recursive walk lists. -/
theorem Forest.walk_eq_walkFrom (t : NodeId) (b : Bool) :
    s.walk t b = s.walkFrom b s.depthBound t := by
  rw [walk, hf.walkStack_eq b _ [t], List.flatMap_singleton]
  -- one step for each node listed, or one for a handle without a node
  cases ht : s.get? t with
  | none => simp [depthBound, walkFrom, contains, ht]
  | some n =>
    have hlen := hf.length_walkFrom_le b s.depthBound t
    simp only [List.flatMap_singleton, List.countP_singleton, contains, ht, Option.isSome_some,
      Bool.not_true, Bool.false_eq_true, if_false]
    simp only [depthBound] at hlen ⊢
    omega

theorem Forest.mem_walk {b : Bool} {t x : NodeId} (h : x ∈ s.walk t b) :
    s.contains x = true ∧ Under s.parent? t x :=
  hf.mem_walkFrom (hf.walk_eq_walkFrom t b ▸ h)

theorem Forest.nodup_walk (t : NodeId) (b : Bool) : (s.walk t b).Nodup := by
  rw [hf.walk_eq_walkFrom]
  cases b
  · exact (walkFrom_false_sublist _ t).nodup (hf.nodup_walkFrom _ t)
  · exact hf.nodup_walkFrom _ t

/-- The walk from `t` into collapsed containers lists exactly the nodes under `t`. -/
theorem Forest.mem_walk_iff {t x : NodeId} :
    x ∈ s.walk t true ↔ s.contains x = true ∧ Under s.parent? t x := by
  rw [hf.walk_eq_walkFrom]
  refine ⟨hf.mem_walkFrom, fun ⟨hx, hu⟩ => ?_⟩
  rw [depthBound]
  rcases hu with rfl | ha
  · exact mem_walkFrom_self hx
  · exact hf.mem_walkFrom_of_ancestor hx (hf.mem_ancestorsFrom_iff.mpr ha)

theorem Forest.exists_parent_of_walk {b : Bool} {t x : NodeId} (hx : x ∈ s.walk t b)
    (hne : x ≠ t) : ∃ p, s.parent? x = some p := by
  rcases (hf.mem_walk hx).2 with rfl | ha
  · exact absurd rfl hne
  · exact ha.exists_parent

end Forest

/-! ### Freeing a subtree -/

theorem get?_foldl_discard (s : Store) (l : List NodeId) (x : NodeId) :
    (l.foldl discard s).get? x = if x ∈ l then none else s.get? x := by
  induction l generalizing s with
  | nil => simp
  | cons y l ih =>
    rw [List.foldl_cons, ih, get?_discard]
    by_cases hx : x ∈ l
    · simp [hx]
    · by_cases hy : y = x
      · simp [hy]
      · simp [hx, hy, Ne.symm hy]

/-- A walk only reads the nodes it visits. -/
theorem walkFrom_congr {s' : Store} (hshr : ∀ x, s'.get? x = s.get? x ∨ s'.get? x = none)
    {b : Bool} {k : Nat} {t : NodeId} (hagree : ∀ x ∈ s.walkFrom b k t, s'.get? x = s.get? x) :
    s'.walkFrom b k t = s.walkFrom b k t := by
  induction k generalizing t with
  | zero => rfl
  | succ k ih =>
    cases ht : s.get? t with
    | none =>
      have ht' : s'.get? t = none := by
        rcases hshr t with h | h
        · rw [h, ht]
        · exact h
      simp [walkFrom, ht, ht']
    | some tn =>
      have ht' : s'.get? t = some tn := by
        rw [hagree t (by simp [walkFrom, ht]), ht]
      simp only [walkFrom, ht, ht']
      congr 1
      refine List.flatMap_congr fun c hc => ih fun x hx => hagree x ?_
      simp only [walkFrom, ht, List.mem_cons, List.mem_flatMap]
      exact .inr ⟨c, hc, hx⟩

/-- Freeing a subtree whose walk repeats no node drops exactly the nodes of the walk. -/
theorem freeFrom_eq (k : Nat) (t : NodeId) (h : (s.walkFrom true k t).Nodup) :
    s.freeFrom k t = (s.walkFrom true k t).foldl discard s := by
  induction k generalizing s t with
  | zero => rfl
  | succ k ih =>
    cases ht : s.get? t with
    | none => simp [freeFrom, walkFrom, ht]
    | some tn =>
      simp only [walkFrom, ht] at h
      simp only [freeFrom, walkFrom, ht, List.foldl_cons]
      -- the children are freed one after another from a table that lost `t` and the
      -- subtrees of the children before; the subtrees are disjoint, so each is read intact
      obtain ⟨htnot, hnd⟩ := List.nodup_cons.mp h
      have loop : ∀ (cs : List NodeId) (acc : Store),
          (cs.flatMap (s.walkFrom true k)).Nodup →
          (∀ x, acc.get? x = s.get? x ∨ acc.get? x = none) →
          (∀ x ∈ cs.flatMap (s.walkFrom true k), acc.get? x = s.get? x) →
          cs.foldl (fun acc c => acc.freeFrom k c) acc =
            (cs.flatMap (s.walkFrom true k)).foldl discard acc := by
        intro cs
        induction cs with
        | nil => intro acc _ _ _; rfl
        | cons c rest ihc =>
          intro acc hnd' hshr hagree
          rw [List.flatMap_cons, List.nodup_append] at hnd'
          obtain ⟨hc, hrest, hdisj⟩ := hnd'
          have hwalk : acc.walkFrom true k c = s.walkFrom true k c :=
            walkFrom_congr hshr fun x hx => hagree x (by simp [List.mem_flatMap]; exact .inl hx)
          rw [List.foldl_cons, ih c (hwalk ▸ hc), hwalk, List.flatMap_cons, List.foldl_append]
          refine ihc _ hrest (fun x => ?_) (fun x hx => ?_)
          · rw [get?_foldl_discard]
            split
            · exact .inr rfl
            · exact hshr x
          · rw [get?_foldl_discard, if_neg (fun hx' => hdisj x hx' x hx rfl)]
            exact hagree x (by simp only [List.flatMap_cons, List.mem_append]; exact .inr hx)
      refine loop _ _ hnd (fun x => ?_) (fun x hx => ?_)
      · rw [get?_discard]
        split
        · exact .inr rfl
        · exact .inl rfl
      · rw [get?_discard, if_neg (fun he => htnot (by rw [he]; exact hx))]

section Free

open Classical

variable (hf : s.Forest)
include hf

/-- Freeing `t` drops exactly the nodes under `t`. -/
theorem Forest.get?_free (t x : NodeId) :
    (s.free t).get? x = if Under s.parent? t x then none else s.get? x := by
  rw [free, freeFrom_eq _ _ (hf.nodup_walkFrom _ _), get?_foldl_discard]
  have hmem := hf.mem_walk_iff (t := t) (x := x)
  rw [hf.walk_eq_walkFrom] at hmem
  by_cases hu : Under s.parent? t x
  · rw [if_pos hu]
    by_cases hx : s.contains x = true
    · rw [if_pos (hmem.mpr ⟨hx, hu⟩)]
    · split
      · rfl
      · cases hg : s.get? x with
        | none => rfl
        | some xn => exact absurd ((contains_iff s x).mpr ⟨xn, hg⟩) hx
  · rw [if_neg hu, if_neg (fun h => hu (hmem.mp h).2)]

theorem Forest.parent?_free (t x : NodeId) :
    (s.free t).parent? x = if Under s.parent? t x then none else s.parent? x := by
  rw [parent?_eq, hf.get?_free]
  split <;> rfl

theorem Forest.held_free (t x : NodeId) :
    (s.free t).held x = if Under s.parent? t x then [] else s.held x := by
  by_cases hu : Under s.parent? t x <;> simp [held, hf.get?_free, hu]

theorem Forest.form?_free (t x : NodeId) :
    (s.free t).form? x = if Under s.parent? t x then none else s.form? x := by
  simp only [form?, hf.get?_free]
  split <;> rfl

theorem Forest.contains_free (t x : NodeId) :
    (s.free t).contains x = (!decide (Under s.parent? t x) && s.contains x) := by
  simp only [contains, hf.get?_free]
  split <;> simp_all

theorem Forest.kindOf_free (t x : NodeId) :
    (s.free t).kindOf x = if Under s.parent? t x then none else s.kindOf x := by
  simp only [kindOf, hf.get?_free]
  split <;> rfl

/-- Freeing a node without a container keeps the table a forest. -/
theorem Forest.free {t : NodeId} (ht : s.parent? t = none) : (s.free t).Forest := by
  -- a link never crosses the border of the freed subtree
  have border : ∀ {c p}, s.parent? c = some p → (Under s.parent? t c ↔ Under s.parent? t p) := by
    intro c p hc
    constructor
    · rintro (rfl | hu)
      · rw [ht] at hc
        cases hc
      · rcases hu.step hc with rfl | hu
        · exact .refl _
        · exact .inr hu
    · intro hu
      exact .inr (hu.of_parent hc)
  refine ⟨?_, ?_, ?_⟩
  · intro q x hx
    rw [hf.held_free] at hx
    split at hx
    · cases hx
    · next hq =>
      have hxq := hf.held_parent hx
      rw [hf.parent?_free, if_neg (fun hu => hq ((border hxq).mp hu))]
      exact hxq
  · intro x q hx
    rw [hf.parent?_free] at hx
    split at hx
    · cases hx
    · next hxu =>
      rw [hf.held_free, if_neg (fun hu => hxu ((border hx).mpr hu))]
      exact hf.parent_held hx
  · refine grounded_of_cut hf.grounded fun x => ?_
    rw [hf.parent?_free]
    split
    · exact .inr rfl
    · exact .inl rfl

end Free

end Store

end Docking
