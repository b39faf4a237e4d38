import Docking.Proofs.Edit
/-!
# The node table as a forest

A node's container link (`Store.parent?`) and its container's held list must agree, and
climbing container links must end. `Store.Forest` says both. This module gives

* `Above par a n`: `a` is met climbing from `n` by the links `par`; `Under` adds `n` itself;
* `Grounded par n`: the climb from `n` ends at a node without a link;
* how a relinked table climbs (`grounded_of_cut`, `grounded_of_link`, `above_of_link`):
  cutting links keeps every climb finite, and a new link keeps it finite when it does not
  point below the relinked node;
* that every child edit, a new node, a dropped node, and the two composite edits that fold a
  container behind a collapsed node and unfold it again, keep the table a forest.

The relations take the link function as a parameter so that a proof can climb through a
table that is only half edited.
-/

namespace Docking

section Climb

variable (par : NodeId → Option NodeId)

/-- `a` is met climbing from `n`'s container upward: a proper ancestor of `n`. -/
inductive Above (a : NodeId) : NodeId → Prop
  | parent {n : NodeId} : par n = some a → Above a n
  | up {n m : NodeId} : par n = some m → Above a m → Above a n

/-- `n` is `a` or lies below it. -/
def Under (a n : NodeId) : Prop := a = n ∨ Above par a n

/-- Climbing from `n` ends at a node without a container. -/
inductive Grounded : NodeId → Prop
  | top {n : NodeId} : par n = none → Grounded n
  | up {n p : NodeId} : par n = some p → Grounded p → Grounded n

end Climb

section ClimbLemmas

variable {par par' : NodeId → Option NodeId}

theorem Above.trans {a b c : NodeId} (hab : Above par a b) (hbc : Above par b c) :
    Above par a c := by
  induction hbc with
  | parent h => exact .up h hab
  | up h _ ih => exact .up h ih

/-- One step up from `n` either meets `a` or leaves it still above. -/
theorem Above.step {a n m : NodeId} (h : Above par a n) (hn : par n = some m) :
    a = m ∨ Above par a m := by
  cases h with
  | parent h' =>
    rw [hn] at h'
    exact .inl (Option.some.inj h').symm
  | up h' ha =>
    rw [hn] at h'
    cases h'
    exact .inr ha

theorem Above.exists_parent {a n : NodeId} (h : Above par a n) : ∃ m, par n = some m := by
  cases h with
  | parent h' => exact ⟨a, h'⟩
  | up h' _ => exact ⟨_, h'⟩

theorem Above.exists_child {a n : NodeId} (h : Above par a n) : ∃ x, par x = some a := by
  induction h with
  | @parent n h' => exact ⟨n, h'⟩
  | up _ _ ih => exact ih

theorem Under.refl (a : NodeId) : Under par a a := .inl rfl

theorem Under.of_above {a n : NodeId} (h : Above par a n) : Under par a n := .inr h

theorem Under.trans {a b c : NodeId} (hab : Under par a b) (hbc : Under par b c) :
    Under par a c := by
  rcases hab with rfl | hab
  · exact hbc
  · rcases hbc with rfl | hbc
    · exact .inr hab
    · exact .inr (hab.trans hbc)

theorem Under.of_parent {a m n : NodeId} (ha : Under par a m) (hn : par n = some m) :
    Above par a n := by
  rcases ha with rfl | ha
  · exact .parent hn
  · exact .up hn ha

theorem Under.eq_of_top {a n : NodeId} (h : Under par a n) (hn : par n = none) : a = n := by
  rcases h with rfl | h
  · rfl
  · obtain ⟨m, hm⟩ := h.exists_parent
    rw [hn] at hm
    cases hm

/-- The nodes a node lies under form a chain. -/
theorem under_total {a b n : NodeId} (ha : Under par a n) (hb : Under par b n) :
    Under par a b ∨ Under par b a := by
  rcases ha with rfl | ha
  · exact .inr hb
  induction ha generalizing b with
  | parent h =>
    rcases hb with rfl | hb
    · exact .inl (.inr (.parent h))
    · rcases hb.step h with rfl | hb
      · exact .inl (.refl _)
      · exact .inr (.inr hb)
  | @up n m h ha ih =>
    rcases hb with rfl | hb
    · exact .inl (.inr (.up h ha))
    · rcases hb.step h with rfl | hb
      · exact .inl (.inr ha)
      · exact ih (.inr hb)

/-- A finite climb never comes back to its start. -/
theorem Grounded.not_above_self {n : NodeId} (h : Grounded par n) : ¬ Above par n n := by
  induction h with
  | top hn =>
    intro ha
    obtain ⟨m, hm⟩ := ha.exists_parent
    rw [hn] at hm
    cases hm
  | @up n p hn _ ih =>
    intro ha
    rcases ha.step hn with rfl | hp
    · exact ih (.parent hn)
    · exact ih ((Above.parent hn).trans hp)

/-- Cutting links keeps every ancestor relation that survives. -/
theorem above_of_cut (h : ∀ x, par' x = par x ∨ par' x = none) {a n : NodeId}
    (ha : Above par' a n) : Above par a n := by
  induction ha with
  | parent hn =>
    rcases h _ with he | he
    · exact .parent (he ▸ hn)
    · rw [he] at hn
      cases hn
  | up hn _ ih =>
    rcases h _ with he | he
    · exact .up (he ▸ hn) ih
    · rw [he] at hn
      cases hn

/-- Cutting links keeps every climb finite. -/
theorem grounded_of_cut (hg : ∀ n, Grounded par n) (h : ∀ x, par' x = par x ∨ par' x = none)
    (n : NodeId) : Grounded par' n := by
  induction hg n with
  | top hn =>
    rcases h _ with he | he
    · exact .top (he.trans hn)
    · exact .top he
  | up hn _ ih =>
    rcases h _ with he | he
    · exact .up (he.trans hn) ih
    · exact .top he

theorem grounded_of_not_under {c : NodeId} (hpar : ∀ x, x ≠ c → par' x = par x) {n : NodeId}
    (hg : Grounded par n) (hc : ¬ Under par c n) : Grounded par' n := by
  induction hg with
  | @top n hn =>
    have hne : n ≠ c := fun he => hc (.inl he.symm)
    exact .top ((hpar n hne).trans hn)
  | @up n p hn _ ih =>
    have hne : n ≠ c := fun he => hc (.inl he.symm)
    exact .up ((hpar n hne).trans hn) (ih fun hp => hc (.inr (hp.of_parent hn)))

/-- Linking `c` to a container that is not below it keeps every climb finite. -/
theorem grounded_of_link (hg : ∀ n, Grounded par n) {c p : NodeId}
    (hpar : ∀ x, x ≠ c → par' x = par x) (hc : par' c = some p) (hcp : ¬ Under par c p)
    (n : NodeId) : Grounded par' n := by
  have hp : Grounded par' p := grounded_of_not_under hpar (hg p) hcp
  induction hg n with
  | @top n hn =>
    by_cases hne : n = c
    · subst hne
      exact .up hc hp
    · exact .top ((hpar n hne).trans hn)
  | @up n m hn _ ih =>
    by_cases hne : n = c
    · subst hne
      exact .up hc hp
    · exact .up ((hpar n hne).trans hn) ih

/-- After linking `c` to `p`, a new ancestor relation climbs through `c` and then `p`. -/
theorem above_of_link {c p : NodeId} (hpar : ∀ x, x ≠ c → par' x = par x) (hc : par' c = some p)
    {a n : NodeId} (ha : Above par' a n) :
    Above par a n ∨ (Under par c n ∧ Under par a p) := by
  induction ha with
  | @parent n hn =>
    by_cases hne : n = c
    · subst hne
      rw [hc] at hn
      cases hn
      exact .inr ⟨.refl _, .refl _⟩
    · exact .inl (.parent ((hpar n hne).symm.trans hn))
  | @up n m hn _ ih =>
    by_cases hne : n = c
    · subst hne
      rw [hc] at hn
      cases hn
      rcases ih with ih | ⟨-, ih⟩
      · exact .inr ⟨.refl _, .inr ih⟩
      · exact .inr ⟨.refl _, ih⟩
    · have hn' : par n = some m := (hpar n hne).symm.trans hn
      rcases ih with ih | ⟨hcm, hap⟩
      · exact .inl (.up hn' ih)
      · exact .inr ⟨.inr (hcm.of_parent hn'), hap⟩

/-- A climb through nodes that a relinking left alone is the same climb before. -/
theorem above_of_frame {c : NodeId} {inTable : NodeId → Prop}
    (hpar : ∀ x, inTable x → ¬ Under par c x → par' x = par x)
    (hin : ∀ x m, inTable x → par x = some m → inTable m) {a n : NodeId} (hn : inTable n)
    (hc : ¬ Under par c n) (ha : Above par' a n) : Above par a n := by
  induction ha with
  | @parent n h =>
    exact .parent ((hpar n hn hc).symm.trans h)
  | @up n m h _ ih =>
    have h' : par n = some m := (hpar n hn hc).symm.trans h
    exact .up h' (ih (hin n m hn h') fun hm => hc (.inr (hm.of_parent h')))

theorem above_of_agree {keep : NodeId → Prop} (hpar : ∀ x, keep x → par' x = par x)
    (hup : ∀ x m, par' x = some m → keep m) {a n : NodeId} (hn : keep n)
    (ha : Above par' a n) : Above par a n := by
  induction ha with
  | @parent n h => exact .parent ((hpar n hn).symm.trans h)
  | @up n m h _ ih => exact .up ((hpar n hn).symm.trans h) (ih (hup n m h))

theorem above_of_shortcut (h : ∀ x m, par' x = some m → Above par m x) {a n : NodeId}
    (ha : Above par' a n) : Above par a n := by
  induction ha with
  | @parent n hn => exact h n a hn
  | @up n m hn _ ih => exact ih.trans (h n m hn)

theorem under_of_cut (h : ∀ x, par' x = par x ∨ par' x = none) {a n : NodeId}
    (hu : Under par' a n) : Under par a n := by
  rcases hu with he | hu
  · exact .inl he
  · exact .inr (above_of_cut h hu)

theorem under_of_shortcut (h : ∀ x m, par' x = some m → Above par m x) {a n : NodeId}
    (hu : Under par' a n) : Under par a n := by
  rcases hu with he | hu
  · exact .inl he
  · exact .inr (above_of_shortcut h hu)

/-- When every new link is an old one or ends outside the subtree of `a`, nothing comes to
lie below `a`. -/
theorem above_of_graft {a : NodeId}
    (h : ∀ x m, par' x = some m → par x = some m ∨ ¬ Under par a m) {n : NodeId}
    (ha : Above par' a n) : Above par a n := by
  induction ha with
  | @parent n hn =>
    rcases h n a hn with hold | hout
    · exact .parent hold
    · exact absurd (.refl a) hout
  | @up n m hn _ ih =>
    rcases h n m hn with hold | hout
    · exact .up hold ih
    · exact absurd (.of_above ih) hout

theorem Above.exists_child_under {a n : NodeId} (h : Above par a n) :
    ∃ c, par c = some a ∧ Under par c n := by
  induction h with
  | @parent n hn => exact ⟨n, hn, .refl _⟩
  | @up n m hn _ ih =>
    obtain ⟨c, hc, hcm⟩ := ih
    exact ⟨c, hc, .inr (hcm.of_parent hn)⟩

end ClimbLemmas

namespace Store

/-- The node table is a forest: a node lists exactly the nodes linked to it, each once, and
climbing container links always ends. -/
structure Forest (s : Store) : Prop where
  held_parent : ∀ {p c : NodeId}, c ∈ s.held p → s.parent? c = some p
  parent_held : ∀ {c p : NodeId}, s.parent? c = some p → (s.held p).count c = 1
  grounded : ∀ n, Grounded s.parent? n

section Forest

variable {s s' : Store}

theorem Forest.mem_held_iff (hf : s.Forest) {p c : NodeId} : c ∈ s.held p ↔ s.parent? c = some p :=
  ⟨hf.held_parent, fun h => List.count_pos_iff.mp (by rw [hf.parent_held h]; omega)⟩

theorem Forest.held_nodup (hf : s.Forest) (p : NodeId) : (s.held p).Nodup := by
  rw [List.nodup_iff_count]
  intro c
  by_cases hc : c ∈ s.held p
  · have := hf.parent_held (hf.held_parent hc)
    omega
  · have := List.count_eq_zero_of_not_mem hc
    omega

theorem Forest.contains_of_parent (hf : s.Forest) {c p : NodeId} (h : s.parent? c = some p) :
    s.contains p = true :=
  contains_of_mem_held (hf.mem_held_iff.mpr h)

theorem Forest.not_above_self (hf : s.Forest) (n : NodeId) : ¬ Above s.parent? n n :=
  (hf.grounded n).not_above_self

theorem Forest.not_under_of_parent (hf : s.Forest) {c p : NodeId} (h : s.parent? c = some p) :
    ¬ Under s.parent? c p := by
  rintro (rfl | hu)
  · exact hf.not_above_self _ (.parent h)
  · exact hf.not_above_self _ (hu.trans (.parent h))

theorem Forest.ne_of_parent (hf : s.Forest) {c p : NodeId} (h : s.parent? c = some p) : c ≠ p :=
  fun he => hf.not_under_of_parent h (.inl he)

/-- Below a node that holds one node holding nothing, there is only that node. -/
theorem Forest.eq_of_above_of_held (hf : s.Forest) {x c y : NodeId} (hx : s.held x = [c])
    (hc : s.held c = []) (h : Above s.parent? x y) : y = c := by
  induction h with
  | @parent n hn =>
    have hmem := hf.mem_held_iff.mpr hn
    rw [hx, List.mem_singleton] at hmem
    exact hmem
  | @up n m hn _ ih =>
    have hmem := hf.mem_held_iff.mpr hn
    rw [ih, hc] at hmem
    cases hmem

theorem Forest.above_of_mem_held (hf : s.Forest) {p c : NodeId} (h : c ∈ s.held p) :
    Above s.parent? p c :=
  .parent (hf.held_parent h)

theorem Forest.top_unique (_hf : s.Forest) {t₁ t₂ n : NodeId} (h₁ : Under s.parent? t₁ n)
    (h₂ : Under s.parent? t₂ n) (ht₁ : s.parent? t₁ = none) (ht₂ : s.parent? t₂ = none) :
    t₁ = t₂ := by
  rcases under_total h₁ h₂ with h | h
  · exact (h.eq_of_top ht₂)
  · exact (h.eq_of_top ht₁).symm

theorem Forest.of_sameShape (hf : s.Forest) (h : SameShape s s') : s'.Forest where
  held_parent hc := by
    rw [(h _).2.1] at hc
    rw [(h _).1]
    exact hf.held_parent hc
  parent_held hc := by
    rw [(h _).1] at hc
    rw [(h _).2.1]
    exact hf.parent_held hc
  grounded n := grounded_of_cut hf.grounded (fun x => .inl (h x).1) n

/-! ### Child edits -/

theorem Forest.removeChild (hf : s.Forest) {p c : NodeId} {w : Float32}
    (h : s.removeChild p c = .ok (w, s')) : s'.Forest := by
  have hcp : s.parent? c = some p := hf.held_parent (removeChild_mem h)
  refine ⟨?_, ?_, ?_⟩
  · intro q x hx
    rw [held_removeChild h] at hx
    rw [parent?_removeChild h]
    by_cases hq : q = p
    · subst hq
      rw [if_pos rfl, (hf.held_nodup q).mem_erase_iff] at hx
      rw [if_neg hx.1]
      exact hf.held_parent hx.2
    · rw [if_neg hq] at hx
      have hxq := hf.held_parent hx
      have hxc : x ≠ c := by
        rintro rfl
        rw [hcp] at hxq
        exact hq (Option.some.inj hxq).symm
      rw [if_neg hxc]
      exact hxq
  · intro x q hx
    rw [parent?_removeChild h] at hx
    by_cases hxc : x = c
    · rw [if_pos hxc] at hx
      cases hx
    · rw [if_neg hxc] at hx
      rw [held_removeChild h]
      by_cases hq : q = p
      · subst hq
        rw [if_pos rfl, List.count_erase_of_ne hxc]
        exact hf.parent_held hx
      · rw [if_neg hq]
        exact hf.parent_held hx
  · refine grounded_of_cut hf.grounded fun x => ?_
    rw [parent?_removeChild h]
    by_cases hxc : x = c
    · exact .inr (if_pos hxc)
    · exact .inl (if_neg hxc)

/-- Putting a node without a container into a container that does not lie below it keeps
the table a forest. -/
theorem Forest.insertChild (hf : s.Forest) {p c : NodeId} {i : Nat} {w : Float32}
    (h : s.insertChild p i c w = .ok s') (htop : s.parent? c = none)
    (hcp : ¬ Under s.parent? c p) : s'.Forest := by
  have hcnot : c ∉ s.held p := fun hm => by
    rw [hf.held_parent hm] at htop
    cases htop
  have hperm : ∀ y, ((s.held p).insertIdx (min i (s.held p).length) c).count y =
      (c :: s.held p).count y := fun y =>
    (List.perm_insertIdx c (s.held p) (Nat.min_le_right _ _)).count y
  refine ⟨?_, ?_, ?_⟩
  · intro q x hx
    rw [held_insertChild h] at hx
    rw [parent?_insertChild h]
    by_cases hxc : x = c
    · subst hxc
      rw [if_pos rfl]
      by_cases hq : q = p
      · rw [hq]
      · rw [if_neg hq] at hx
        rw [hf.held_parent hx] at htop
        cases htop
    · rw [if_neg hxc]
      by_cases hq : q = p
      · subst hq
        rw [if_pos rfl, List.mem_insertIdx (Nat.min_le_right _ _)] at hx
        exact hf.held_parent (hx.resolve_left hxc)
      · rw [if_neg hq] at hx
        exact hf.held_parent hx
  · intro x q hx
    rw [parent?_insertChild h] at hx
    rw [held_insertChild h]
    by_cases hxc : x = c
    · rw [if_pos hxc] at hx
      cases hx
      subst hxc
      rw [if_pos rfl, hperm, List.count_cons_self, List.count_eq_zero_of_not_mem hcnot]
    · rw [if_neg hxc] at hx
      by_cases hq : q = p
      · subst hq
        rw [if_pos rfl, hperm, List.count_cons_of_ne (Ne.symm hxc)]
        exact hf.parent_held hx
      · rw [if_neg hq]
        exact hf.parent_held hx
  · refine grounded_of_link hf.grounded (c := c) (p := p) (fun x hx => ?_) ?_ hcp
    · rw [parent?_insertChild h, if_neg hx]
    · rw [parent?_insertChild h, if_pos rfl]

theorem Forest.pushChild (hf : s.Forest) {p c : NodeId} (h : s.pushChild p c = .ok s')
    (htop : s.parent? c = none) (hcp : ¬ Under s.parent? c p) : s'.Forest := by
  obtain ⟨pn, -, hi⟩ := pushChild_eq_ok h
  exact hf.insertChild hi htop hcp

/-- Putting a node without a container into the slot of a child keeps the table a forest;
the child it replaces is left without a container. -/
theorem Forest.replaceChild (hf : s.Forest) {p old new : NodeId}
    (h : s.replaceChild p old new = .ok s') (htop : s.parent? new = none)
    (hnp : ¬ Under s.parent? new p) : s'.Forest := by
  have hold : old ∈ s.held p := replaceChild_mem h
  have hop : s.parent? old = some p := hf.held_parent hold
  have hne : new ≠ old := by
    rintro rfl
    rw [hop] at htop
    cases htop
  have hnew : new ∉ s.held p := fun hm => by
    rw [hf.held_parent hm] at htop
    cases htop
  have hidx : (s.held p).idxOf old < (s.held p).length := List.idxOf_lt_length_of_mem hold
  have hget : (s.held p)[(s.held p).idxOf old] = old := List.getElem_idxOf hidx
  -- the count of a node in the edited list: one `old` goes, one `new` comes
  have hcount : ∀ y, ((s.held p).set ((s.held p).idxOf old) new).count y =
      (s.held p).count y - (if old == y then 1 else 0) + (if new == y then 1 else 0) := by
    intro y
    rw [List.count_set hidx, hget]
  refine ⟨?_, ?_, ?_⟩
  · intro q x hx
    rw [held_replaceChild h] at hx
    rw [parent?_replaceChild h]
    by_cases hxn : x = new
    · subst hxn
      rw [if_pos rfl]
      by_cases hq : q = p
      · rw [hq]
      · rw [if_neg hq] at hx
        rw [hf.held_parent hx] at htop
        cases htop
    · rw [if_neg hxn]
      by_cases hq : q = p
      · subst hq
        rw [if_pos rfl] at hx
        have hxo : x ≠ old := by
          intro hxo
          rw [hxo] at hx
          have h1 := hcount old
          rw [hf.parent_held hop] at h1
          simp only [beq_self_eq_true, if_true, beq_iff_eq, hne, if_false] at h1
          have h2 := List.count_pos_iff.mpr hx
          omega
        rw [if_neg hxo]
        exact hf.held_parent ((List.mem_or_eq_of_mem_set hx).resolve_right hxn)
      · rw [if_neg hq] at hx
        have hxq := hf.held_parent hx
        have hxo : x ≠ old := by
          rintro rfl
          rw [hop] at hxq
          exact hq (Option.some.inj hxq).symm
        rw [if_neg hxo]
        exact hxq
  · intro x q hx
    rw [parent?_replaceChild h] at hx
    rw [held_replaceChild h]
    by_cases hxn : x = new
    · rw [if_pos hxn] at hx
      cases hx
      subst hxn
      rw [if_pos rfl, hcount]
      simp [Ne.symm hne, List.count_eq_zero_of_not_mem hnew]
    · rw [if_neg hxn] at hx
      by_cases hxo : x = old
      · rw [if_pos hxo] at hx
        cases hx
      · rw [if_neg hxo] at hx
        by_cases hq : q = p
        · subst hq
          rw [if_pos rfl, hcount]
          simp [Ne.symm hxo, Ne.symm hxn, hf.parent_held hx]
        · rw [if_neg hq]
          exact hf.parent_held hx
  · -- first cut `old`, then link `new`
    let cut : NodeId → Option NodeId := fun x => if x = old then none else s.parent? x
    have hcut : ∀ x, cut x = s.parent? x ∨ cut x = none := fun x => by
      by_cases hx : x = old
      · exact .inr (if_pos hx)
      · exact .inl (if_neg hx)
    refine grounded_of_link (grounded_of_cut hf.grounded hcut) (c := new) (p := p)
      (fun x hx => ?_) ?_ (fun hu => hnp ?_)
    · rw [parent?_replaceChild h, if_neg hx]
    · rw [parent?_replaceChild h, if_pos rfl]
    · rcases hu with rfl | hu
      · exact .refl _
      · exact .inr (above_of_cut hcut hu)

/-! ### New and dropped nodes -/


/-- After a child is replaced, a new ancestor relation climbs through the new child and then
its container. -/
theorem above_of_replaceChild {p old new : NodeId} (h : s.replaceChild p old new = .ok s')
    {a n : NodeId} (ha : Above s'.parent? a n) :
    Above s.parent? a n ∨ (Under s.parent? new n ∧ Under s.parent? a p) := by
  -- replacing is cutting `old` and then linking `new`
  let mid : NodeId → Option NodeId := fun x => if x = old then none else s.parent? x
  have hcut : ∀ x, mid x = s.parent? x ∨ mid x = none := fun x => by
    by_cases hx : x = old
    · exact .inr (if_pos hx)
    · exact .inl (if_neg hx)
  have hpar : ∀ x, x ≠ new → s'.parent? x = mid x := fun x hx => by
    rw [parent?_replaceChild h, if_neg hx]
  have hnew : s'.parent? new = some p := by rw [parent?_replaceChild h, if_pos rfl]
  rcases above_of_link hpar hnew ha with ha' | ⟨hn, hp⟩
  · exact .inl (above_of_cut hcut ha')
  · exact .inr ⟨under_of_cut hcut hn, under_of_cut hcut hp⟩

/-- A new node that holds nothing keeps the table a forest. -/
theorem Forest.alloc (hf : s.Forest) {ident : String} {kind : NodeKind}
    (hk : walkChildren true kind = []) : (s.alloc ident kind).2.Forest := by
  have hnext : ∀ {c}, s.parent? c = some s.nextId → False := fun hc => by
    have := hf.contains_of_parent hc
    rw [contains_iff, get?_nextId] at this
    simp at this
  refine ⟨?_, ?_, ?_⟩
  · intro q x hx
    rw [held_alloc] at hx
    by_cases hq : q = s.nextId
    · rw [if_pos hq, hk] at hx
      cases hx
    · rw [if_neg hq] at hx
      have hxq := hf.held_parent hx
      rw [parent?_alloc, if_neg (fun he => by rw [he, parent?_eq, get?_nextId] at hxq; cases hxq)]
      exact hxq
  · intro x q hx
    rw [parent?_alloc] at hx
    by_cases hxn : x = s.nextId
    · rw [if_pos hxn] at hx
      cases hx
    · rw [if_neg hxn] at hx
      rw [held_alloc, if_neg (fun he => hnext (he ▸ hx))]
      exact hf.parent_held hx
  · refine grounded_of_cut hf.grounded fun x => ?_
    rw [parent?_alloc]
    by_cases hx : x = s.nextId
    · exact .inr (if_pos hx)
    · exact .inl (if_neg hx)

/-- Dropping a node without a container that holds nothing keeps the table a forest. -/
theorem Forest.discard (hf : s.Forest) {x : NodeId} (htop : s.parent? x = none)
    (hheld : s.held x = []) : (s.discard x).Forest := by
  refine ⟨?_, ?_, ?_⟩
  · intro q y hy
    rw [held_discard] at hy
    by_cases hq : x = q
    · rw [if_pos hq] at hy
      cases hy
    · rw [if_neg hq] at hy
      have hyq := hf.held_parent hy
      rw [parent?_discard, if_neg (fun he => by rw [← he, htop] at hyq; cases hyq)]
      exact hyq
  · intro y q hy
    rw [parent?_discard] at hy
    by_cases hxy : x = y
    · rw [if_pos hxy] at hy
      cases hy
    · rw [if_neg hxy] at hy
      have hq : x ≠ q := by
        rintro rfl
        have := hf.parent_held hy
        rw [hheld] at this
        simp at this
      rw [held_discard, if_neg hq]
      exact hf.parent_held hy
  · refine grounded_of_cut hf.grounded fun y => ?_
    rw [parent?_discard]
    by_cases hy : x = y
    · exact .inr (if_pos hy)
    · exact .inl (if_neg hy)

/-! ### Folding a container away and back -/

theorem parent?_nextId (s : Store) : s.parent? s.nextId = none := by
  rw [parent?_eq, get?_nextId]
  rfl

theorem Forest.parent_ne_nextId (hf : s.Forest) {c : NodeId} : s.parent? c ≠ some s.nextId := by
  intro hc
  have := hf.contains_of_parent hc
  rw [contains_iff, get?_nextId] at this
  simp at this

theorem not_above_nextId (s : Store) (a : NodeId) : ¬ Above s.parent? a s.nextId := by
  intro h
  obtain ⟨m, hm⟩ := h.exists_parent
  rw [parent?_nextId] at hm
  cases hm

theorem Forest.not_under_alloc (hf : s.Forest) {ident : String} {kind : NodeKind} {y : NodeId}
    (hy : s.contains y = true) : ¬ Under (s.alloc ident kind).2.parent? s.nextId y := by
  rintro (he | hu)
  · exact ne_nextId_of_contains hy he.symm
  · obtain ⟨c, hc⟩ := hu.exists_child
    rw [parent?_alloc] at hc
    split at hc
    · cases hc
    · exact hf.parent_ne_nextId hc

theorem held_of_collapsed {x : NodeId} (hx : s.form? x = some .collapsed) :
    ∃ inner, s.held x = [inner] := by
  obtain ⟨xn, hxn, hk⟩ := Option.map_eq_some_iff.mp hx
  rw [held_of_get? hxn]
  cases hkx : xn.kind with
  | collapsed inner => exact ⟨inner, by simp [walkChildren]⟩
  | _ => simp [hkx, NodeKind.form] at hk

/-! ### Folding a container behind a collapsed node, and unfolding it

Folding `cur`, a child of `p`, allocates a collapsed node that takes the slot of `cur` in
`p` and then holds `cur`. Unfolding gives the slot of a collapsed node `hold`, a child of
`grand`, back to the node `cur` it folds, and drops `hold`. After either edit every view of
the table is the view before with two or three links changed. -/

section Fold

variable {ident : String} {cur p : NodeId} {s₂ s₃ : Store}

theorem contains_fold
    (h₂ : (s.alloc ident (.collapsed cur)).2.replaceChild p cur s.nextId = .ok s₂)
    (h₃ : s₂.setParent cur (some s.nextId) = .ok s₃) (x : NodeId) :
    s₃.contains x = true ↔ x = s.nextId ∨ s.contains x = true := by
  obtain ⟨-, rfl⟩ := setParent_eq_ok h₃
  rw [contains_modify, contains_replaceChild h₂, contains_iff, contains_iff, get?_alloc]
  by_cases hx : x = s.nextId <;> simp [hx]

theorem form?_fold
    (h₂ : (s.alloc ident (.collapsed cur)).2.replaceChild p cur s.nextId = .ok s₂)
    (h₃ : s₂.setParent cur (some s.nextId) = .ok s₃) (x : NodeId) :
    s₃.form? x = if x = s.nextId then some .collapsed else s.form? x := by
  obtain ⟨-, rfl⟩ := setParent_eq_ok h₃
  rw [form?_setParentField, form?_replaceChild h₂, form?_alloc]
  rfl

theorem parent?_fold (hcur : s.parent? cur = some p)
    (h₂ : (s.alloc ident (.collapsed cur)).2.replaceChild p cur s.nextId = .ok s₂)
    (h₃ : s₂.setParent cur (some s.nextId) = .ok s₃) (x : NodeId) :
    s₃.parent? x =
      if x = cur then some s.nextId else if x = s.nextId then some p else s.parent? x := by
  obtain ⟨hcc, rfl⟩ := setParent_eq_ok h₃
  have hcn : cur ≠ s.nextId := by
    intro he
    rw [he, parent?_nextId] at hcur
    cases hcur
  rw [parent?_setParentField, parent?_replaceChild h₂, parent?_alloc]
  by_cases hx : x = cur
  · subst hx
    simp [hcc]
  · by_cases hxn : x = s.nextId
    · subst hxn
      simp [hcn, Ne.symm hcn]
    · simp [hx, hxn, Ne.symm hx]

theorem Forest.held_fold (hf : s.Forest) (hcur : s.parent? cur = some p)
    (h₂ : (s.alloc ident (.collapsed cur)).2.replaceChild p cur s.nextId = .ok s₂)
    (h₃ : s₂.setParent cur (some s.nextId) = .ok s₃) (x : NodeId) :
    s₃.held x = if x = p then (s.held p).set ((s.held p).idxOf cur) s.nextId
      else if x = s.nextId then [cur] else s.held x := by
  obtain ⟨-, rfl⟩ := setParent_eq_ok h₃
  have hpn : p ≠ s.nextId :=
    ne_nextId_of_get? ((contains_iff s p).mp (hf.contains_of_parent hcur)).choose_spec
  rw [held_setParentField, held_replaceChild h₂, held_alloc, held_alloc, if_neg hpn]
  by_cases hx : x = p
  · simp [hx]
  · simp [hx, walkChildren]

/-- Folding a child of a folder or a split is never refused. -/
theorem Forest.fold_ok (hf : s.Forest) (hcur : s.parent? cur = some p) (hp : s.IsContainer p)
    (ident : String) : ∃ s₂ s₃,
      (s.alloc ident (.collapsed cur)).2.replaceChild p cur s.nextId = .ok s₂ ∧
      s₂.setParent cur (some s.nextId) = .ok s₃ := by
  have hcc : s.contains cur = true := contains_of_parent? hcur
  have hpn : p ≠ s.nextId :=
    ne_nextId_of_get? ((contains_iff s p).mp (hf.contains_of_parent hcur)).choose_spec
  have hcn : cur ≠ s.nextId := ne_nextId_of_get? ((contains_iff s cur).mp hcc).choose_spec
  have hp' : (s.alloc ident (.collapsed cur)).2.IsContainer p := by
    rw [IsContainer, form?_alloc, if_neg hpn]
    exact hp
  have hmem : cur ∈ (s.alloc ident (.collapsed cur)).2.held p := by
    rw [held_alloc, if_neg hpn]
    exact hf.mem_held_iff.mpr hcur
  have hcc' : (s.alloc ident (.collapsed cur)).2.contains cur = true := by
    rw [contains_iff, get?_alloc, if_neg hcn]
    exact (contains_iff s cur).mp hcc
  have hnc : (s.alloc ident (.collapsed cur)).2.contains s.nextId = true := by
    rw [contains_iff, get?_alloc, if_pos rfl]
    exact ⟨_, rfl⟩
  obtain ⟨s₂, h₂⟩ := replaceChild_ok hp' hmem hcc' hnc
  exact ⟨s₂, _, h₂, setParent_of_contains _ (by rw [contains_replaceChild h₂]; exact hcc')⟩

/-- Folding leaves the ancestors of a node outside the folded container as they were. -/
theorem Forest.above_fold (hf : s.Forest) (hcur : s.parent? cur = some p)
    (h₂ : (s.alloc ident (.collapsed cur)).2.replaceChild p cur s.nextId = .ok s₂)
    (h₃ : s₂.setParent cur (some s.nextId) = .ok s₃) {a n : NodeId} (hn : s.contains n = true)
    (hc : ¬ Under s.parent? cur n) (ha : Above s₃.parent? a n) : Above s.parent? a n := by
  refine above_of_frame (fun y hy hu => ?_) (fun _ _ _ hm => hf.contains_of_parent hm) hn hc ha
  have hyc : y ≠ cur := by
    rintro rfl
    exact hu (.refl _)
  rw [parent?_fold hcur h₂ h₃, if_neg hyc,
    if_neg (ne_nextId_of_get? ((contains_iff s y).mp hy).choose_spec)]

/-- Folding `cur` behind a new collapsed node that takes its slot keeps the table a forest. -/
theorem Forest.fold (hf : s.Forest) (hcur : s.parent? cur = some p)
    (h₂ : (s.alloc ident (.collapsed cur)).2.replaceChild p cur s.nextId = .ok s₂)
    (h₃ : s₂.setParent cur (some s.nextId) = .ok s₃) : s₃.Forest := by
  have hpc : s.contains p = true := hf.contains_of_parent hcur
  have hpn : p ≠ s.nextId := ne_nextId_of_get? ((contains_iff s p).mp hpc).choose_spec
  have hcn : cur ≠ s.nextId := by
    intro he
    rw [he, parent?_nextId] at hcur
    cases hcur
  have hmem : cur ∈ s.held p := hf.mem_held_iff.mpr hcur
  have hpar := parent?_fold hcur h₂ h₃
  have hheld := hf.held_fold hcur h₂ h₃
  have hidx : (s.held p).idxOf cur < (s.held p).length := List.idxOf_lt_length_of_mem hmem
  have hcount : ∀ y, ((s.held p).set ((s.held p).idxOf cur) s.nextId).count y =
      (s.held p).count y - (if cur == y then 1 else 0) + (if s.nextId == y then 1 else 0) := by
    intro y
    rw [List.count_set hidx, List.getElem_idxOf hidx]
  have hnextnot : s.nextId ∉ s.held p := fun hm => by
    have := hf.held_parent hm
    rw [parent?_nextId] at this
    cases this
  refine ⟨?_, ?_, ?_⟩
  · intro q x hx
    rw [hheld] at hx
    rw [hpar]
    by_cases hq : q = p
    · subst hq
      rw [if_pos rfl] at hx
      by_cases hxn : x = s.nextId
      · rw [if_neg (hxn ▸ Ne.symm hcn), if_pos hxn]
      · have hxs : x ∈ s.held q := (List.mem_or_eq_of_mem_set hx).resolve_right hxn
        have hxc : x ≠ cur := by
          intro hxc
          rw [hxc] at hx
          have h1 := hcount cur
          rw [hf.parent_held hcur] at h1
          simp only [beq_self_eq_true, if_true, beq_iff_eq, Ne.symm hcn, if_false] at h1
          have h2 := List.count_pos_iff.mpr hx
          omega
        rw [if_neg hxc, if_neg hxn]
        exact hf.held_parent hxs
    · rw [if_neg hq] at hx
      by_cases hqn : q = s.nextId
      · rw [if_pos hqn, List.mem_singleton] at hx
        rw [if_pos hx, hqn]
      · rw [if_neg hqn] at hx
        have hxq := hf.held_parent hx
        have hxc : x ≠ cur := by
          rintro rfl
          rw [hcur] at hxq
          exact hq (Option.some.inj hxq).symm
        have hxn : x ≠ s.nextId := by
          rintro rfl
          rw [parent?_nextId] at hxq
          cases hxq
        rw [if_neg hxc, if_neg hxn]
        exact hxq
  · intro x q hx
    rw [hpar] at hx
    rw [hheld]
    by_cases hxc : x = cur
    · rw [if_pos hxc] at hx
      cases hx
      rw [if_neg (Ne.symm hpn), if_pos rfl, hxc, List.count_singleton_self]
    · rw [if_neg hxc] at hx
      by_cases hxn : x = s.nextId
      · rw [if_pos hxn] at hx
        cases hx
        rw [if_pos rfl, hcount, hxn]
        simp [hcn, List.count_eq_zero_of_not_mem hnextnot]
      · rw [if_neg hxn] at hx
        have hqn : q ≠ s.nextId := by
          rintro rfl
          exact hf.parent_ne_nextId hx
        by_cases hq : q = p
        · subst hq
          rw [if_pos rfl, hcount]
          simp [Ne.symm hxc, Ne.symm hxn, hf.parent_held hx]
        · rw [if_neg hq, if_neg hqn]
          exact hf.parent_held hx
  · -- link the new node to `p`, then `cur` to the new node
    let mid : NodeId → Option NodeId := fun x => if x = s.nextId then some p else s.parent? x
    have hmid : ∀ n, Grounded mid n :=
      grounded_of_link hf.grounded (c := s.nextId) (p := p) (fun x hx => if_neg hx) (if_pos rfl)
        fun hu => by
          rcases hu with he | hu
          · exact hpn he.symm
          · obtain ⟨x, hx⟩ := hu.exists_child
            exact hf.parent_ne_nextId hx
    refine grounded_of_link hmid (c := cur) (p := s.nextId) (fun x hx => ?_) ?_ ?_
    · rw [hpar, if_neg hx]
    · rw [hpar, if_pos rfl]
    · rintro (he | hu)
      · exact hcn he
      · have hmid : ∀ x, x ≠ s.nextId → mid x = s.parent? x := fun x hx => if_neg hx
        rcases above_of_link hmid (if_pos rfl : mid s.nextId = some p) hu with hu | ⟨-, hcp⟩
        · exact not_above_nextId s _ hu
        · rcases hcp with he | hcp
          · rw [he] at hcur
            exact hf.not_above_self p (.parent hcur)
          · exact hf.not_above_self cur (hcp.trans (.parent hcur))

end Fold

section Unfold

variable {cur hold grand : NodeId} {s₁ : Store}

theorem contains_unfold (h₁ : s.replaceChild grand hold cur = .ok s₁) (x : NodeId) :
    (s₁.discard hold).contains x = true ↔ x ≠ hold ∧ s.contains x = true := by
  rw [contains_iff_form?, form?_discard, form?_replaceChild h₁, contains_iff_form?]
  by_cases hx : hold = x
  · simp [hx]
  · simp [hx, Ne.symm hx]

theorem form?_unfold (h₁ : s.replaceChild grand hold cur = .ok s₁) (x : NodeId) :
    (s₁.discard hold).form? x = if x = hold then none else s.form? x := by
  rw [form?_discard, form?_replaceChild h₁]
  by_cases hx : x = hold
  · simp [hx]
  · simp [hx, Ne.symm hx]

theorem parent?_unfold (h₁ : s.replaceChild grand hold cur = .ok s₁) (x : NodeId) :
    (s₁.discard hold).parent? x =
      if x = hold then none else if x = cur then some grand else s.parent? x := by
  rw [parent?_discard, parent?_replaceChild h₁]
  by_cases hx : x = hold
  · simp [hx]
  · simp [hx, Ne.symm hx]

theorem held_unfold (h₁ : s.replaceChild grand hold cur = .ok s₁) (x : NodeId) :
    (s₁.discard hold).held x = if x = hold then []
      else if x = grand then (s.held grand).set ((s.held grand).idxOf hold) cur else s.held x := by
  rw [held_discard, held_replaceChild h₁]
  by_cases hx : x = hold
  · simp [hx]
  · simp [hx, Ne.symm hx]

/-- Giving a collapsed node's slot back to the container it folds, and dropping the
collapsed node, keeps the table a forest. -/
theorem Forest.unfold (hf : s.Forest) (hcur : s.parent? cur = some hold)
    (hform : s.form? hold = some .collapsed) (hg : s.parent? hold = some grand)
    (h₁ : s.replaceChild grand hold cur = .ok s₁) : (s₁.discard hold).Forest := by
  obtain ⟨inner, hin⟩ := held_of_collapsed hform
  have hheldh : s.held hold = [cur] := by
    have := hf.mem_held_iff.mpr hcur
    rw [hin, List.mem_singleton] at this
    rw [hin, this]
  have hgc : Above s.parent? grand cur := .up hcur (.parent hg)
  have hhg : hold ≠ grand := by
    intro he
    rw [← he] at hg
    exact hf.not_above_self hold (.parent hg)
  have hcg : cur ≠ grand := by
    intro he
    rw [← he] at hgc
    exact hf.not_above_self cur hgc
  have hch : cur ≠ hold := by
    intro he
    rw [he] at hcur
    exact hf.not_above_self hold (.parent hcur)
  have hmem : hold ∈ s.held grand := hf.mem_held_iff.mpr hg
  have hpar := parent?_unfold h₁
  have hheld := held_unfold h₁
  have hidx : (s.held grand).idxOf hold < (s.held grand).length := List.idxOf_lt_length_of_mem hmem
  have hcount : ∀ y, ((s.held grand).set ((s.held grand).idxOf hold) cur).count y =
      (s.held grand).count y - (if hold == y then 1 else 0) + (if cur == y then 1 else 0) := by
    intro y
    rw [List.count_set hidx, List.getElem_idxOf hidx]
  have hcnot : cur ∉ s.held grand := fun hm => by
    rw [hf.held_parent hm] at hcur
    exact hhg (Option.some.inj hcur).symm
  refine ⟨?_, ?_, ?_⟩
  · intro q x hx
    rw [hheld] at hx
    rw [hpar]
    by_cases hqh : q = hold
    · rw [if_pos hqh] at hx
      cases hx
    rw [if_neg hqh] at hx
    by_cases hq : q = grand
    · subst hq
      rw [if_pos rfl] at hx
      by_cases hxc : x = cur
      · rw [if_neg (hxc ▸ hch), if_pos hxc]
      · have hxs : x ∈ s.held q := (List.mem_or_eq_of_mem_set hx).resolve_right hxc
        have hxh : x ≠ hold := by
          intro hxh
          rw [hxh] at hx
          have h1 := hcount hold
          rw [hf.parent_held hg] at h1
          simp only [beq_self_eq_true, if_true, beq_iff_eq, hch, if_false] at h1
          have h2 := List.count_pos_iff.mpr hx
          omega
        rw [if_neg hxh, if_neg hxc]
        exact hf.held_parent hxs
    · rw [if_neg hq] at hx
      have hxq := hf.held_parent hx
      have hxh : x ≠ hold := by
        rintro rfl
        rw [hg] at hxq
        exact hq (Option.some.inj hxq).symm
      have hxc : x ≠ cur := by
        rintro rfl
        rw [hcur] at hxq
        exact hqh (Option.some.inj hxq).symm
      rw [if_neg hxh, if_neg hxc]
      exact hxq
  · intro x q hx
    rw [hpar] at hx
    rw [hheld]
    by_cases hxh : x = hold
    · rw [if_pos hxh] at hx
      cases hx
    rw [if_neg hxh] at hx
    by_cases hxc : x = cur
    · rw [if_pos hxc] at hx
      cases hx
      rw [if_neg (Ne.symm hhg), if_pos rfl, hcount, hxc]
      simp [List.count_eq_zero_of_not_mem hcnot]
    · rw [if_neg hxc] at hx
      have hqh : q ≠ hold := by
        rintro rfl
        have := hf.mem_held_iff.mpr hx
        rw [hheldh, List.mem_singleton] at this
        exact hxc this
      rw [if_neg hqh]
      by_cases hq : q = grand
      · subst hq
        rw [if_pos rfl, hcount]
        simp [Ne.symm hxh, Ne.symm hxc, hf.parent_held hx]
      · rw [if_neg hq]
        exact hf.parent_held hx
  · -- cut the collapsed node, then link `cur` to `grand`
    let cut : NodeId → Option NodeId := fun x => if x = hold then none else s.parent? x
    have hcut : ∀ x, cut x = s.parent? x ∨ cut x = none := fun x => by
      by_cases hx : x = hold
      · exact .inr (if_pos hx)
      · exact .inl (if_neg hx)
    refine grounded_of_link (grounded_of_cut hf.grounded hcut) (c := cur) (p := grand)
      (fun x hx => ?_) ?_ ?_
    · rw [hpar]
      by_cases hxh : x = hold
      · rw [if_pos hxh]
        exact (if_pos hxh).symm
      · rw [if_neg hxh, if_neg hx]
        exact (if_neg hxh).symm
    · rw [hpar, if_neg hch, if_pos rfl]
    · rintro (he | hu)
      · exact hcg he
      · exact hf.not_above_self cur ((above_of_cut hcut hu).trans hgc)

end Unfold

section Adopt

variable {ident : String} {inner : NodeId}

/-! A new collapsed node `s.nextId` that folds `inner`: the only new link is `inner`'s. -/

theorem parent?_adopt (hic : s.contains inner = true)
    (h : (s.alloc ident (.collapsed inner)).2.setParent inner (some s.nextId) = .ok s')
    (x : NodeId) : s'.parent? x = if x = inner then some s.nextId else s.parent? x := by
  obtain ⟨hic', rfl⟩ := setParent_eq_ok h
  have hin : inner ≠ s.nextId := ne_nextId_of_contains hic
  rw [parent?_setParentField, parent?_alloc]
  by_cases hx : x = inner
  · subst hx
    simp [hic']
  · by_cases hxn : x = s.nextId
    · subst hxn
      simp [hin, Ne.symm hin, parent?_nextId]
    · simp [hx, hxn, Ne.symm hx]

theorem held_adopt
    (h : (s.alloc ident (.collapsed inner)).2.setParent inner (some s.nextId) = .ok s')
    (x : NodeId) : s'.held x = if x = s.nextId then [inner] else s.held x := by
  obtain ⟨-, rfl⟩ := setParent_eq_ok h
  rw [held_setParentField, held_alloc]
  rfl

theorem form?_adopt
    (h : (s.alloc ident (.collapsed inner)).2.setParent inner (some s.nextId) = .ok s')
    (x : NodeId) : s'.form? x = if x = s.nextId then some .collapsed else s.form? x := by
  obtain ⟨-, rfl⟩ := setParent_eq_ok h
  rw [form?_setParentField, form?_alloc]
  rfl

theorem contains_adopt
    (h : (s.alloc ident (.collapsed inner)).2.setParent inner (some s.nextId) = .ok s')
    (x : NodeId) : s'.contains x = true ↔ x = s.nextId ∨ s.contains x = true := by
  obtain ⟨-, rfl⟩ := setParent_eq_ok h
  rw [contains_modify, contains_alloc]

/-- A new collapsed node that folds a node without a container keeps the table a forest. -/
theorem Forest.adopt (hf : s.Forest) (hic : s.contains inner = true)
    (htop : s.parent? inner = none)
    (h : (s.alloc ident (.collapsed inner)).2.setParent inner (some s.nextId) = .ok s') :
    s'.Forest := by
  have hin : inner ≠ s.nextId := ne_nextId_of_contains hic
  have hpar := parent?_adopt hic h
  have hheld := held_adopt h
  refine ⟨?_, ?_, ?_⟩
  · intro q x hx
    rw [hheld] at hx
    rw [hpar]
    by_cases hq : q = s.nextId
    · rw [if_pos hq, List.mem_singleton] at hx
      rw [if_pos hx, hq]
    · rw [if_neg hq] at hx
      have hxq := hf.held_parent hx
      have hxi : x ≠ inner := by
        rintro rfl
        rw [htop] at hxq
        cases hxq
      rw [if_neg hxi]
      exact hxq
  · intro x q hx
    rw [hpar] at hx
    rw [hheld]
    by_cases hxi : x = inner
    · rw [if_pos hxi] at hx
      cases hx
      rw [if_pos rfl, hxi, List.count_singleton_self]
    · rw [if_neg hxi] at hx
      have hqn : q ≠ s.nextId := by
        rintro rfl
        exact hf.parent_ne_nextId hx
      rw [if_neg hqn]
      exact hf.parent_held hx
  · refine grounded_of_link hf.grounded (c := inner) (p := s.nextId) (fun x hx => ?_) ?_ ?_
    · rw [hpar, if_neg hx]
    · rw [hpar, if_pos rfl]
    · rintro (he | hu)
      · exact hin he
      · exact not_above_nextId s _ hu

end Adopt

end Forest

end Store

end Docking
