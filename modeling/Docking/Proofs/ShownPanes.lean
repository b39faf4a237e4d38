import Docking.Proofs.Leaves
/-!
# The panes the walks show

`Layout.panes` lists the parts of the panes met by the walks from the window roots that stay
out of collapsed containers. This module reads such a walk through the views of the node
table, `form?` and `held`, so that what an edit does to the shown panes follows from what it
does to the views:

* `Forest.walkFrom_stable`: in a forest a walk with as much fuel as the table has slots, or
  more, meets every node below its start, so walks over tables of different sizes compare;
* `walkFrom_replaceLeaf`: a fresh leaf put into the slot of a leaf takes its place in every
  walk that starts at neither;
* `shownParts_fold`: folding a container that shows no pane behind a collapsed node hides no
  pane;
* `filterMap_erase_of_find?`: leaving out the first node of a walk that shows a part leaves
  out the first occurrence of that part among the parts shown.
-/

namespace Docking

namespace Store

/-- The part a node shows when it is a pane. -/
def paneAt (s : Store) (x : NodeId) : Option PartId :=
  (s.get? x).bind (·.kind.pane?) |>.map (·.part)

/-- The nodes a walk that stays out of collapsed containers goes into from `x`. -/
def shownHeld (s : Store) (x : NodeId) : List NodeId :=
  if s.form? x = some .collapsed then [] else s.held x

variable {s : Store}

theorem paneAt_eq_form (s : Store) (x : NodeId) :
    s.paneAt x = (s.form? x).bind Form.panePart := by
  unfold paneAt form?
  cases s.get? x with
  | none => rfl
  | some n =>
    obtain ⟨_, _, _, kind⟩ := n
    cases kind <;> rfl

theorem walkChildren_false (k : NodeKind) :
    walkChildren false k = if k.form = .collapsed then [] else walkChildren true k := by
  cases k <;> rfl

/-- One level of a walk that stays out of collapsed containers, read through the views. -/
theorem walkFrom_false_succ (s : Store) (k : Nat) (x : NodeId) :
    s.walkFrom false (k + 1) x =
      if s.contains x then x :: (s.shownHeld x).flatMap (s.walkFrom false k) else [] := by
  cases hx : s.get? x with
  | none => simp [walkFrom, contains, hx]
  | some n =>
    have hsh : s.shownHeld x = walkChildren false n.kind := by
      simp only [shownHeld, form?, held, hx, Option.map_some, Option.some.injEq,
        walkChildren_false]
    simp [walkFrom, contains, hx, hsh]

theorem walkFrom_leaf {x : NodeId} (hx : s.contains x = true) (hl : s.held x = []) (k : Nat) :
    s.walkFrom false (k + 1) x = [x] := by
  rw [walkFrom_false_succ, if_pos hx, shownHeld]
  split <;> simp [hl]

/-- A walk with one more level of fuel goes at least as far. -/
theorem walkFrom_sublist_succ (b : Bool) :
    ∀ (k : Nat) (x : NodeId), List.Sublist (s.walkFrom b k x) (s.walkFrom b (k + 1) x)
  | 0, _ => List.nil_sublist _
  | k + 1, x => by
    cases hx : s.get? x with
    | none => simp [walkFrom, hx]
    | some n =>
      simp only [walkFrom, hx]
      refine List.Sublist.cons_cons _ ?_
      induction walkChildren b n.kind with
      | nil => exact List.Sublist.refl _
      | cons c cs ih =>
        simp only [List.flatMap_cons]
        exact (walkFrom_sublist_succ b k c).append ih

/-- The panes below a node are the panes its walk shows. -/
theorem length_shownParts (s : Store) :
    ∀ (k : Nat) (x : NodeId),
      ((s.walkFrom false k x).filterMap s.paneAt).length = s.panesBelow k x
  | 0, _ => rfl
  | k + 1, x => by
    cases hx : s.get? x with
    | none => simp [walkFrom, panesBelow, hx]
    | some n =>
      obtain ⟨ident, parent, bounds, kind⟩ := n
      -- the walk and the count go into the same children; only a pane counts itself
      have hchildren : ∀ cs : List NodeId,
          ((cs.flatMap (s.walkFrom false k)).filterMap s.paneAt).length =
            (cs.map (s.panesBelow k)).foldr (· + ·) 0 := by
        intro cs
        induction cs with
        | nil => rfl
        | cons c cs ih =>
          rw [List.flatMap_cons, List.filterMap_append, List.length_append, ih,
            length_shownParts s k c, List.map_cons, List.foldr_cons]
      cases kind <;>
        simp [walkFrom, panesBelow, hx, walkChildren, paneAt, NodeKind.pane?, hchildren]

/-! ### Fuel -/

/-- In a forest a walk with at least the bound of its paths as fuel is the full walk. -/
theorem Forest.walkFrom_stable (hf : s.Forest) {k : Nat} (hk : s.depthBound ≤ k) (b : Bool)
    (t : NodeId) : s.walkFrom b k t = s.walk t b := by
  induction k, hk using Nat.le_induction with
  | base => exact (hf.walk_eq_walkFrom t b).symm
  | succ k hk ih =>
    rw [hf.walkFrom_succ_of_deep b k t (by unfold depthBound at hk; omega), ih]

/-- A node that shows no pane shows none at any depth. -/
theorem Forest.shownParts_eq_nil (hf : s.Forest) {c : NodeId} (hc : s.countPanes c = 0)
    (k : Nat) : (s.walkFrom false k c).filterMap s.paneAt = [] := by
  have hfull : (s.walk c false).filterMap s.paneAt = [] := by
    rw [← List.length_eq_zero_iff, hf.walk_eq_walkFrom, length_shownParts]
    exact hc
  by_cases hk : s.depthBound ≤ k
  · rw [hf.walkFrom_stable hk]
    exact hfull
  · -- a shallower walk is part of the full one
    have hsub : List.Sublist (s.walkFrom false k c) (s.walk c false) := by
      rw [hf.walk_eq_walkFrom]
      induction s.depthBound, (by omega : k ≤ s.depthBound) using Nat.le_induction with
      | base => exact List.Sublist.refl _
      | succ j _ ih => exact ih.trans (walkFrom_sublist_succ false j c)
    exact List.eq_nil_of_sublist_nil (hfull ▸ hsub.filterMap s.paneAt)

/-! ### Edits that change the walks in one place -/

/-- The children of a container with one of them, `n`, put in the slot of another, read
child by child. -/
theorem flatMap_set_idxOf {α : Type} {L : List NodeId} {n h : NodeId} {f g : NodeId → List α}
    (hnd : L.Nodup) (hn : n ∈ L) (hslot : f h = g n) (hrest : ∀ c ∈ L, c ≠ n → f c = g c) :
    (L.set (L.idxOf n) h).flatMap f = L.flatMap g := by
  induction L with
  | nil => cases hn
  | cons a L ih =>
    obtain ⟨ha, hnd⟩ := List.nodup_cons.mp hnd
    by_cases han : a = n
    · subst han
      rw [List.idxOf_cons_self, List.set_cons_zero, List.flatMap_cons, List.flatMap_cons, hslot,
        List.flatMap_congr fun c hc => hrest c (List.mem_cons_of_mem _ hc)
          fun he => ha (he ▸ hc)]
    · rw [List.idxOf_cons_ne _ (by simpa using han), List.set_cons_succ, List.flatMap_cons,
        List.flatMap_cons, hrest a List.mem_cons_self han,
        ih hnd ((List.mem_cons.mp hn).resolve_left (Ne.symm han))
          fun c hc => hrest c (List.mem_cons_of_mem _ hc)]

/-- Leaving out the first node that shows the part `v` leaves out the first `v` among the
parts shown. -/
theorem filterMap_erase_of_find? {L : List NodeId} {f : NodeId → Option PartId}
    {q : NodeId → Bool} {n : NodeId} {v : PartId} (hq : ∀ y, q y = true ↔ f y = some v)
    (hfind : L.find? q = some n) (hnd : L.Nodup) :
    L.filterMap (fun y => if y = n then none else f y) = (L.filterMap f).erase v := by
  induction L with
  | nil => cases hfind
  | cons a L ih =>
    obtain ⟨ha, hnd⟩ := List.nodup_cons.mp hnd
    rw [List.find?_cons] at hfind
    cases hqa : q a with
    | true =>
      rw [hqa] at hfind
      obtain rfl : a = n := Option.some.inj hfind
      rw [List.filterMap_cons, if_pos rfl, List.filterMap_cons, (hq a).mp hqa,
        List.erase_cons_head]
      exact List.filterMap_congr fun y hy => by
        rw [if_neg fun he : y = a => ha (he ▸ hy)]
    | false =>
      rw [hqa] at hfind
      -- `n` comes later, so `a` shows another part or none
      have han : a ≠ n := fun he => ha (he ▸ List.mem_of_find?_eq_some hfind)
      rw [List.filterMap_cons, if_neg han, List.filterMap_cons]
      cases hfa : f a with
      | none => exact ih hfind hnd
      | some w =>
        have hwv : ¬(w == v) = true := fun he => by
          rw [beq_iff_eq.mp he] at hfa
          rw [(hq a).mpr hfa] at hqa
          cases hqa
        rw [List.erase_cons_tail hwv, ih hfind hnd]

section ReplaceLeaf

/-! A fresh leaf `h` takes the slot of the leaf `n` in its container `p`, and `n` goes. -/

variable {s₂ : Store} {p n h : NodeId} (hf : s.Forest) (hnp : s.parent? n = some p)
  (hcon : ∀ y, y ≠ n → y ≠ h → s₂.contains y = s.contains y)
  (hform : ∀ y, y ≠ n → y ≠ h → s₂.form? y = s.form? y)
  (hheld : ∀ y, y ≠ p → y ≠ h → s₂.held y = s.held y)
  (hslot : s₂.held p = (s.held p).set ((s.held p).idxOf n) h)
  (hp : s.form? p ≠ some .collapsed) (hnl : s.held n = [])
  (hh : s₂.contains h = true) (hhl : s₂.held h = []) (hhs : s.contains h = false)
include hf hnp hcon hform hheld hslot hp hnl hh hhl hhs

/-- Every walk that starts at neither leaf meets the new leaf where it met the old one. -/
theorem walkFrom_replaceLeaf :
    ∀ (k : Nat) (x : NodeId), x ≠ n → x ≠ h →
      s₂.walkFrom false k x = (s.walkFrom false k x).map fun y => if y = n then h else y := by
  intro k
  induction k with
  | zero => intro x _ _; rfl
  | succ k ih =>
    intro x hxn hxh
    -- the children of a node of the table are in the table, so none is the new leaf
    have hnh : ∀ {y c}, c ∈ s.held y → c ≠ h := fun hc =>
      (ne_of_contains_false hhs (contains_of_parent? (hf.held_parent hc))).symm
    have hheld_of : ∀ {y c}, c ∈ s.shownHeld y → c ∈ s.held y := fun hc => by
      unfold shownHeld at hc
      split at hc
      · cases hc
      · exact hc
    rw [walkFrom_false_succ, walkFrom_false_succ, hcon x hxn hxh]
    by_cases hxc : s.contains x = true
    · rw [if_pos hxc, if_pos hxc, List.map_cons, if_neg hxn, List.map_flatMap]
      congr 1
      by_cases hxp : x = p
      · subst hxp
        have hsh₂ : s₂.shownHeld x = (s.held x).set ((s.held x).idxOf n) h := by
          rw [shownHeld, hform x hxn hxh, if_neg hp, hslot]
        rw [hsh₂, shownHeld, if_neg hp]
        refine flatMap_set_idxOf (hf.held_nodup x) (hf.mem_held_iff.mpr hnp) ?_
          fun c hc hcn => ih c hcn (hnh hc)
        -- the new leaf shows itself where the old one did
        cases k with
        | zero => rfl
        | succ k =>
          rw [walkFrom_leaf hh hhl, walkFrom_leaf (contains_of_parent? hnp) hnl]
          simp
      · have hsh : s₂.shownHeld x = s.shownHeld x := by
          rw [shownHeld, shownHeld, hform x hxn hxh, hheld x hxp hxh]
        rw [hsh]
        refine List.flatMap_congr fun c hc => ih c ?_ (hnh (hheld_of hc))
        -- `n` is held by `p` alone
        rintro rfl
        exact hxp (Option.some.inj ((hf.held_parent (hheld_of hc)).symm.trans hnp))
    · rw [if_neg hxc, if_neg hxc]
      rfl

end ReplaceLeaf

section Fold

/-! A container `c` of `pp` that shows no pane is folded behind the collapsed node `hd`,
which takes its slot. -/

variable {s₃ : Store} {pp c hd : NodeId} (hf : s.Forest) (hcp : s.parent? c = some pp)
  (hcon : ∀ y, y ≠ hd → s₃.contains y = s.contains y)
  (hform : ∀ y, y ≠ hd → s₃.form? y = s.form? y)
  (hheld : ∀ y, y ≠ pp → y ≠ hd → s₃.held y = s.held y)
  (hslot : s₃.held pp = (s.held pp).set ((s.held pp).idxOf c) hd)
  (hpp : s.form? pp ≠ some .collapsed) (hhd : s₃.form? hd = some .collapsed)
  (hds : s.contains hd = false) (hc : s.countPanes c = 0)

include hform hhd hds in
theorem paneAt_fold : s₃.paneAt = s.paneAt := funext fun y => by
  rw [paneAt_eq_form, paneAt_eq_form]
  by_cases hy : y = hd
  · subst hy
    rw [hhd, form?_eq_none_iff.mpr (by simpa [contains] using hds)]
    rfl
  · rw [hform y hy]

include hf hcp hcon hform hheld hslot hpp hhd hds hc in
/-- Every walk that does not start at the collapsed node shows the same panes. -/
theorem shownParts_fold : ∀ (k : Nat) (x : NodeId), x ≠ hd →
    (s₃.walkFrom false k x).filterMap s₃.paneAt = (s.walkFrom false k x).filterMap s.paneAt := by
  rw [paneAt_fold hform hhd hds]
  intro k
  induction k with
  | zero => intro x _; rfl
  | succ k ih =>
    intro x hxd
    have hnd : ∀ {y c}, c ∈ s.held y → c ≠ hd := fun hc =>
      (ne_of_contains_false hds (contains_of_parent? (hf.held_parent hc))).symm
    have hheld_of : ∀ {y c}, c ∈ s.shownHeld y → c ∈ s.held y := fun hc => by
      unfold shownHeld at hc
      split at hc
      · cases hc
      · exact hc
    rw [walkFrom_false_succ, walkFrom_false_succ, hcon x hxd]
    by_cases hxc : s.contains x = true
    · rw [if_pos hxc, if_pos hxc, List.filterMap_cons, List.filterMap_cons,
        List.filterMap_flatMap, List.filterMap_flatMap]
      have hrest : (s₃.shownHeld x).flatMap (fun c => (s₃.walkFrom false k c).filterMap s.paneAt) =
          (s.shownHeld x).flatMap (fun c => (s.walkFrom false k c).filterMap s.paneAt) := by
        by_cases hxp : x = pp
        · subst hxp
          rw [shownHeld, hform x hxd, if_neg hpp, hslot, shownHeld, if_neg hpp]
          refine flatMap_set_idxOf (hf.held_nodup x) (hf.mem_held_iff.mpr hcp) ?_
            fun c' hc' _ => ih c' (hnd hc')
          -- the collapsed node shows nothing, nor did the container it folds
          rw [hf.shownParts_eq_nil hc]
          cases k with
          | zero => rfl
          | succ k =>
            rw [walkFrom_false_succ, shownHeld, if_pos hhd]
            split <;> simp [paneAt_eq_form, form?_eq_none_iff.mpr (by simpa [contains] using hds)]
        · have hsh : s₃.shownHeld x = s.shownHeld x := by
            rw [shownHeld, shownHeld, hform x hxd, hheld x hxp hxd]
          rw [hsh]
          exact List.flatMap_congr fun c' hc' => ih c' (hnd (hheld_of hc'))
      rw [hrest]
    · rw [if_neg hxc, if_neg hxc]

end Fold

end Store

end Docking
