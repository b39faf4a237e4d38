import Docking.Proofs.Hiding
/-!
# Showing a pane puts its part on screen

A walk that stays out of collapsed containers meets exactly the nodes with no collapsed
container between them and the walk's start (`Forest.mem_walk_false_iff`). Showing a pane
(`LayoutM.addPane`) either finds the part shown already, or puts a fresh pane into the slot of
the part's placeholder and unfolds every collapsed container above it, or puts it at the end
of the root split; in each case the pane ends below a window's root with no collapsed
container above it, so its part is among the shown panes (`ends_addPane_shows`).

The unfolding climb is followed by `Store.Unfolding`: standing at `cur`, the climb from the new
pane up to `cur` and on to the window's root is intact, every collapsed container above the
pane is still above `cur`, and a list of the containers above `cur` counts the steps left.
Each step, one level up or one collapsed container given back its slot, keeps it.
-/

namespace Docking

theorem Above.of_agree {par par' : NodeId → Option NodeId} {a y : NodeId} (ha : Above par a y)
    (hpar : ∀ x, Under par x y → Above par a x → par' x = par x) : Above par' a y := by
  induction ha with
  | @parent y h => exact .parent ((hpar y (.refl _) (.parent h)).trans h)
  | @up y m h ha ih =>
    refine .up ((hpar y (.refl _) (.up h ha)).trans h) (ih fun x hx hax => hpar x ?_ hax)
    exact .inr (hx.of_parent h)

theorem Above.trans_under {par : NodeId → Option NodeId} {a b c : NodeId} (hab : Above par a b)
    (hbc : Under par b c) : Above par a c := by
  rcases hbc with rfl | hbc
  · exact hab
  · exact hab.trans hbc

namespace Store

variable {s s' : Store}

/-! ### Walks that stay out of collapsed containers -/

/-- A walk that stays out of collapsed containers meets the nodes of the full walk that have
no collapsed container between them and the start. -/
theorem Forest.mem_walkFrom_false_iff (hf : s.Forest) (k : Nat) {t x : NodeId} :
    x ∈ s.walkFrom false k t ↔ x ∈ s.walkFrom true k t ∧
      ∀ a, Above s.parent? a x → Under s.parent? t a → s.form? a ≠ some .collapsed := by
  induction k generalizing t with
  | zero => simp [walkFrom]
  | succ k ih =>
    cases ht : s.get? t with
    | none => simp [walkFrom, ht]
    | some tn =>
      have hheld : ∀ c, c ∈ walkChildren true tn.kind → s.parent? c = some t := fun c hc =>
        hf.held_parent (by rw [held_of_get? ht]; exact hc)
      have htform : s.form? t = some tn.kind.form := by rw [form?, ht]; rfl
      -- no node above the start lies below it
      have hcyc : ∀ a, Above s.parent? a t → Under s.parent? t a → False := fun a ha hu => by
        rcases hu with rfl | hu
        · exact hf.not_above_self _ ha
        · exact hf.not_above_self _ (hu.trans ha)
      simp only [walkFrom, ht, List.mem_cons, List.mem_flatMap]
      constructor
      · rintro (rfl | ⟨c, hc, hx⟩)
        · exact ⟨.inl rfl, fun a ha hu => (hcyc a ha hu).elim⟩
        · have hct := hheld c (mem_walkChildren_true hc)
          have hnot : tn.kind.form ≠ .collapsed := fun hk => by
            rw [walkChildren_false, if_pos hk] at hc
            cases hc
          obtain ⟨hxc, hno⟩ := ih.mp hx
          refine ⟨.inr ⟨c, mem_walkChildren_true hc, hxc⟩, fun a ha hu => ?_⟩
          -- `a` is `t`, or lies between the child `c` and `x`
          rcases under_total (.inr ha) (hf.mem_walkFrom hxc).2 with hac | hca
          · rcases hac with rfl | hac
            · exact hno _ ha (.refl _)
            · rcases hac.step hct with rfl | hat
              · rw [htform]
                exact fun h => hnot (Option.some.inj h)
              · exact (hcyc a hat hu).elim
          · exact hno a ha hca
      · rintro ⟨rfl | ⟨c, hc, hx⟩, hno⟩
        · exact .inl rfl
        · have hct := hheld c hc
          have hnot : tn.kind.form ≠ .collapsed := fun hk =>
            hno t ((Above.parent hct).trans_under (hf.mem_walkFrom hx).2) (.refl _)
              (by rw [htform, hk])
          refine .inr ⟨c, ?_, ih.mpr ⟨hx, fun a ha hu => hno a ha ?_⟩⟩
          · rw [walkChildren_false, if_neg hnot]
            exact hc
          · exact (Under.of_above (.parent hct)).trans hu

/-- The nodes a window shows are the nodes below its root with no collapsed container
between. -/
theorem Forest.mem_walk_false_iff (hf : s.Forest) {t x : NodeId} :
    x ∈ s.walk t false ↔ s.contains x = true ∧ Under s.parent? t x ∧
      ∀ a, Above s.parent? a x → Under s.parent? t a → s.form? a ≠ some .collapsed := by
  rw [hf.walk_eq_walkFrom, hf.mem_walkFrom_false_iff, ← hf.walk_eq_walkFrom, hf.mem_walk_iff,
    and_assoc]

/-! ### Unfolding the collapsed containers above a node -/

/-- What the climb that unfolds the collapsed containers above `n` knows when it stands at
`cur`: the climb from `n` to `cur` and on to the root `r` of `n`'s window is intact, every
collapsed container above `n` is above `cur`, and `L` lists the containers above `cur`. -/
structure Unfolding (s : Store) (n r cur : NodeId) (L : List NodeId) : Prop where
  nodup : L.Nodup
  mem_iff : ∀ a, a ∈ L ↔ Above s.parent? a cur
  below : Under s.parent? cur n
  above : Under s.parent? r cur
  top : s.parent? r = none
  folds : ∀ a, Above s.parent? a n → s.form? a = some .collapsed → Above s.parent? a cur

/-- The climb starts at `n` itself. -/
theorem Unfolding.start (hf : s.Forest) {n r : NodeId} (hu : Under s.parent? r n)
    (htop : s.parent? r = none) :
    s.Unfolding n r n (s.ancestorsFrom s.slots.size n) where
  nodup := (List.nodup_cons.mp (hf.nodup_ancestorsFrom _ n)).2
  mem_iff _ := hf.mem_ancestorsFrom_iff
  below := .refl _
  above := hu
  top := htop
  folds _ ha _ := ha

theorem Unfolding.length_lt (hf : s.Forest) {n : NodeId} (hn : s.contains n = true) :
    (s.ancestorsFrom s.slots.size n).length < s.depthBound := by
  have := hf.length_ancestorsFrom_lt s.slots.size hn
  unfold depthBound
  omega

/-- Climbing past a container that folds nothing. -/
theorem Unfolding.climb (hf : s.Forest) {n r cur p : NodeId} {L : List NodeId}
    (hu : s.Unfolding n r cur L) (hp : s.parent? cur = some p)
    (hpc : s.form? p ≠ some .collapsed) : s.Unfolding n r p (L.erase p) where
  nodup := hu.nodup.erase p
  mem_iff a := by
    rw [hu.nodup.mem_erase_iff, hu.mem_iff]
    constructor
    · rintro ⟨hap, ha⟩
      exact (ha.step hp).resolve_left hap
    · intro ha
      exact ⟨fun he => hf.not_above_self p (he ▸ ha), .up hp ha⟩
  below := (Under.of_above (.parent hp)).trans hu.below
  above := by
    rcases hu.above with rfl | ha
    · rw [hu.top] at hp
      cases hp
    · rcases ha.step hp with rfl | ha
      · exact .refl _
      · exact .inr ha
  top := hu.top
  folds a ha hform := by
    rcases (hu.folds a ha hform).step hp with rfl | hap
    · exact absurd hform hpc
    · exact hap

section Unfold

variable {n r cur hold grand : NodeId} {L : List NodeId} {s₁ : Store} (hf : s.Forest)
  (hcur : s.parent? cur = some hold) (hform : s.form? hold = some .collapsed)
  (hg : s.parent? hold = some grand) (h₁ : s.replaceChild grand hold cur = .ok s₁)

include hf hcur hform hg h₁

/-- Unfolding `hold` adds no ancestor anywhere, and leaves none at `hold`. -/
theorem above_of_above_unfold {a y : NodeId} (ha : Above (s₁.discard hold).parent? a y) :
    Above s.parent? a y ∧ a ≠ hold := by
  have hpar := parent?_unfold h₁
  refine ⟨above_of_shortcut (fun x m hx => ?_) ha, fun he => ?_⟩
  · rw [hpar] at hx
    split at hx
    · cases hx
    split at hx
    · next hxc =>
      cases hx
      exact hxc ▸ .up hcur (.parent hg)
    · exact .parent hx
  · obtain ⟨z, hz⟩ := ha.exists_child
    have hac := (hf.unfold hcur hform hg h₁).contains_of_parent hz
    rw [he, contains_unfold h₁] at hac
    exact hac.1 rfl

/-- Unfolding `hold` links `cur` to `grand`: the containers above `cur` are those before but
`hold`. -/
theorem above_unfold_cur_iff {a : NodeId} :
    Above (s₁.discard hold).parent? a cur ↔ Above s.parent? a cur ∧ a ≠ hold := by
  have hpar := parent?_unfold h₁
  have hgc : Above s.parent? grand cur := .up hcur (.parent hg)
  have hhg : hold ≠ grand := by
    intro he
    subst he
    exact hf.not_above_self _ (.parent hg)
  have hch : cur ≠ hold := by
    intro he
    subst he
    exact hf.not_above_self _ (.parent hcur)
  -- the climb from `grand` passes neither `hold` nor `cur`, which lie below it
  have hgrand : ∀ b, Above s.parent? b grand → Above (s₁.discard hold).parent? b grand :=
    fun b hb => hb.of_agree fun x hx _ => by
      have hxh : x ≠ hold := by
        rintro rfl
        rcases hx with he | hx
        · exact hhg he
        · exact hf.not_above_self _ (hx.trans (.parent hg))
      have hxc : x ≠ cur := by
        rintro rfl
        rcases hx with he | hx
        · exact hf.not_above_self grand (he ▸ hgc)
        · exact hf.not_above_self _ (hx.trans hgc)
      rw [hpar, if_neg hxh, if_neg hxc]
  refine ⟨above_of_above_unfold hf hcur hform hg h₁, fun ⟨ha, hah⟩ => ?_⟩
  have hnew : (s₁.discard hold).parent? cur = some grand := by
    rw [hpar, if_neg hch, if_pos rfl]
  rcases ha.step hcur with rfl | ha
  · exact absurd rfl hah
  · rcases ha.step hg with rfl | ha
    · exact .parent hnew
    · exact .up hnew (hgrand a ha)

omit hform hg in
theorem above_unfold_to_cur {y : NodeId} (hy : Above s.parent? cur y) :
    Above (s₁.discard hold).parent? cur y := by
  have hpar := parent?_unfold h₁
  refine hy.of_agree fun x _ hcx => ?_
  have hxc : x ≠ cur := fun he => hf.not_above_self _ (he ▸ hcx)
  have hxh : x ≠ hold := fun he => hf.not_above_self _ ((he ▸ hcx).trans (.parent hcur))
  rw [hpar, if_neg hxh, if_neg hxc]

/-- Giving a collapsed container's slot back to the node it folds keeps the climb's
knowledge, with `hold` gone from the containers above `cur`. -/
theorem Unfolding.unfold (hu : s.Unfolding n r cur L) (hr : s.form? r ≠ some .collapsed) :
    (s₁.discard hold).Unfolding n r cur (L.erase hold) where
  nodup := hu.nodup.erase hold
  mem_iff a := by
    rw [hu.nodup.mem_erase_iff, hu.mem_iff, above_unfold_cur_iff hf hcur hform hg h₁, and_comm]
  below := by
    rcases hu.below with he | hb
    · exact .inl he
    · exact .inr (above_unfold_to_cur hf hcur h₁ hb)
  above := by
    have hrh : r ≠ hold := by
      rintro rfl
      exact hr hform
    rcases hu.above with rfl | ha
    · rw [hu.top] at hcur
      cases hcur
    · exact .inr ((above_unfold_cur_iff hf hcur hform hg h₁).mpr ⟨ha, hrh⟩)
  top := by
    have hrc : r ≠ cur := by
      rintro rfl
      rw [hu.top] at hcur
      cases hcur
    have hrh : r ≠ hold := by
      rintro rfl
      exact hr hform
    rw [parent?_unfold h₁, if_neg hrh, if_neg hrc, hu.top]
  folds a ha hfa := by
    obtain ⟨ha', hah⟩ := above_of_above_unfold hf hcur hform hg h₁ ha
    rw [form?_unfold h₁, if_neg hah] at hfa
    exact (above_unfold_cur_iff hf hcur hform hg h₁).mpr ⟨hu.folds a ha' hfa, hah⟩

end Unfold

theorem Unfolding.clear {n r cur : NodeId} {L : List NodeId} (hu : s.Unfolding n r cur L)
    (htop : s.parent? cur = none) :
    Under s.parent? r n ∧ ∀ a, Above s.parent? a n → s.form? a ≠ some .collapsed := by
  refine ⟨?_, fun a ha hfa => ?_⟩
  · rw [hu.above.eq_of_top htop]
    exact hu.below
  · obtain ⟨m, hm⟩ := (hu.folds a ha hfa).exists_parent
    rw [htop] at hm
    cases hm

/-! ### A fresh node in the slot of a leaf -/

section Replace

variable {ident : String} {kind : NodeKind} {p old : NodeId} {s₂ : Store}
  (h₂ : (s.alloc ident kind).2.replaceChild p old s.nextId = .ok s₂)
include h₂

theorem parent?_replace (x : NodeId) : (s₂.discard old).parent? x =
    if x = old then none else if x = s.nextId then some p else s.parent? x := by
  rw [parent?_discard, parent?_replaceChild h₂, parent?_alloc]
  by_cases hxo : x = old
  · simp [hxo]
  · by_cases hxn : x = s.nextId
    · subst hxn
      simp [hxo, Ne.symm hxo]
    · simp [hxo, hxn, Ne.symm hxo]

theorem form?_replace (x : NodeId) : (s₂.discard old).form? x =
    if x = old then none else if x = s.nextId then some kind.form else s.form? x := by
  rw [form?_discard, form?_replaceChild h₂, form?_alloc]
  by_cases hxo : x = old
  · simp [hxo]
  · simp [hxo, Ne.symm hxo]

/-- The fresh node lies below every node the leaf lay below, but the leaf itself. -/
theorem under_replace (hf : s.Forest) {r : NodeId} (hu : Under s.parent? r old) (hro : r ≠ old)
    (hpar : s.parent? old = some p) : Under (s₂.discard old).parent? r s.nextId := by
  have hon : old ≠ s.nextId :=
    ne_nextId_of_get? ((contains_iff _ _).mp (contains_of_parent? hpar)).choose_spec
  have hnew : (s₂.discard old).parent? s.nextId = some p := by
    rw [parent?_replace h₂, if_neg (Ne.symm hon), if_pos rfl]
  rcases hu with rfl | ha
  · exact absurd rfl hro
  rcases ha.step hpar with rfl | hrp
  · exact .inr (.parent hnew)
  -- the climb from the leaf's container up to `r` keeps its links
  refine .inr (.up hnew (hrp.of_agree fun x hx hrx => ?_))
  obtain ⟨m, hm⟩ := hrx.exists_parent
  have hxo : x ≠ old := by
    rintro rfl
    rcases hx with he | hx
    · rw [he] at hpar
      exact hf.not_above_self _ (.parent hpar)
    · exact hf.not_above_self _ (hx.trans (.parent hpar))
  rw [parent?_replace h₂, if_neg hxo,
    if_neg (ne_nextId_of_get? ((contains_iff _ _).mp (contains_of_parent? hm)).choose_spec)]

end Replace

/-! ### Tables of one shape -/

theorem walkFrom_false_sameShape (h : SameShape s s') :
    ∀ (k : Nat) (t : NodeId), s'.walkFrom false k t = s.walkFrom false k t
  | 0, _ => rfl
  | k + 1, t => by
    have hsh : s'.shownHeld t = s.shownHeld t := by simp only [shownHeld, (h t).2.1, (h t).2.2]
    have hk : s'.walkFrom false k = s.walkFrom false k := funext (walkFrom_false_sameShape h k)
    rw [walkFrom_false_succ, walkFrom_false_succ, h.contains_eq, hsh, hk]

theorem Forest.walk_false_sameShape (hf : s.Forest) (h : SameShape s s') (t : NodeId) :
    s'.walk t false = s.walk t false := by
  have hf' := hf.of_sameShape h
  rw [← hf'.walkFrom_stable (le_max_left s'.depthBound s.depthBound),
    ← hf.walkFrom_stable (le_max_right s'.depthBound s.depthBound), walkFrom_false_sameShape h]

theorem paneAt_sameShape (h : SameShape s s') : s'.paneAt = s.paneAt :=
  funext fun x => by rw [paneAt_eq_form, paneAt_eq_form, (h x).2.2]

end Store

namespace Layout

open Store

variable {l : Layout}

theorem Sound.collapsed_linked (hs : l.Sound []) {x : NodeId}
    (hx : l.store.form? x = some .collapsed) : ∃ g, l.store.parent? x = some g := by
  cases hp : l.store.parent? x with
  | some g => exact ⟨g, rfl⟩
  | none =>
    have hxc : l.store.contains x = true := (contains_iff_form? _ _).mpr (by rw [hx]; rfl)
    have hxt : x ∈ l.tops := by simpa using (hs.tops_iff x).mpr ⟨hxc, hp⟩
    rcases hs.top_isContainer hxt with h | h <;> rw [hx] at h <;> cases h

theorem mem_panes_of_unfolded (hf : l.store.Forest) {r n : NodeId} {pn : Pane}
    (hr : r ∈ l.windowRoots) (hu : Under l.store.parent? r n)
    (hno : ∀ a, Above l.store.parent? a n → l.store.form? a ≠ some .collapsed)
    (hform : l.store.form? n = some (.pane pn)) : pn.part ∈ l.panes := by
  rw [panes_eq_shown, List.mem_filterMap]
  refine ⟨n, List.mem_flatMap.mpr ⟨r, hr, hf.mem_walk_false_iff.mpr
    ⟨(contains_iff_form? _ _).mpr (by rw [hform]; rfl), hu, fun a ha _ => hno a ha⟩⟩, ?_⟩
  rw [paneAt_eq_form, hform]
  rfl

theorem mem_panes_of_findPane {part : PartId} {n : NodeId} (h : l.findPane part = some n) :
    part ∈ l.panes := by
  rw [findPane_eq_shown] at h
  rw [panes_eq_shown, List.mem_filterMap]
  exact ⟨n, List.mem_of_find?_eq_some h, by simpa using List.find?_some h⟩

theorem shown_sameShape {s s' : Store} (hf : s.Forest) (h : SameShape s s') :
    ({ l with store := s' } : Layout).shown = ({ l with store := s } : Layout).shown := by
  simp only [shown, windowRoots, hf.walk_false_sameShape h]

theorem panes_sameShape {s s' : Store} (hf : s.Forest) (h : SameShape s s') :
    ({ l with store := s' } : Layout).panes = ({ l with store := s } : Layout).panes := by
  rw [panes_eq_shown, panes_eq_shown, shown_sameShape hf h]
  exact congrArg (List.filterMap · _) (paneAt_sameShape h)

theorem findPane_sameShape {s s' : Store} (hf : s.Forest) (h : SameShape s s') (part : PartId) :
    ({ l with store := s' } : Layout).findPane part =
      ({ l with store := s } : Layout).findPane part := by
  rw [findPane_eq_shown, findPane_eq_shown, shown_sameShape hf h]
  simp only [paneAt_sameShape h]

end Layout

namespace LayoutM

open Layout

variable {l : Layout}

/-- The climb from `cur` unfolds every collapsed container above `n` and keeps `n` below the
root `r` of its window. The induction is on the fuel, which the containers left above `cur`
never reach; only the table changes, and only collapsed nodes leave it. -/
theorem ends_unfoldFrom_clears {n r : NodeId} : ∀ (k : Nat) (cur : NodeId) (L : List NodeId)
    {l : Layout}, l.Sound [] → l.store.Unfolding n r cur L → L.length < k →
    l.store.form? r ≠ some .collapsed →
    Ends (unfoldFrom k cur) l (fun _ l' => l'.Sound [] ∧ (∃ s, l' = { l with store := s }) ∧
      (∀ x, l.store.form? x ≠ some .collapsed → l'.store.form? x = l.store.form? x) ∧
      Under l'.store.parent? r n ∧
      ∀ a, Above l'.store.parent? a n → l'.store.form? a ≠ some .collapsed) fun _ _ => False
  | 0, _, _, _, _, _, hlen, _ => absurd hlen (Nat.not_lt_zero _)
  | k + 1, cur, L, l, hs, hu, hlen, hr => by
    have hf := hs.forest
    rw [unfoldFrom, ends_climbFrom_succ, unfoldPass, ends_bind, ends_store]
    split
    · next htop => exact ⟨hs, ⟨_, rfl⟩, fun _ _ => rfl, hu.clear htop⟩
    next parent hpar =>
    obtain ⟨pn, hpn⟩ := (Store.contains_iff _ _).mp (hf.contains_of_parent hpar)
    have hlen' : (L.erase parent).length < k := by
      have hmem : parent ∈ L := (hu.mem_iff parent).mpr (.parent hpar)
      have := List.length_erase_of_mem hmem
      have := List.length_pos_of_mem hmem
      omega
    rw [ends_bind, ends_node_of hpn]
    split
    · next inner hk =>
      have hpform : l.store.form? parent = some .collapsed := by
        rw [Store.form?_of_get? hpn, hk]
        rfl
      split
      · split
        · next hg => exact absurd hg (by
            obtain ⟨g, hg'⟩ := hs.collapsed_linked hpform
            rw [hg']
            simp)
        next grand hg =>
        -- `cur` takes the slot of the collapsed node that folds it
        obtain ⟨s₁, h₁⟩ := Store.replaceChild_ok (hs.holder_of_collapsed hpform hg)
          (hf.mem_held_iff.mpr hg) (hf.contains_of_parent hpar) (Store.contains_of_parent? hpar)
        simp only [ends_bind, ends_edit, h₁, ends_onStore, ends_pure, Option.elim_some]
        have hrp : r ≠ parent := by
          rintro rfl
          exact hr hpform
        refine (ends_unfoldFrom_clears k cur (L.erase parent) (hs.unfold hpar hpform hg h₁)
          (hu.unfold hf hpar hpform hg h₁ hr) hlen'
          (by rwa [Store.form?_unfold h₁, if_neg hrp])).mono
          (fun _ l' h => ?_) fun _ _ h => h.elim
        obtain ⟨hs', ⟨s₂, rfl⟩, hforms, hrest⟩ := h
        refine ⟨hs', ⟨s₂, rfl⟩, fun x hx => ?_, hrest⟩
        have hxp : x ≠ parent := by
          rintro rfl
          exact hx hpform
        rw [hforms x (by rwa [Store.form?_unfold h₁, if_neg hxp]), Store.form?_unfold h₁,
          if_neg hxp]
      · next hne =>
        -- a collapsed node holds exactly the node it folds
        have hmem := hf.mem_held_iff.mpr hpar
        rw [Store.held_of_get? hpn, hk] at hmem
        simp only [Store.walkChildren, if_true, List.mem_singleton] at hmem
        exact absurd (by rw [hmem]; exact beq_self_eq_true _) hne
    · next hk =>
      have hpc : l.store.form? parent ≠ some .collapsed := by
        rw [Store.form?_of_get? hpn]
        intro he
        cases hkind : pn.kind with
        | collapsed inner => exact hk inner hkind
        | _ => rw [hkind] at he; cases he
      rw [ends_pure, Option.elim_some]
      exact ends_unfoldFrom_clears k parent (L.erase parent) hs (hu.climb hf hpar hpc) hlen' hr

/-- A pane that takes the slot of a placeholder below a window's root is shown: the climb
above it unfolds every collapsed container. -/
theorem ends_replacePlaceholder_shows (hs : l.Sound []) {holder r : NodeId}
    (hh : l.store.IsLeaf holder) (hr : r ∈ l.windowRoots) (hu : Under l.store.parent? r holder)
    (pane : Pane) :
    Ends (replacePlaceholder holder pane) l (fun _ l' => l'.Sound [] ∧ pane.part ∈ l'.panes)
      fun _ _ => False := by
  have hf := hs.forest
  have hrt := hs.top_of_mem (List.mem_append_left _ (mem_tops_of_windowRoots hr))
  have hrc : l.store.IsContainer r := hs.top_isContainer (mem_tops_of_windowRoots hr)
  have hrh : r ≠ holder := fun he => hh.not_isContainer (he ▸ hrc)
  have hrn : r ≠ l.store.nextId := Store.ne_nextId_of_contains hrt.1
  rw [replacePlaceholder, ends_bind, ends_store]
  split
  · next parent hpar =>
    obtain ⟨s₂, h₂, hs₃⟩ := sound_replaceHolder hs hh hpar pane
    simp only [ends_bind, ends_alloc, ends_onError, ends_edit, h₂, ends_onStore]
    -- the fresh pane lies below `r`, which keeps its form and stays a top
    have hnh : l.store.nextId ≠ holder := Ne.symm (Store.ne_nextId_of_contains
      (Store.contains_of_parent? hpar))
    have hnform : (s₂.discard holder).form? l.store.nextId = some (.pane pane) := by
      rw [Store.form?_replace h₂, if_neg hnh, if_pos rfl]
      rfl
    have htop : (s₂.discard holder).parent? r = none := by
      rw [Store.parent?_replace h₂, if_neg hrh, if_neg hrn, hrt.2]
    have hrform : (s₂.discard holder).form? r ≠ some .collapsed := by
      rw [Store.form?_replace h₂, if_neg hrh, if_neg hrn]
      rcases hrc with h | h <;> rw [h] <;> simp
    have hnc : (s₂.discard holder).contains l.store.nextId = true :=
      (Store.contains_iff_form? _ _).mpr (by rw [hnform]; rfl)
    rw [unfoldAbove, ends_bind, ends_store]
    refine (ends_unfoldFrom_clears _ _ _ hs₃
      (Store.Unfolding.start hs₃.forest (Store.under_replace h₂ hf hu hrh hpar) htop)
      (Store.Unfolding.length_lt hs₃.forest hnc) hrform).mono (fun _ l' h => ?_)
      fun _ _ h => h.elim
    obtain ⟨hs₄, ⟨s₄, rfl⟩, hforms, hu₄, hno⟩ := h
    rw [ends_select, ends_pure]
    refine ⟨hs₄.sameShape (Store.sameShape_select _ _) (hs₄.aligned.select _), ?_⟩
    rw [panes_sameShape hs₄.forest (Store.sameShape_select _ _)]
    exact mem_panes_of_unfolded hs₄.forest hr hu₄ hno
      ((hforms _ (by rw [hnform]; simp)).trans hnform)
  · next hnone =>
    obtain ⟨m, hm⟩ := (hu.resolve_left hrh).exists_parent
    exact (hnone m hm).elim

/-- A view without a place goes to the end of the root split, where it is shown. -/
theorem ends_placeDefault_shows (hs : l.Sound []) (pane : Pane) (hview : pane.kind = .view) :
    Ends (placeDefault pane) l (fun _ l' => l'.Sound [] ∧ pane.part ∈ l'.panes)
      fun _ _ => False := by
  have hf := hs.forest
  have hrt := hs.top_of_mem hs.root_mem
  have hshow : Ends (placeDefault pane) l (fun _ l' => pane.part ∈ l'.panes) fun _ _ => True := by
    rw [placeDefault, ends_bind, ends_alloc, ends_bind, ends_get, ends_bind, ends_onError]
    split
    · next hk =>
      rw [hview] at hk
      cases hk
    · have hrc : (l.store.alloc pane.part (.pane pane)).2.IsContainer l.root :=
        Store.IsContainer.alloc (.inr hs.root_split) _ _
      obtain ⟨s₃, h₃⟩ := Store.pushChild_ok hrc ((Store.contains_alloc _ _ _ _).mpr (.inl rfl))
      have hf₃ : s₃.Forest := (hf.alloc rfl).pushChild h₃ (by rw [Store.parent?_alloc, if_pos rfl])
        (hf.not_under_alloc hrt.1)
      have hrn : l.root ≠ l.store.nextId := Store.ne_nextId_of_contains hrt.1
      have hpar : s₃.parent? l.store.nextId = some l.root := by
        rw [Store.parent?_pushChild h₃, if_pos rfl]
      have hrtop : s₃.parent? l.root = none := by
        rw [Store.parent?_pushChild h₃, if_neg hrn, Store.parent?_alloc, if_neg hrn, hrt.2]
      simp only [ends_edit, h₃, ends_bind, ends_select, ends_pure]
      rw [panes_sameShape hf₃ (Store.sameShape_select _ _)]
      -- only the root split is above the new pane
      refine mem_panes_of_unfolded hf₃ List.mem_cons_self (.inr (.parent hpar)) (fun a ha => ?_) ?_
      · rcases ha.step hpar with rfl | ha
        · rw [Store.form?_pushChild h₃, Store.form?_alloc, if_neg hrn, hs.root_split]
          simp
        · obtain ⟨m, hm⟩ := ha.exists_parent
          rw [hrtop] at hm
          cases hm
      · rw [Store.form?_pushChild h₃, Store.form?_alloc, if_pos rfl]
        rfl
  exact ((ends_placeDefault hs pane).and hshow).mono (fun _ _ h => h) fun _ _ h => h.1

/-- A window that opens shows its folder. -/
theorem ends_openWindow_root (f : NodeId) (b : FloatRect) :
    Ends (openWindow f b) l (fun w l' => w.isSome = true → f ∈ l'.windowRoots)
      fun _ _ => True := by
  rw [openWindow, ends_bind, ends_get]
  dsimp only
  split
  · rw [ends_bind, ends_set, ends_pure]
    simp
  · rw [ends_bind, ends_set, ends_pure]
    intro _
    simp [windowRoots]

/-- Showing a view puts its part among the shown panes and keeps the layout sound: the part
was shown already, or its pane takes the slot of its placeholder in a shown window or in a
parked window that reopens, or it goes to the end of the root split. -/
theorem ends_addPane_shows (hs : l.Sound []) (pane : Pane) (hview : pane.kind = .view) :
    Ends (addPane pane) l (fun _ l' => l'.Sound [] ∧ pane.part ∈ l'.panes) fun _ _ => False := by
  have hs₀ : ({ { l with zoomed := none } with
      fastViews := l.fastViews.filter (· != pane.part) } : Layout).Sound [] :=
    hs.of_frames rfl rfl rfl rfl rfl rfl
  rw [addPane, ends_bind, ends_zoomOut, ends_bind, ends_dropFast, ends_bind, ends_get]
  split
  · next hfind => exact ⟨hs₀, mem_panes_of_findPane hfind⟩
  split
  · next holder hfind =>
    obtain ⟨r, hr, hrh⟩ := List.exists_of_findSome?_eq_some hfind
    exact ends_replacePlaceholder_shows hs₀ ⟨_, Store.findPlaceholder_form hrh, rfl⟩ hr
      (hs.forest.mem_walk_iff.mp (List.mem_of_find?_eq_some hrh)).2 pane
  split
  · exact ends_placeDefault_shows hs₀ pane hview
  next i hi =>
  split
  · exact ends_placeDefault_shows hs₀ pane hview
  next w hw =>
  obtain ⟨hlt, hpi, -⟩ := List.findIdx?_eq_some_iff_getElem.mp hi
  obtain ⟨_, hwi⟩ := List.getElem?_eq_some_iff.mp hw
  subst hwi
  have hfold := hs₀.frames_folders _ (List.mem_append_right _ (List.mem_map_of_mem
    (List.getElem_mem hlt)))
  rw [ends_bind, ends_set, ends_bind]
  refine ((ends_openWindow (hs₀.unpark hlt) List.mem_cons_self hfold _).and
    (ends_openWindow_root _ _)).mono (fun r l' hr => ?_) fun _ _ h => h.1.elim
  obtain ⟨⟨hst, -, -, hs'⟩, hroot⟩ := hr
  rw [ends_bind, ends_store]
  cases r with
  | some wid =>
    -- the reopened window shows the placeholder
    rw [if_pos Option.isSome_some, List.erase_cons_head] at hs'
    obtain ⟨holder, hholder⟩ := Option.isSome_iff_exists.mp hpi
    have hholder' : l'.store.findPlaceholder _ pane.part = some holder := hst ▸ hholder
    simp only [Option.isSome_some, if_true, hholder']
    exact ends_replacePlaceholder_shows hs' ⟨_, Store.findPlaceholder_form hholder', rfl⟩
      (hroot rfl) (hs'.forest.mem_walk_iff.mp (List.mem_of_find?_eq_some hholder')).2 pane
  | none =>
    rw [if_neg (c := (none : Option WindowId).isSome = true) Bool.false_ne_true] at hs'
    simp only [Option.isSome_none, Bool.false_eq_true, if_false]
    rw [ends_bind, ends_onStore]
    have hfold' : l'.store.form? _ = some .folder := hst ▸ hfold
    have hfree := hs'.free List.mem_cons_self (hs'.not_under_area (by rw [hfold']; simp))
    rw [List.erase_cons_head] at hfree
    exact ends_placeDefault_shows hfree pane hview

theorem ends_restoreFast_shows (hs : l.Sound []) {part : PartId} (hfast : l.isFast part = true) :
    Ends (restoreFast part) l (fun _ l' => l'.Sound [] ∧ part ∈ l'.panes) fun _ _ => False := by
  rw [restoreFast, ends_bind, ends_get]
  exact ends_guard (fun h => by simp [hfast] at h) fun _ => ends_addPane_shows hs _ rfl

end LayoutM

end Docking
