import Docking.Proofs.Tabs
/-!
# Where docking puts a node

Docking a node against a side of an anchor (`LayoutM.moveNode`) puts it right before the
anchor for the leading sides (left, top) and right after it otherwise, in a split of the
side's orientation. Three ways are stated over the stores before and after:

* `Store.Reordered`: the node and the anchor shared such a split, which keeps its children
  with their weights while the node moves within it.
* `Store.DockedAt`: against the root, which turns to the side's orientation and holds the
  node first or last, handing a turned root's children to one new split of its old one.
* `Store.JoinedBeside` and `Store.WrappedBeside`: beside an anchor in such a split, halving
  its weight; otherwise a new split takes the anchor's place and holds the two.

The last two are stated over the layout that taking the node out (`LayoutM.lift`) leaves.
Main statement: `Layout.Reachable.docking_places_unit`.
-/

namespace Docking

/-- `u` stands right before `a` in `cs` when `leading`, right after it otherwise. -/
def Beside (cs : List NodeId) (u a : NodeId) (leading : Bool) : Prop :=
  ∃ xs ys, cs = xs ++ (if leading then [u, a] else [a, u]) ++ ys

/-- Inserting `u` at the place of `a`, or right after it, puts it beside `a`. -/
theorem beside_insertIdx (u : NodeId) (leading : Bool) :
    ∀ {cs : List NodeId} {i : Nat} {a : NodeId}, cs[i]? = some a →
      Beside (cs.insertIdx (if leading then i else i + 1) u) u a leading
  | [], _, _, h => by cases h
  | c :: cs, 0, a, h => by
    cases h
    refine ⟨[], cs, ?_⟩
    cases leading <;> rfl
  | c :: cs, i + 1, a, h => by
    have h' : cs[i]? = some a := by simpa using h
    obtain ⟨xs, ys, hxs⟩ := beside_insertIdx u leading h'
    refine ⟨c :: xs, ys, ?_⟩
    cases leading <;> simp_all [List.insertIdx_succ_cons]

section Zip

variable {α β : Type}

theorem zip_eraseIdx : ∀ (cs : List α) (ws : List β) (k : Nat),
    (cs.eraseIdx k).zip (ws.eraseIdx k) = (cs.zip ws).eraseIdx k
  | [], _, _ => by simp
  | _ :: _, [], k => by cases k <;> simp
  | _ :: _, _ :: _, 0 => rfl
  | c :: cs, w :: ws, k + 1 => by simp [zip_eraseIdx cs ws k]

theorem zip_insertIdx (c : α) (w : β) : ∀ (cs : List α) (ws : List β) (j : Nat),
    cs.length = ws.length → (cs.insertIdx j c).zip (ws.insertIdx j w) = (cs.zip ws).insertIdx j (c, w)
  | _, _, 0, _ => by simp
  | [], [], _ + 1, _ => by simp
  | [], _ :: _, _, h => by simp at h
  | _ :: _, [], _, h => by simp at h
  | c' :: cs, w' :: ws, j + 1, h => by
    simp [List.insertIdx_succ_cons, zip_insertIdx c w cs ws j (by simpa using h)]

/-- Taking the item at `k` out, with its weight, and putting both back at `j` permutes the
pairs of items and weights. -/
theorem zip_perm_of_move {cs : List α} {ws : List β} (hlen : ws.length = cs.length) {k j : Nat}
    {c : α} {w : β} (hc : cs[k]? = some c) (hw : ws[k]? = some w)
    (hj : j ≤ (cs.eraseIdx k).length) :
    List.Perm (((cs.eraseIdx k).insertIdx j c).zip ((ws.eraseIdx k).insertIdx j w)) (cs.zip ws) := by
  have hlen₁ : (cs.eraseIdx k).length = (ws.eraseIdx k).length := by
    simp [List.length_eraseIdx, hlen]
  obtain ⟨hzk, hzc⟩ := List.getElem?_eq_some_iff.mp
    (show (cs.zip ws)[k]? = some (c, w) by simp [List.getElem?_zip_eq_some, hc, hw])
  rw [zip_insertIdx _ _ _ _ _ hlen₁, zip_eraseIdx]
  refine (List.perm_insertIdx _ _ ?_).trans ?_
  · simp only [List.length_eraseIdx, List.length_zip, hlen, Nat.min_self] at hj ⊢
    exact hj
  · rw [← hzc]
    exact List.getElem_cons_eraseIdx_perm hzk

end Zip

namespace Store

variable {s s₁ s₂ : Store} {p x a : NodeId} {o : Orientation} {cs : List NodeId}
  {ws : List Float32}

/-! ### Where a docked node stands -/

/-- `x` and `a` are both held by one split of orientation `o`. -/
def SharesLine (s : Store) (x a : NodeId) (o : Orientation) : Prop :=
  ∃ p cs ws, s.parent? x = some p ∧ s.parent? a = some p ∧ s.kindOf p = some (.split o cs ws)

/-- The split of orientation `o` that held `x` and `a` in `s` holds in `s'` the same children
with the same weights, `x` now right before `a` (`leading`) or right after. -/
def Reordered (s s' : Store) (x a : NodeId) (o : Orientation) (leading : Bool) : Prop :=
  ∀ p cs ws, s.parent? x = some p → s.parent? a = some p → s.kindOf p = some (.split o cs ws) →
    ∃ cs' ws', s'.kindOf p = some (.split o cs' ws') ∧ Beside cs' x a leading ∧
      List.Perm (cs'.zip ws') (cs.zip ws)

/-- Taking `x` out of the split `p` and putting it back, with its weight, at the place of `a`
or right after it keeps the split's children with their weights. -/
theorem Aligned.reorder (hal : s.Aligned) (hk : s.kindOf p = some (.split o cs ws)) {w : Float32}
    (h₁ : s.removeChild p x = .ok (w, s₁)) {i : Nat} (hi : s₁.childIndex p a = .ok i)
    {leading : Bool} (h₂ : s₁.insertChild p (if leading then i else i + 1) x w = .ok s₂) :
    ∃ cs' ws', s₂.kindOf p = some (.split o cs' ws') ∧ Beside cs' x a leading ∧
      List.Perm (cs'.zip ws') (cs.zip ws) := by
  have hlen : ws.length = cs.length := NodeKind.aligned_split.mp (hal p _ hk)
  obtain ⟨k, hxk, rfl, hk₁⟩ := kindOf_removeChild_split hk h₁
  obtain ⟨hkl, hck, -⟩ := List.idxOf?_eq_some_iff.mp hxk
  obtain ⟨hil, hia, -⟩ := List.idxOf?_eq_some_iff.mp (childIndex_split hk₁ hi)
  -- the place `x` goes back to is within the shortened split
  have hj : (if leading then i else i + 1) ≤ (cs.eraseIdx k).length := by
    split <;> omega
  have hw : ws[k]? = some (ws.getD k defaultWeight) := by
    simp [List.getD_eq_getElem?_getD, List.getElem?_eq_getElem (hlen ▸ hkl)]
  refine ⟨_, _, kindOf_insertChild_split hk₁ h₂, ?_, ?_⟩
  · rw [Nat.min_eq_left hj]
    exact beside_insertIdx x leading (List.getElem?_eq_some_iff.mpr ⟨hil, hia⟩)
  · have hlen₁ : (ws.eraseIdx k).length = (cs.eraseIdx k).length := by
      simp [List.length_eraseIdx, hlen]
    rw [Nat.min_eq_left hj, hlen₁, Nat.min_eq_left hj]
    exact zip_perm_of_move hlen (List.getElem?_eq_some_iff.mpr ⟨hkl, hck⟩) hw hj

theorem exists_kindOf_split (h : s.form? x = some .split) :
    ∃ o cs ws, s.kindOf x = some (.split o cs ws) := by
  rw [form?_eq_map_kindOf] at h
  obtain ⟨k, hk, hf⟩ := Option.map_eq_some_iff.mp h
  cases k <;> simp_all [NodeKind.form]

theorem children_of_kindOf {k : NodeKind} (h : s.kindOf x = some k) : s.children x = k.children := by
  obtain ⟨n, hn, rfl⟩ := Option.map_eq_some_iff.mp h
  simp [children, hn]

theorem kindOf_alloc_self (s : Store) (ident : String) (kind : NodeKind) :
    (s.alloc ident kind).2.kindOf s.nextId = some kind := by
  simp [kindOf, get?_alloc, Node.fresh]

/-- The split `r` turned to orientation `o` and holds `u` first (`leading`) or last. When it
turned from another orientation with more than one child, it first handed them, in order and
with their weights, to one new split `inner` of its old orientation, which it then held
alone. -/
def DockedAt (s s' : Store) (r u : NodeId) (o : Orientation) (leading : Bool) : Prop :=
  ∃ o₀ cs ws, s.kindOf r = some (.split o₀ cs ws) ∧ ∃ ws',
    ((o₀ = o ∨ cs.length ≤ 1) ∧
      s'.kindOf r = some (.split o (if leading then u :: cs else cs ++ [u]) ws')) ∨
    (o₀ ≠ o ∧ 1 < cs.length ∧ ∃ inner, s.contains inner = false ∧
      s'.kindOf inner = some (.split o₀ cs ws) ∧
      s'.kindOf r = some (.split o (if leading then [u, inner] else [inner, u]) ws'))

/-- `u` went into the split of orientation `o` that held `a`, right before `a` (`leading`) or
right after it: `a`'s weight was halved and `u` took the other half. -/
def JoinedBeside (s s' : Store) (u a : NodeId) (o : Orientation) (leading : Bool) : Prop :=
  ∃ p cs ws i w, s.parent? a = some p ∧ s.kindOf p = some (.split o cs ws) ∧
    cs[i]? = some a ∧ ws[i]? = some w ∧
    s'.kindOf p = some (.split o (cs.insertIdx (if leading then i else i + 1) u)
      ((ws.set i (w / 2)).insertIdx (if leading then i else i + 1) (w / 2)))

/-- The container `p` of `a`, no split of orientation `o`, holds in `a`'s place a new split `n`
of orientation `o` holding `u` and `a` with the default weight, `u` first (`leading`) or
second. A split `p` keeps its weights: `n` takes `a`'s. -/
def WrappedBeside (s s' : Store) (u a : NodeId) (o : Orientation) (leading : Bool) : Prop :=
  ∃ p n, s.parent? a = some p ∧ (∀ cs ws, s.kindOf p ≠ some (.split o cs ws)) ∧
    s.contains n = false ∧ s'.parent? n = some p ∧
    s'.kindOf n = some (.split o (if leading then [u, a] else [a, u])
      [defaultWeight, defaultWeight]) ∧
    ∀ o' cs ws, s.kindOf p = some (.split o' cs ws) →
      ∃ i, cs[i]? = some a ∧ s'.kindOf p = some (.split o' (cs.set i n) ws)

theorem JoinedBeside.beside {s s' : Store} {u a : NodeId} {leading : Bool}
    (h : JoinedBeside s s' u a o leading) :
    ∃ p cs ws, s'.kindOf p = some (.split o cs ws) ∧ Beside cs u a leading := by
  obtain ⟨p, cs, ws, i, w, -, -, ha, -, hk⟩ := h
  exact ⟨p, _, _, hk, beside_insertIdx u leading ha⟩

theorem WrappedBeside.beside {s s' : Store} {u a : NodeId} {leading : Bool}
    (h : WrappedBeside s s' u a o leading) :
    ∃ p cs ws, s'.kindOf p = some (.split o cs ws) ∧ Beside cs u a leading := by
  obtain ⟨-, n, -, -, -, -, hk, -⟩ := h
  exact ⟨n, _, _, hk, [], [], by simp⟩

end Store

namespace Layout

/-- What docking `source` against a side of `anchor` left in `l'`, from `l`. When `source` and
`anchor` share a split of the side's orientation, `source` moves within it (`Reordered`).
Otherwise the node `u` that moves is taken out first, which leaves `l₁`: `source` itself when
it has a container, else a new folder that took over its tabs. Against the root, `u` is then
`DockedAt` it; beside any other anchor, it stands next to the anchor in a split of the side's
orientation, which it joined or which was made for the two. -/
def DockedBy (l l' : Layout) (source anchor : NodeId) (side : Side) : Prop :=
  (l.store.SharesLine source anchor side.orientation ∧
    l.store.Reordered l'.store source anchor side.orientation side.leading) ∨
  (¬ l.store.SharesLine source anchor side.orientation ∧ ∃ u l₁,
    (LayoutM.lift source).run { l with zoomed := none } = .ok u l₁ ∧
    (l.store.parent? source ≠ none → u = source) ∧
    (l.store.parent? source = none → l.store.contains u = false ∧ StackedInto l l₁ source u []) ∧
    (anchor = l.root → l₁.store.DockedAt l'.store l.root u side.orientation side.leading) ∧
    (anchor ≠ l.root →
      (∃ p cs ws, l'.store.kindOf p = some (.split side.orientation cs ws) ∧
        Beside cs u anchor side.leading) ∧
      (l₁.store.JoinedBeside l'.store u anchor side.orientation side.leading ∨
        l₁.store.WrappedBeside l'.store u anchor side.orientation side.leading)))

end Layout

namespace LayoutM

open Layout

variable {l : Layout} {E : List NodeId}

/-- The last steps of docking against the root: the root, a split holding `cs`, takes the
side's orientation and then `u` first or last. Nothing else changes kind. -/
theorem ends_turnInsert {r u : NodeId} {o o₁ : Orientation} {cs : List NodeId}
    {ws : List Float32} (leading : Bool) (hk : l.store.kindOf r = some (.split o₁ cs ws)) :
    Ends (do
      let n ← node r
      match n.kind with
      | .split _ cs ws => onStore (·.setKind r (.split o cs ws))
      | _ => pure ()
      let n ← node r
      let w := meanWeight n.kind.weights
      let index := if leading then 0 else n.kind.children.length
      edit (·.insertChild r index u w)) l
      (fun _ l' => (∃ ws', l'.store.kindOf r =
          some (.split o (if leading then u :: cs else cs ++ [u]) ws')) ∧
        ∀ x, r ≠ x → l'.store.kindOf x = l.store.kindOf x)
      fun _ _ => True := by
  obtain ⟨n, hn, hnk⟩ := Option.map_eq_some_iff.mp hk
  have hk₂ : (l.store.setKind r (.split o cs ws)).kindOf r = some (.split o cs ws) := by
    rw [Store.kindOf_setKind_self, hk]
    rfl
  obtain ⟨n₂, hn₂, hnk₂⟩ := Option.map_eq_some_iff.mp hk₂
  rw [ends_bind, ends_node_of hn]
  simp only [hnk]
  rw [ends_bind, ends_onStore, ends_bind, ends_node_of hn₂, ends_edit]
  split
  · next s' h' =>
    simp only [hnk₂, NodeKind.children] at h'
    refine ⟨?_, fun x hx => ?_⟩
    · have h₃ := Store.kindOf_insertChild_split hk₂ h'
      cases leading
      · simp only [Bool.false_eq_true, if_false, Nat.min_self, List.insertIdx_length_self] at h₃ ⊢
        exact ⟨_, h₃⟩
      · simp only [if_true, Nat.zero_min, List.insertIdx_zero] at h₃ ⊢
        exact ⟨_, h₃⟩
    · rw [Store.kindOf_insertChild h' hx, Store.kindOf_setKind_of_ne _ _ hx]
  · trivial

/-- The loop that turns the root: the children of the split `r` go one by one, in order and with
their weights, to the end of the split `n`, which holds them all in the end. The loop invariant
splits the pairs into those handed over and those `r` still holds. -/
theorem ends_handOver {r n : NodeId} {o₀ : Orientation} {cs : List NodeId} {ws : List Float32}
    (hlen : ws.length = cs.length) (hrn : r ≠ n) (hr : l.store.kindOf r = some (.split o₀ cs ws))
    (hn : l.store.kindOf n = some (.split o₀ [] [])) :
    Ends (forIn (cs.zip ws) PUnit.unit fun x _ => do
      let _ ← editWith (·.removeChild r x.1)
      edit fun s => s.insertChild n (s.children n).length x.1 x.2
      pure (ForInStep.yield PUnit.unit)) l
      (fun _ l' => ∃ t, l' = { l with store := t } ∧ t.kindOf r = some (.split o₀ [] []) ∧
        t.kindOf n = some (.split o₀ cs ws))
      fun _ _ => True := by
  refine (ends_forIn (cs.zip ws) _ _ (fun rest _ l' => ∃ t, l' = { l with store := t } ∧
      t.kindOf r = some (.split o₀ (rest.map Prod.fst) (rest.map Prod.snd)) ∧
      ∃ done, done ++ rest = cs.zip ws ∧
        t.kindOf n = some (.split o₀ (done.map Prod.fst) (done.map Prod.snd)))
    (fun x rest _ l' hinv => ?_) ⟨_, rfl, ?_, [], rfl, hn⟩).mono
    (fun _ l' hinv => ?_) fun _ _ h => h
  · -- one child, with its weight, goes over: it is the first one `r` holds
    obtain ⟨t, rfl, htr, done, hdone, hti⟩ := hinv
    rw [ends_bind, ends_editWith]
    split
    · next w' t₁ h₁ =>
      obtain ⟨k, hxk, -, htr₁⟩ := Store.kindOf_removeChild_split htr h₁
      obtain rfl : k = 0 := by
        rw [List.map_cons, List.idxOf?_cons, if_pos (beq_self_eq_true _)] at hxk
        exact (Option.some.inj hxk).symm
      dsimp only at h₁
      have hti₁ : t₁.kindOf n = some (.split o₀ (done.map Prod.fst) (done.map Prod.snd)) :=
        (Store.kindOf_removeChild h₁ hrn).trans hti
      rw [ends_bind, ends_edit]
      split
      · next t₂ h₂ =>
        dsimp only at h₂
        rw [Store.children_of_kindOf hti₁] at h₂
        have hti₂ := Store.kindOf_insertChild_split hti₁ h₂
        simp only [NodeKind.children, List.length_map, Nat.min_self] at hti₂
        refine ⟨_, rfl, t₂, rfl, ?_, done ++ [x], by rw [← hdone, List.append_assoc]; rfl, ?_⟩
        · rw [Store.kindOf_insertChild h₂ hrn.symm, htr₁]
          rfl
        · -- the pair goes to the end of `n`
          rw [hti₂, List.map_append, List.map_append]
          simp only [List.map_cons, List.map_nil, Option.some.injEq, NodeKind.split.injEq, true_and]
          exact ⟨by simpa using @List.insertIdx_length_self _ (done.map Prod.fst) x.1,
            by simpa using @List.insertIdx_length_self _ (done.map Prod.snd) x.2⟩
      · trivial
    · trivial
  · rw [List.map_fst_zip (by omega), List.map_snd_zip (by omega)]
    exact hr
  · obtain ⟨t, rfl, htr, done, hdone, hti⟩ := hinv
    rw [List.append_nil] at hdone
    subst hdone
    rw [List.map_fst_zip (by omega), List.map_snd_zip (by omega)] at hti
    exact ⟨t, rfl, htr, hti⟩

/-- Filling an empty split `n` with two nodes, each with the default weight: nothing else
changes kind, and no other node changes container. -/
theorem ends_fillPair {n first second : NodeId} {o : Orientation}
    (hn : l.store.kindOf n = some (.split o [] [])) :
    Ends (do
      edit (·.insertChild n 0 first defaultWeight)
      edit (·.insertChild n 1 second defaultWeight)) l
      (fun _ l' => l'.store.kindOf n =
          some (.split o [first, second] [defaultWeight, defaultWeight]) ∧
        (∀ x, n ≠ x → l'.store.kindOf x = l.store.kindOf x) ∧
        ∀ x, x ≠ first → x ≠ second → l'.store.parent? x = l.store.parent? x)
      fun _ _ => True := by
  rw [ends_bind, ends_edit]
  split
  · next s₃ h₃ =>
    rw [ends_edit]
    split
    · next s₄ h₄ =>
      have hn₄ := Store.kindOf_insertChild_split
        (by simpa using Store.kindOf_insertChild_split hn h₃) h₄
      simp only [List.length_singleton, Nat.min_self] at hn₄
      refine ⟨hn₄, fun x hx => ?_, fun x h₁ h₂ => ?_⟩
      · rw [Store.kindOf_insertChild h₄ hx, Store.kindOf_insertChild h₃ hx]
      · rw [Store.parent?_insertChild h₄, if_neg h₂, Store.parent?_insertChild h₃, if_neg h₁]
    · trivial
  · trivial

/-- Putting `moving` against a side of `anchor`, when it succeeds: against the root it is
`DockedAt`; beside another node it joins the split of the side's orientation that holds that
node (`JoinedBeside`), or a new split takes that node's place (`WrappedBeside`). -/
theorem ends_insertBeside_docks (hs : l.Sound E) {moving : NodeId}
    (hmc : l.store.contains moving = true) (anchor : NodeId) (side : Side) :
    Ends (insertBeside moving side anchor) l (fun _ l' =>
      (anchor = l.root →
        Store.DockedAt l.store l'.store l.root moving side.orientation side.leading) ∧
      (anchor ≠ l.root →
        Store.JoinedBeside l.store l'.store moving anchor side.orientation side.leading ∨
        Store.WrappedBeside l.store l'.store moving anchor side.orientation side.leading))
      fun _ _ => True := by
  rw [insertBeside, ends_bind, ends_get]
  dsimp only
  split
  · next hroot =>
    obtain rfl : anchor = l.root := beq_iff_eq.mp hroot
    obtain ⟨o₀, cs, ws, hk⟩ := Store.exists_kindOf_split hs.root_split
    have hlen : ws.length = cs.length := NodeKind.aligned_split.mp (hs.aligned _ _ hk)
    have hrn' : l.root ≠ l.store.nextId := Store.ne_nextId_of_contains (hs.top_of_mem hs.root_mem).1
    obtain ⟨rn, hrn, hrk⟩ := Option.map_eq_some_iff.mp hk
    rw [ends_bind, ends_node_of hrn]
    split
    · -- the root turns: its children go, in order and with their weights, into a new split
      next hcond =>
      have ho : rn.kind.orientation?.getD side.orientation = o₀ := by rw [hrk]; rfl
      have hw : rn.kind.weights = ws := by rw [hrk]; rfl
      rw [ho, hrk] at hcond
      simp [NodeKind.children] at hcond
      obtain ⟨ident, hid⟩ := Store.allocContainer_eq l.store (.emptySplit o₀)
      rw [ho, hw, ends_bind, ends_allocContainer, hid, ends_bind, ends_store, ends_bind]
      have ht₀ : (l.store.alloc ident (.emptySplit o₀)).2.kindOf l.root = some (.split o₀ cs ws) :=
        (Store.kindOf_alloc_of_ne _ _ _ hrn').trans hk
      have hch : (l.store.alloc ident (.emptySplit o₀)).2.children l.root = cs :=
        Store.children_of_kindOf ht₀
      rw [hch]
      refine (ends_handOver hlen hrn' ht₀ (Store.kindOf_alloc_self _ _ _)).mono
        (fun _ l' hinv => ?_) fun _ _ h => h
      · -- the emptied root takes the inner split, then the side's orientation and the node
        obtain ⟨t, rfl, htr, hti⟩ := hinv
        rw [ends_bind, ends_edit]
        split
        · next t₃ h₃ =>
          have htr₃ := Store.kindOf_pushChild_split htr h₃
          simp only [List.length_nil, List.insertIdx_zero, Nat.min_self] at htr₃
          have hti₃ := (Store.kindOf_pushChild h₃ hrn').trans hti
          refine (ends_turnInsert side.leading htr₃).mono (fun _ l' h => ?_) fun _ _ _ => trivial
          obtain ⟨⟨ws', hr'⟩, hframe⟩ := h
          exact ⟨fun _ => ⟨o₀, cs, ws, hk, ws', .inr ⟨hcond.1, hcond.2, l.store.nextId,
            Store.contains_nextId _, (hframe _ hrn').trans hti₃, hr'⟩⟩, fun h => absurd rfl h⟩
        · trivial
    · -- the root keeps its children and takes the side's orientation
      next hcond =>
      rw [hrk] at hcond
      simp [NodeKind.orientation?, NodeKind.children] at hcond
      refine (ends_turnInsert side.leading hk).mono (fun _ l' h => ?_) fun _ _ _ => trivial
      obtain ⟨⟨ws', hr'⟩, -⟩ := h
      refine ⟨fun _ => ⟨o₀, cs, ws, hk, ws', .inl ⟨?_, hr'⟩⟩, fun h => absurd rfl h⟩
      by_cases ho : o₀ = side.orientation
      · exact .inl ho
      · exact .inr (by have := hcond ho; omega)
  · next hroot =>
    have hne : anchor ≠ l.root := fun h => hroot (beq_iff_eq.mpr h)
    split
    · next parent hpar =>
      have hpc : parent ≠ l.store.nextId :=
        Store.ne_nextId_of_contains (hs.forest.contains_of_parent hpar)
      have hac : l.store.contains anchor = true := Store.contains_of_parent? hpar
      split
      · next index hidx =>
        obtain ⟨pn, hpn⟩ := (Store.contains_iff _ _).mp (hs.forest.contains_of_parent hpar)
        have hpk := Store.kindOf_of_get? hpn
        rw [ends_bind, ends_pure, ends_bind, ends_node_of hpn]
        split
        · -- a split of the side's orientation: `moving` takes half of `anchor`'s weight
          next hor =>
          obtain ⟨cs, ws, hk⟩ : ∃ cs ws, pn.kind = .split side.orientation cs ws := by
            cases h : pn.kind <;> simp_all [NodeKind.orientation?]
          rw [hk] at hpk
          have hlen : ws.length = cs.length := NodeKind.aligned_split.mp (hs.aligned _ _ hpk)
          obtain ⟨hil, hia, -⟩ := List.idxOf?_eq_some_iff.mp (Store.childIndex_split hpk hidx)
          have hw : ws[index]? = some ws[index] := List.getElem?_eq_getElem (by omega)
          simp only [hk, hw]
          rw [ends_bind, ends_onStore, ends_edit]
          split
          · next s' h' =>
            have hk₂ : (l.store.setKind parent (.split side.orientation cs
                (ws.set index (ws[index] / 2)))).kindOf parent =
                some (.split side.orientation cs (ws.set index (ws[index] / 2))) := by
              rw [Store.kindOf_setKind_self, hpk]
              rfl
            have hj : (if side.leading then index else index + 1) ≤ cs.length := by
              split <;> omega
            have h₃ := Store.kindOf_insertChild_split hk₂ h'
            simp only [Nat.min_eq_left hj, List.length_set, hlen] at h₃
            exact ⟨fun h => absurd h hne, fun _ => .inl ⟨parent, cs, ws, index, ws[index], hpar,
              hpk, List.getElem?_eq_some_iff.mpr ⟨hil, hia⟩, hw, h₃⟩⟩
          · trivial
        · -- otherwise a new split of the side's orientation takes `anchor`'s place
          next hor =>
          have hnot : ∀ cs ws, l.store.kindOf parent ≠ some (.split side.orientation cs ws) := by
            intro cs ws h
            rw [hpk, Option.some.injEq] at h
            simp [h, NodeKind.orientation?] at hor
          obtain ⟨ident, hid⟩ := Store.allocContainer_eq l.store (.emptySplit side.orientation)
          rw [ends_bind, ends_allocContainer, hid, ends_bind, ends_onError, ends_edit]
          split
          · next s₂ h₂ =>
            have hn₂ : s₂.kindOf l.store.nextId = some (.split side.orientation [] []) :=
              (Store.kindOf_replaceChild h₂ hpc).trans (Store.kindOf_alloc_self _ _ _)
            have hpar₂ : s₂.parent? l.store.nextId = some parent := by
              rw [Store.parent?_replaceChild h₂, if_pos rfl]
            generalize hfs : (if side.leading = true then (moving, anchor) else (anchor, moving)) = fs
            obtain ⟨first, second⟩ := fs
            have hfn : first ≠ l.store.nextId ∧ second ≠ l.store.nextId := by
              cases hl : side.leading <;> simp only [hl] at hfs <;> cases hfs <;>
                exact ⟨Store.ne_nextId_of_contains (by assumption),
                  Store.ne_nextId_of_contains (by assumption)⟩
            dsimp only
            refine (ends_fillPair hn₂).mono (fun _ l' h => ?_) fun _ _ h => h
            obtain ⟨hn', hkeep, hlink⟩ := h
            refine ⟨fun h => absurd h hne, fun _ => .inr ⟨parent, l.store.nextId, hpar, hnot,
              Store.contains_nextId _, ?_, ?_, fun o' cs ws hk' => ?_⟩⟩
            · rw [hlink _ hfn.1.symm hfn.2.symm, hpar₂]
            · rw [hn']
              cases hl : side.leading <;> simp only [hl] at hfs <;> cases hfs <;> rfl
            · -- a split container keeps its weights, with the new split in `anchor`'s place
              obtain ⟨i, hi, hk₂⟩ := Store.kindOf_replaceChild_split
                ((Store.kindOf_alloc_of_ne _ _ _ hpc).trans hk') h₂
              obtain ⟨hil, hia, -⟩ := List.idxOf?_eq_some_iff.mp hi
              exact ⟨i, List.getElem?_eq_some_iff.mpr ⟨hil, hia⟩, (hkeep _ (Ne.symm hpc)).trans hk₂⟩
          · rw [ends_bind, ends_onStore, ends_throw]
            trivial
      · rw [ends_bind, ends_throw]
        trivial
    · rw [ends_throw]
      trivial

/-- Taking out a node to dock it moves the node itself when it has a container; a detached
window's folder, which has none, hands its tabs to a new folder, which moves instead
(`StackedInto`). -/
theorem ends_lift_unit (hs : l.Sound E) {source : NodeId} (hsrc : l.store.Movable source)
    (hfix : l.isFixed source = false) (hwin : (l.windowOf source).isSome) :
    Ends (lift source) l (fun u l' => (l.store.parent? source ≠ none → u = source) ∧
      (l.store.parent? source = none →
        l.store.contains u = false ∧ StackedInto l l' source u []))
      fun _ _ => True := by
  rw [lift, ends_bind, ends_store]
  split
  · next hsome =>
    rw [ends_bind]
    refine (ends_takeNode hs source).mono (fun _ _ _ => ?_) fun _ _ _ => trivial
    exact ⟨fun _ => rfl, fun h => absurd h (Option.isSome_iff_ne_none.mp hsome)⟩
  · next hnone =>
    have hpar : l.store.parent? source = none := Option.not_isSome_iff_eq_none.mp hnone
    -- without a container, `source` is the folder of a detached window
    obtain ⟨win, hw, hwf⟩ := (windowOf_loose hwin hpar).resolve_left fun h => by
      simp [Layout.isFixed, h] at hfix
    have hne : source ≠ l.store.nextId := Store.ne_nextId_of_contains hsrc.contains
    obtain ⟨ident, hid⟩ := Store.allocContainer_eq l.store .emptyFolder
    set l₁ : Layout := { l with store := (l.store.alloc ident .emptyFolder).2 }
    have hs₁ : l₁.Sound (l.store.nextId :: E) := hs.alloc _ _ rfl rfl
    have hf₁ : l₁.store.form? l.store.nextId = some .folder := by
      rw [Store.form?_alloc, if_pos rfl]
      rfl
    have hsrc₁ : l₁.store.Movable source :=
      (Store.Movable.congr (Store.form?_alloc_of_contains hsrc.contains _ _)).mpr hsrc
    have hpar₁ : l₁.store.parent? source = none := by rw [Store.parent?_alloc, if_neg hne, hpar]
    have hmove := ends_moveInto_tabs hs₁ hsrc₁ hf₁ hne (by rw [hpar₁]; simp) hfix
      fun _ => ⟨win, hw, hwf⟩
    -- a folder without a container hands its tabs over and is tidied away
    obtain ⟨sn, hsn⟩ := (Store.contains_iff _ _).mp hsrc₁.contains
    have hsf : sn.kind.isFolder = true := by
      have h := hs.frames_folders source (hwf ▸ List.mem_append_left _ (List.mem_map_of_mem hw))
      rw [← Store.form?_alloc_of_contains hsrc.contains ident .emptyFolder, Store.form?_of_get? hsn]
        at h
      cases hk : sn.kind <;> simp_all [NodeKind.form, NodeKind.isFolder]
    rw [moveInto, ends_bind, ends_node_of hsn, if_pos hsf, ends_bind] at hmove
    rw [ends_bind, ends_allocContainer, hid, ends_bind]
    refine (hmove.and (ends_transferTabs hs₁ hsrc₁ hf₁ hne)).mono (fun _ l₂ h => ?_)
      fun _ _ _ => trivial
    obtain ⟨htidy, s₂, rfl, -, -, -, -, hlink, -⟩ := h
    have hpar₂ : s₂.parent? source = none := by
      rw [hlink source fun h => hs₁.forest.ne_of_parent (hs₁.forest.mem_held_iff.mp h) rfl, hpar₁]
    rw [ends_bind, ends_store, hpar₂] at htidy
    rw [ends_bind]
    refine htidy.mono (fun _ l' h => ⟨fun h' => absurd hpar h', fun _ => ⟨Store.contains_nextId _,
      ?_⟩⟩) fun _ _ _ => trivial
    have hempty : l₁.store.children l.store.nextId = [] :=
      Store.children_of_kindOf (Store.kindOf_alloc_self _ _ _)
    rw [hempty] at h
    exact h.1.of_kindOf (Store.kindOf_alloc_of_ne _ _ _ hne) fun _ h => h

/-- Docking through taking the node out: the node that moves, the layout taking it out leaves,
and where the insertion puts the node, over that layout. A refused insertion is refused. -/
theorem ends_liftDock (hs : l.Sound E) {source : NodeId} (anchor : NodeId) (side : Side)
    (hsrc : l.store.Movable source) (hfix : l.isFixed source = false)
    (hwin : (l.windowOf source).isSome) :
    Ends (do
      let moving ← lift source
      onError (insertBeside moving side anchor) fun e => do
        edit (·.pushChild (← get).root moving)
        throw e) l (fun _ l' => ∃ u l₁, (lift source).run l = .ok u l₁ ∧
          (l.store.parent? source ≠ none → u = source) ∧
          (l.store.parent? source = none →
            l.store.contains u = false ∧ StackedInto l l₁ source u []) ∧
          (anchor = l.root → l₁.store.DockedAt l'.store l.root u side.orientation side.leading) ∧
          (anchor ≠ l.root →
            l₁.store.JoinedBeside l'.store u anchor side.orientation side.leading ∨
            l₁.store.WrappedBeside l'.store u anchor side.orientation side.leading))
      fun _ _ => True := by
  rw [ends_bind]
  refine (((ends_lift hs hsrc).and (ends_lift_unit hs hsrc hfix hwin)).and (ends_run _ l)).mono
    (fun u l₁ h => ?_) fun _ _ _ => trivial
  obtain ⟨⟨⟨hs₁, hmov₁, -, hnar, -⟩, hunit⟩, hrun⟩ := h
  rw [ends_onError]
  refine (ends_insertBeside_docks hs₁ hmov₁.contains anchor side).mono
    (fun _ l' h => ⟨u, l₁, hrun, hunit.1, hunit.2, ?_, ?_⟩) fun _ _ _ => ?_
  · rw [← hnar.root]
    exact h.1
  · rw [← hnar.root]
    exact h.2
  · rw [ends_bind, ends_get, ends_bind, ends_edit]
    split
    · rw [ends_throw]
      trivial
    · trivial

/-- Moving `source` within the split `p` that holds it and `anchor`, to `anchor`'s place or
right after it: the split keeps its children with their weights. -/
theorem ends_reorder (hal : l.store.Aligned) {p source anchor : NodeId} {o : Orientation}
    {cs : List NodeId} {ws : List Float32} (hk : l.store.kindOf p = some (.split o cs ws))
    (leading : Bool) :
    Ends (do
      let w ← editWith (·.removeChild p source)
      let index ← match (← store).childIndex p anchor with
        | .ok i => pure i
        | .error e => throw e
      let index := if leading then index else index + 1
      edit (·.insertChild p index source w)) l
      (fun _ l' => ∃ cs' ws', l'.store.kindOf p = some (.split o cs' ws') ∧
        Beside cs' source anchor leading ∧ List.Perm (cs'.zip ws') (cs.zip ws))
      fun _ _ => True := by
  rw [ends_bind, ends_editWith]
  split
  · next w s₁ h₁ =>
    rw [ends_bind, ends_store]
    dsimp only
    cases hi : s₁.childIndex p anchor with
    | ok i =>
      rw [ends_bind, ends_pure, ends_edit]
      split
      · next s₂ h₂ => exact hal.reorder hk h₁ hi h₂
      · trivial
    | error e =>
      rw [ends_bind, ends_throw]
      trivial
  · trivial

/-- Where docking a node against a side of another puts it, when it succeeds (`DockedBy`). -/
theorem ends_moveNode_docks (hs : l.Sound E) (source : NodeId) (side : Side) (reference : NodeId) :
    Ends (moveNode source side reference) l
      (fun _ l' => DockedBy l l' source ((l.folderOf reference).getD reference) side)
      fun _ _ => True := by
  have hs₀ : ({ l with zoomed := none } : Layout).Sound E := hs.of_frames rfl rfl rfl rfl rfl rfl
  rw [moveNode, ends_bind, ends_zoomOut, ends_bind]
  refine (ends_ensureMovable source).mono (fun _ l₁ h => ?_) fun _ _ _ => trivial
  obtain ⟨rfl, hfix, hsrc, hwin⟩ := h
  rw [ends_bind, ends_get, ends_bind, ends_node]
  split
  · next anchorNode hanchor =>
    extract_lets shared onLine findLine rest₂ rest₁ checkParent
    -- past the checks, `source` moves within a shared split of the side's orientation, or is
    -- taken out and put against the anchor
    have hlift : ¬ l.store.SharesLine source ((l.folderOf reference).getD reference)
        side.orientation → Ends (do
          let moving ← lift source
          onError (insertBeside moving side ((l.folderOf reference).getD reference)) fun e => do
            edit (·.pushChild (← get).root moving)
            throw e) { l with zoomed := none }
          (fun _ l' => DockedBy l l' source ((l.folderOf reference).getD reference) side)
          fun _ _ => True := fun hnot =>
      (ends_liftDock hs₀ _ side hsrc hfix hwin).mono (fun _ _ h => by
        obtain ⟨u, l₁, hrun, hsame, hnew, hroot, hbeside⟩ := h
        refine .inr ⟨hnot, u, l₁, hrun, hsame, fun hp => ⟨(hnew hp).1, ?_⟩, hroot, fun hne =>
          ⟨(hbeside hne).elim Store.JoinedBeside.beside Store.WrappedBeside.beside, hbeside hne⟩⟩
        exact (hnew hp).2.of_kindOf rfl fun _ h => h) fun _ _ h => h
    have hrest : Ends (rest₁ ()) { l with zoomed := none }
        (fun _ l' => DockedBy l l' source ((l.folderOf reference).getD reference) side)
        fun _ _ => True := by
      dsimp only [rest₁]
      refine ends_guard (fun _ => trivial) fun _ => ?_
      dsimp only [rest₂]
      refine ends_guard (fun _ => trivial) fun _ => ?_
      dsimp only [findLine, shared]
      split
      · next parent hshared =>
        have hsp : l.store.parent? source = some parent := Option.eq_some_of_filter_eq_some hshared
        have hap : l.store.parent? ((l.folderOf reference).getD reference) = some parent := by
          have h := (Option.filter_eq_some_iff.mp hshared).2
          simp only [beq_iff_eq] at h
          exact h.symm
        rw [ends_bind, ends_node]
        split
        · next pn hpn =>
          rw [ends_bind, ends_pure]
          unfold onLine
          split
          · -- the shared split has the side's orientation: `source` moves within it
            next parent' hline =>
            split at hline
            · next hor =>
              cases hline
              obtain ⟨cs, ws, hk⟩ : ∃ cs ws, pn.kind = .split side.orientation cs ws := by
                cases h : pn.kind <;> simp_all [NodeKind.orientation?]
              have hpk : l.store.kindOf parent = some (.split side.orientation cs ws) := by
                rw [Store.kindOf_of_get? hpn, hk]
              refine (ends_reorder hs₀.aligned hpk side.leading).mono (fun _ _ h => ?_) fun _ _ h => h
              refine .inl ⟨⟨parent, cs, ws, hsp, hap, hpk⟩, fun p cs' ws' hp _ hk' => ?_⟩
              obtain rfl : p = parent := Option.some.inj (hp.symm.trans hsp)
              obtain ⟨rfl, rfl⟩ : cs' = cs ∧ ws' = ws := by simpa [hpk] using hk'.symm
              exact h
            · cases hline
          · -- it has another orientation
            next hline =>
            refine hlift fun hsh => ?_
            obtain ⟨p, cs, ws, hp, _, hk⟩ := hsh
            obtain rfl : p = parent := Option.some.inj (hp.symm.trans hsp)
            rw [Store.kindOf_of_get? hpn, Option.some.injEq] at hk
            simp [hk, NodeKind.orientation?] at hline
        · trivial
      · -- no split holds both
        next hshared =>
        rw [ends_bind, ends_pure]
        refine hlift fun hsh => ?_
        obtain ⟨p, cs, ws, hp, hap, _⟩ := hsh
        have hboth : (l.store.parent? source).filter
            (fun q => some q == l.store.parent? ((l.folderOf reference).getD reference)) = some p := by
          simp [hp, hap]
        exact Option.some_ne_none p (hboth.symm.trans hshared)
    split
    · -- a loose anchor is checked first
      refine ends_guard (fun _ => trivial) fun _ => ?_
      dsimp only [checkParent]
      split
      · rw [ends_bind, ends_node]
        split
        · exact ends_guard (fun _ => trivial) fun _ => hrest
        · trivial
      · rw [ends_bind, ends_throw]
        trivial
    · exact hrest
  · trivial

end LayoutM

namespace Layout

/-- On every layout a script can reach, docking a node against a side of a reference, when it
succeeds, puts it where `DockedBy` says beside the anchor: the reference, or the folder the
reference is a tab of. -/
theorem Reachable.docking_places_unit {l l' : Layout} (hl : l.Reachable) {source reference : NodeId}
    {side : Side} (h : (LayoutM.moveNode source side reference).run l = .ok () l') :
    DockedBy l l' source ((l.folderOf reference).getD reference) side :=
  (LayoutM.ends_moveNode_docks hl.sound source side reference).run_ok h

/-- Two views side by side: docking the second below the first takes it out and wraps the
first in a new vertical split, which holds the first and then the second. -/
theorem Reachable.docking_places_unit_below :
    let l := (Script.layoutStep ⟨(Script.layoutStep ⟨Layout.empty (Host.fresh true), []⟩
      (.addPane ⟨"A", .view⟩)).2.layout, []⟩ (.addPane ⟨"B", .view⟩)).2.layout
    let l' := LayoutM.leaves (LayoutM.moveNode ⟨2⟩ .bottom ⟨1⟩) l
    l.Reachable ∧ (LayoutM.moveNode ⟨2⟩ .bottom ⟨1⟩).run l = .ok () l' ∧
      DockedBy l l' ⟨2⟩ ((l.folderOf ⟨1⟩).getD ⟨1⟩) .bottom :=
  have h := Reachable.step [] (.addPane ⟨"B", .view⟩)
    (.step [] (.addPane ⟨"A", .view⟩) (.empty _) fun _ => nofun) fun _ => nofun
  have hrun : (LayoutM.moveNode ⟨2⟩ .bottom ⟨1⟩).run _ = .ok () _ := rfl
  ⟨h, hrun, Reachable.docking_places_unit h hrun⟩

end Layout

end Docking
