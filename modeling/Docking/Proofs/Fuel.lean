import Docking.Proofs.Preorder
/-!
# The loops end within their fuel

Every loop over the node table carries fuel, one more than the table has slots
(`Store.depthBound`), and stops when it runs out. Over a forest the fuel never runs out first:
each loop ends by its own test, and any more fuel gives the same.

The climbs (`rootOf`, `isAncestor`) meet the containers above the node they start from, as
many as its `Store.depth`. The upward loops (`collapseEmpty`, `tidy`, `unfoldAbove`) are
`LayoutM.climbFrom` loops whose passes edit the table as they go; each pass goes on, if at
all, from a node closer to its root in the edited table (`Store.Shallower`), so the depth is a
measure that falls at every pass (`LayoutM.climbFrom_succ_of_deep`). The walks down (`free`,
`countPanes`, the layout pass, the text and the memento of a node) go one level deeper at each
call, and a node's depth plus the levels below it stay under the table's size.
-/

namespace Docking

theorem fuel_stable {α : Type} (f : Nat → α) (n : Nat) (h : ∀ k, n ≤ k → f (k + 1) = f k)
    {j k : Nat} (hj : n ≤ j) (hk : n ≤ k) : f j = f k := by
  -- both give what the run gives at `n`
  have hn : ∀ k, n ≤ k → f k = f n := by
    intro k hk
    induction k, hk using Nat.le_induction with
    | base => rfl
    | succ k hk ih => rw [h k hk, ih]
  rw [hn j hj, hn k hk]

namespace Store

variable {s : Store}

theorem length_ancestorsFrom_le : ∀ (k : Nat) (x : NodeId), (s.ancestorsFrom k x).length ≤ k
  | 0, _ => Nat.le_refl _
  | k + 1, x => by
    cases hp : s.parent? x with
    | none => simp [ancestorsFrom_of_top hp]
    | some p =>
      rw [ancestorsFrom_succ_of_parent hp, List.length_cons]
      exact Nat.succ_le_succ (length_ancestorsFrom_le k p)

theorem depth_lt_depthBound (x : NodeId) : s.depth x < s.depthBound :=
  Nat.lt_succ_of_le (length_ancestorsFrom_le _ x)

theorem fuel_of_deep {α : Type} (s : Store) (t : NodeId) (f : Nat → α)
    (h : ∀ k, s.slots.size ≤ s.depth t + k → f (k + 1) = f k) {k : Nat}
    (hk : s.slots.size ≤ s.depth t + k) : f k = f s.depthBound :=
  fuel_stable f (s.slots.size - s.depth t) (fun k hk => h k (by omega)) (by omega)
    (Nat.le_succ_of_le (Nat.sub_le _ _))

theorem ancestorsFrom_congr {s' : Store} (h : ∀ x, s'.parent? x = s.parent? x) :
    ∀ (k : Nat) (x : NodeId), s'.ancestorsFrom k x = s.ancestorsFrom k x
  | 0, _ => rfl
  | k + 1, x => by
    cases hp : s.parent? x with
    | none => rw [ancestorsFrom_of_top ((h x).trans hp), ancestorsFrom_of_top hp]
    | some p =>
      rw [ancestorsFrom_succ_of_parent ((h x).trans hp), ancestorsFrom_succ_of_parent hp,
        ancestorsFrom_congr h k p]

theorem SameShape.depth_eq {s' : Store} (hs : SameShape s s') (hsize : s'.slots.size = s.slots.size)
    (x : NodeId) : s'.depth x = s.depth x := by
  unfold depth
  rw [hsize, ancestorsFrom_congr fun y => (hs y).1]

section Forest

variable (hf : s.Forest)
include hf

/-- A climb with more fuel than the node's depth meets all the containers above it. -/
theorem Forest.ancestorsFrom_of_depth_lt {k : Nat} {x : NodeId} (hk : s.depth x < k) :
    s.ancestorsFrom k x = s.ancestorsFrom s.slots.size x := by
  rcases Nat.le_total k s.slots.size with hle | hle
  · -- cut short by its fuel, the climb would be as long as the fuel
    have hlen : (s.ancestorsFrom k x).length < k :=
      Nat.lt_of_le_of_lt (ancestorsFrom_prefix_of_le hle x).length_le hk
    exact (ancestorsFrom_stable hlen hle).symm
  · cases hp : s.parent? x with
    | none => rw [ancestorsFrom_of_top hp, ancestorsFrom_of_top hp]
    | some p => exact ancestorsFrom_stable (hf.length_ancestorsFrom_lt _ (contains_of_parent? hp)) hle

theorem Forest.climb_of_depth_lt {k : Nat} {x : NodeId} (hk : s.depth x < k) :
    s.climb k x = s.rootOf x := by
  have hlen : (s.ancestorsFrom k x).length < k := by
    rw [hf.ancestorsFrom_of_depth_lt hk]
    exact hk
  exact (hf.rootOf_eq (climb_under s k x) (parent?_climb_eq_none k x hlen)).symm

theorem Forest.meets_of_depth_lt (a : NodeId) {k : Nat} {x : NodeId} (hk : s.depth x < k) :
    s.meets a k (s.parent? x) = s.isAncestor a x := by
  rw [isAncestor, meets_parent?, meets_parent?, hf.ancestorsFrom_of_depth_lt hk,
    hf.ancestorsFrom_of_depth_lt (depth_lt_depthBound x)]

theorem Forest.depth_child {t c : NodeId} {n : Node} (ht : s.get? t = some n)
    (hc : c ∈ walkChildren true n.kind) : s.depth c = s.depth t + 1 :=
  hf.length_ancestors_child (hf.held_parent (by rw [held_of_get? ht]; exact hc))

theorem Forest.depth_lt_size {t : NodeId} {n : Node} (ht : s.get? t = some n) :
    s.depth t < s.slots.size :=
  hf.length_ancestorsFrom_lt _ ((contains_iff s t).mpr ⟨n, ht⟩)

theorem Forest.freeFrom_succ_of_deep (k : Nat) (t : NodeId) (h : s.slots.size ≤ s.depth t + k) :
    s.freeFrom (k + 1) t = s.freeFrom k t := by
  rw [freeFrom_eq _ _ (hf.nodup_walkFrom _ _), freeFrom_eq _ _ (hf.nodup_walkFrom _ _),
    hf.walkFrom_succ_of_deep true k t h]

theorem Forest.panesBelow_succ_of_deep (k : Nat) (t : NodeId) (h : s.slots.size ≤ s.depth t + k) :
    s.panesBelow (k + 1) t = s.panesBelow k t := by
  rw [← length_shownParts, ← length_shownParts, hf.walkFrom_succ_of_deep false k t h]

theorem Forest.freeFrom_of_deep {k : Nat} {t : NodeId} (h : s.slots.size ≤ s.depth t + k) :
    s.freeFrom k t = s.free t :=
  s.fuel_of_deep t (s.freeFrom · t) (fun k hk => hf.freeFrom_succ_of_deep k t hk) h

theorem Forest.panesBelow_of_deep {k : Nat} {t : NodeId} (h : s.slots.size ≤ s.depth t + k) :
    s.panesBelow k t = s.countPanes t :=
  s.fuel_of_deep t (s.panesBelow · t) (fun k hk => hf.panesBelow_succ_of_deep k t hk) h

end Forest

end Store

namespace Layout

variable {l : Layout}

/-- The text of a node written with fuel to spare beyond its levels is the same with more. -/
theorem describeFrom_succ_of_deep (hf : l.store.Forest) :
    ∀ (k : Nat) (t : NodeId), l.store.slots.size ≤ l.store.depth t + k →
      l.describeFrom (k + 1) t = l.describeFrom k t := by
  intro k
  induction k with
  | zero =>
    intro t ht
    cases htn : l.store.get? t with
    | none => simp [describeFrom, htn]
    | some tn => exact absurd (hf.depth_lt_size htn) (by omega)
  | succ k ih =>
    intro t ht
    cases htn : l.store.get? t with
    | none => simp [describeFrom, htn]
    | some tn =>
      -- each child lies one level deeper, with one level of fuel fewer to spare
      have hchild : ∀ c ∈ Store.walkChildren true tn.kind,
          l.describeFrom (k + 1) c = l.describeFrom k c :=
        fun c hc => ih c (by rw [hf.depth_child htn hc]; omega)
      obtain ⟨ident, parent, bounds, kind⟩ := tn
      cases kind with
      | pane p => simp [describeFrom, htn]
      | placeholder part => simp [describeFrom, htn]
      | collapsed inner =>
        rw [describeFrom.eq_2 l t (k + 1), describeFrom.eq_2 l t k, htn]
        dsimp only
        rw [hchild inner (by simp [Store.walkChildren])]
      | folder cs sel =>
        rw [describeFrom.eq_2 l t (k + 1), describeFrom.eq_2 l t k, htn]
        dsimp only
        congr 3
        apply List.map_congr_left
        intro ci hx
        obtain ⟨c, i⟩ := ci
        dsimp only
        rw [hchild c (List.fst_mem_of_mem_zipIdx hx)]
      | split o cs ws =>
        rw [describeFrom.eq_2 l t (k + 1), describeFrom.eq_2 l t k, htn]
        dsimp only
        congr 3
        apply List.map_congr_left
        intro cw hx
        obtain ⟨c, w⟩ := cw
        dsimp only
        rw [hchild c (List.of_mem_zip hx).1]

/-- The memento of a node saved with fuel to spare beyond its levels is the same with more. -/
theorem saveFrom_succ_of_deep (hf : l.store.Forest) :
    ∀ (k : Nat) (t : NodeId), l.store.slots.size ≤ l.store.depth t + k →
      l.saveFrom (k + 1) t = l.saveFrom k t := by
  intro k
  induction k with
  | zero =>
    intro t ht
    cases htn : l.store.get? t with
    | none => simp [saveFrom, htn]
    | some tn => exact absurd (hf.depth_lt_size htn) (by omega)
  | succ k ih =>
    intro t ht
    cases htn : l.store.get? t with
    | none => simp [saveFrom, htn]
    | some tn =>
      have hchild : ∀ c ∈ Store.walkChildren true tn.kind,
          l.saveFrom (k + 1) c = l.saveFrom k c :=
        fun c hc => ih c (by rw [hf.depth_child htn hc]; omega)
      rw [saveFrom.eq_2 l t (k + 1), saveFrom.eq_2 l t k, htn]
      obtain ⟨ident, parent, bounds, kind⟩ := tn
      -- only the body of the element reads the children
      cases kind with
      | pane p => rfl
      | placeholder part => rfl
      | collapsed inner =>
        dsimp only
        rw [hchild inner (by simp [Store.walkChildren])]
      | folder cs sel =>
        dsimp only
        rw [List.foldl_ext _ _ _ fun m c hc => by rw [hchild c hc]]
      | split o cs ws =>
        dsimp only
        rw [List.foldl_ext _ _ _ fun m x hx => by rw [hchild x.1 (List.of_mem_zip hx).1]]

theorem describeFrom_of_deep (hf : l.store.Forest) {k : Nat} {t : NodeId}
    (h : l.store.slots.size ≤ l.store.depth t + k) : l.describeFrom k t = l.describeNode t :=
  l.store.fuel_of_deep t (l.describeFrom · t) (fun k hk => describeFrom_succ_of_deep hf k t hk) h

theorem saveFrom_of_deep (hf : l.store.Forest) {k : Nat} {t : NodeId}
    (h : l.store.slots.size ≤ l.store.depth t + k) : l.saveFrom k t = l.saveNode t :=
  l.store.fuel_of_deep t (l.saveFrom · t) (fun k hk => saveFrom_succ_of_deep hf k t hk) h

end Layout

namespace LayoutM

variable {α β : Type} {l : Layout}

/-- A request's run from a layout, read from the first step's: two requests whose first steps
run alike, and whose rests agree on every state the first step can end in, run alike. -/
theorem run_bind_congr {x y : LayoutM α} {f g : α → LayoutM β} (hxy : x l = y l)
    (h : Ends x l (fun a l' => f a l' = g a l') fun _ _ => True) :
    (x >>= f) l = (y >>= g) l := by
  show EStateM.bind x f l = EStateM.bind y g l
  unfold EStateM.bind
  rw [← hxy]
  unfold Ends at h
  cases hx : x l with
  | ok a l' =>
    rw [hx] at h
    exact h
  | error e l' => rfl

theorem run_store_bind (f : Store → LayoutM α) : (store >>= f) l = f l.store l := rfl

/-- Two loops over a list run alike when their passes run alike from every state an
invariant admits, and keep it. -/
theorem forIn_run_congr {γ : Type} (inv : Layout → Prop) {f g : γ → β → LayoutM (ForInStep β)} :
    ∀ (xs : List γ), (∀ x ∈ xs, ∀ b l, inv l → f x b l = g x b l ∧
        Ends (f x b) l (fun _ l' => inv l') fun _ _ => True) →
      ∀ (b : β) (l : Layout), inv l → forIn xs b f l = forIn xs b g l
  | [], _, _, _, _ => rfl
  | x :: rest, h, b, l, hl => by
    rw [List.forIn_cons, List.forIn_cons]
    obtain ⟨heq, hinv⟩ := h x List.mem_cons_self b l hl
    refine run_bind_congr heq (hinv.mono (fun r l' hl' => ?_) fun _ _ _ => trivial)
    cases r with
    | done b' => rfl
    | yield b' =>
      exact forIn_run_congr inv rest (fun y hy => h y (List.mem_cons_of_mem _ hy)) b' l' hl'

theorem keeps_shape_setBounds (s : Store) (id : NodeId) (r : Rect) :
    Keeps (fun l' => Store.SameShape s l'.store ∧ l'.store.slots.size = s.slots.size)
      (onStore (·.setBounds id r)) := fun _ hl' =>
  ⟨hl'.1.trans (Store.sameShape_setBounds _ _ _), (Array.size_modify ..).trans hl'.2⟩

/-- The layout pass with fuel to spare beyond the levels below its node runs the same with
more. -/
theorem assignFrom_succ_of_deep :
    ∀ (k : Nat) (t : NodeId) (area : Rect) (shown : Bool) (l : Layout), l.store.Forest →
      l.store.slots.size ≤ l.store.depth t + k →
      assignFrom (k + 1) t area shown l = assignFrom k t area shown l := by
  intro k
  induction k with
  | zero =>
    intro t area shown l hf ht
    cases htn : l.store.get? t with
    | none => simp only [assignFrom, run_store_bind, htn]
    | some tn => exact absurd (hf.depth_lt_size htn) (by omega)
  | succ k ih =>
    intro t area shown l hf ht
    rw [assignFrom, assignFrom, run_store_bind, run_store_bind]
    cases htn : l.store.get? t with
    | none => rfl
    | some tn =>
      -- the passes below run on tables of the shape and size of this one, one level deeper
      have hpass : ∀ c ∈ Store.walkChildren true tn.kind, ∀ (area' : Rect) (shown' : Bool)
          (b : List (PartId × Rect)) (l₂ : Layout),
          Store.SameShape l.store l₂.store ∧ l₂.store.slots.size = l.store.slots.size →
          (assignFrom (k + 1) c area' shown' >>= fun y => pure (ForInStep.yield (b ++ y))) l₂ =
            (assignFrom k c area' shown' >>= fun y => pure (ForInStep.yield (b ++ y))) l₂ ∧
          Ends (assignFrom (k + 1) c area' shown' >>= fun y => pure (ForInStep.yield (b ++ y))) l₂
            (fun _ l' => Store.SameShape l.store l'.store ∧
              l'.store.slots.size = l.store.slots.size) fun _ _ => True := by
        intro c hc area' shown' b l₂ hl₂
        have hdepth : l₂.store.slots.size ≤ l₂.store.depth c + k := by
          rw [hl₂.1.depth_eq hl₂.2, hl₂.2, hf.depth_child htn hc]
          omega
        refine ⟨run_bind_congr (ih c area' shown' l₂ (hf.of_sameShape hl₂.1) hdepth)
          (.of_forall (fun _ _ => rfl) fun _ _ => trivial), ?_⟩
        rw [ends_bind]
        exact (keeps_assignFrom_of (keeps_shape_setBounds l.store) (k + 1) c area' shown' l₂
          hl₂).mono (fun _ _ h => h) fun _ _ _ => trivial
      have hl₁ : Store.SameShape l.store (l.store.setBounds t area) ∧
          (l.store.setBounds t area).slots.size = l.store.slots.size :=
        ⟨Store.sameShape_setBounds _ _ _, Array.size_modify ..⟩
      obtain ⟨ident, parent, bounds, kind⟩ := tn
      dsimp only
      split
      · rfl
      refine run_bind_congr rfl ?_
      rw [ends_onStore]
      cases kind with
      | folder cs sel =>
        dsimp only
        exact run_bind_congr (forIn_run_congr _ _ (fun x hx b l₂ hl₂ =>
            hpass x.1 (List.fst_mem_of_mem_zipIdx hx) _ _ b l₂ hl₂) [] _ hl₁)
          (.of_forall (fun _ _ => rfl) fun _ _ => trivial)
      | split o cs ws =>
        dsimp only
        exact run_bind_congr (forIn_run_congr _ _ (fun x hx b l₂ hl₂ =>
            hpass x.1.1 (List.of_mem_zip (List.mem_filter.mp (List.of_mem_zip hx).1).1).1 _ _ b
              l₂ hl₂) [] _ hl₁)
          (.of_forall (fun _ _ => rfl) fun _ _ => trivial)
      | _ => rfl

theorem assignFrom_of_deep (hf : l.store.Forest) {k : Nat} {t : NodeId} (area : Rect)
    (shown : Bool) (h : l.store.slots.size ≤ l.store.depth t + k) :
    assignFrom k t area shown l = assignFrom l.store.depthBound t area shown l :=
  l.store.fuel_of_deep t (fun k => assignFrom k t area shown l)
    (fun k hk => assignFrom_succ_of_deep k t area shown l hf hk) h

/-! ### The climbs up

A pass of a climb reads the table and edits it; the loop goes on from the node the pass
returns. When every pass from a state an invariant admits keeps the invariant and goes on
from a node of smaller depth in the table it leaves, the depth of the loop's position falls
at every pass, and a loop with fuel past the depth of its start stops by its own test. -/

/-- A climb whose passes keep an invariant and go on only from shallower nodes runs the same
with any fuel past the depth of its start. -/
theorem climbFrom_succ_of_depth_lt (P : Layout → Prop) {pass : NodeId → LayoutM (Option NodeId)}
    (hpass : ∀ cur l, P l → Ends (pass cur) l (fun r l' => P l' ∧
      ∀ next, r = some next → l'.store.depth next < l.store.depth cur) fun _ _ => True) :
    ∀ (k : Nat) (cur : NodeId) (l : Layout), P l → l.store.depth cur < k →
      climbFrom pass (k + 1) cur l = climbFrom pass k cur l := by
  intro k
  induction k with
  | zero => exact fun _ _ _ hk => absurd hk (Nat.not_lt_zero _)
  | succ k ih =>
    intro cur l hP hk
    rw [climbFrom.eq_2 pass cur (k + 1), climbFrom.eq_2 pass cur k]
    refine run_bind_congr rfl ((hpass cur l hP).mono (fun r l' h => ?_) fun _ _ _ => trivial)
    -- the loop goes on from a shallower node, with one level of fuel fewer
    cases r with
    | none => rfl
    | some next =>
      have hnext := h.2 next rfl
      exact ih next l' h.1 (by omega)

theorem climbFrom_of_depth_lt (P : Layout → Prop) {pass : NodeId → LayoutM (Option NodeId)}
    (hpass : ∀ cur l, P l → Ends (pass cur) l (fun r l' => P l' ∧
      ∀ next, r = some next → l'.store.depth next < l.store.depth cur) fun _ _ => True)
    {k : Nat} {cur : NodeId} (hP : P l) (hk : l.store.depth cur < k) :
    climbFrom pass k cur l = climbFrom pass l.store.depthBound cur l :=
  fuel_stable (fun k => climbFrom pass k cur l) (l.store.depth cur + 1)
    (fun k hk => climbFrom_succ_of_depth_lt P hpass k cur l hP hk) hk
    (Store.depth_lt_depthBound cur)

section Passes

variable {E : List NodeId}

theorem ends_unfoldPass_depth_lt (hs : l.Sound E) (cur : NodeId) :
    Ends (unfoldPass cur) l (fun r l' => l'.Sound E ∧
      ∀ next, r = some next → l'.store.depth next < l.store.depth cur) fun _ _ => True :=
  (ends_unfoldPass hs cur).mono
    (fun _ _ h => ⟨h.1, fun next hr => hs.forest.depth_lt h.1.forest (h.2 next hr)⟩)
    fun _ _ _ => trivial

/-- A pass of folding goes on, if at all, from a node closer to its root. -/
theorem ends_collapsePass_depth_lt (hs : l.Sound E) (cur : NodeId) :
    Ends (collapsePass cur) l (fun r l' => l'.Sound E ∧
      ∀ next, r = some next → l'.store.depth next < l.store.depth cur) fun _ _ => True := by
  by_cases hcon : l.store.contains cur = true
  · exact (ends_collapsePass hs hcon).mono (fun _ _ h => ⟨h.1, fun next hr =>
      hs.forest.depth_lt h.1.forest ((h.2.2 next hr).1.shallower h.1.forest)⟩)
      fun _ _ _ => trivial
  · -- from a node the table lacks, the pass stops at once or fails to find it
    have hnone : l.store.get? cur = none := by
      cases h : l.store.get? cur with
      | none => rfl
      | some n => exact absurd ((Store.contains_iff _ _).mpr ⟨n, h⟩) hcon
    rw [collapsePass, ends_bind, ends_get]
    split
    · exact ⟨hs, fun _ h => by cases h⟩
    rw [ends_bind, ends_node, hnone]
    trivial

theorem ends_tidyPass_depth_lt (hs : l.Sound E) (cur : NodeId) :
    Ends (tidyPass cur) l (fun r l' => l'.Sound E ∧
      ∀ next, r = some next → l'.store.depth next < l.store.depth cur) fun _ _ => True :=
  (ends_tidyPass hs cur).mono (fun _ _ h => ⟨h.1, fun next hr =>
    hs.forest.depth_lt h.1.forest ((h.2.2.2 next hr).1.shallower h.1.forest)⟩)
    fun _ _ _ => trivial

theorem unfoldFrom_of_depth_lt (hs : l.Sound E) {k : Nat} {cur : NodeId}
    (hk : l.store.depth cur < k) : unfoldFrom k cur l = unfoldAbove cur l :=
  climbFrom_of_depth_lt (·.Sound E) (fun cur _ hs => ends_unfoldPass_depth_lt hs cur) hs hk

theorem collapseFrom_of_depth_lt (hs : l.Sound E) {k : Nat} {cur : NodeId}
    (hk : l.store.depth cur < k) : collapseFrom k cur l = collapseEmpty cur l :=
  climbFrom_of_depth_lt (·.Sound E) (fun cur _ hs => ends_collapsePass_depth_lt hs cur) hs hk

theorem tidyFrom_of_depth_lt (hs : l.Sound E) {k : Nat} {cur : NodeId}
    (hk : l.store.depth cur < k) : tidyFrom k cur l = tidy cur l :=
  climbFrom_of_depth_lt (·.Sound E) (fun cur _ hs => ends_tidyPass_depth_lt hs cur) hs hk

end Passes

end LayoutM

namespace Layout

variable {l : Layout} {E : List NodeId}

/-- The loops over a layout's table end by their own tests. The climb to a root and the
ancestor test, with any fuel past the depth of their node, give what the program's give; each
pass up from a sound layout leaves a sound one and goes on, if at all, from a node strictly
closer to its root in the table it leaves, so the unfolding, folding and tidying loops run with
any fuel past the depth of their start as the program's run; and the walks down, with any fuel
covering the levels below their node, give what the program's give. -/
structure LoopsEnd (l : Layout) (E : List NodeId) : Prop where
  rootOf : ∀ k x, l.store.depth x < k → l.store.climb k x = l.store.rootOf x
  isAncestor : ∀ a k x, l.store.depth x < k →
    l.store.meets a k (l.store.parent? x) = l.store.isAncestor a x
  unfoldPass : ∀ cur, LayoutM.Ends (LayoutM.unfoldPass cur) l (fun r l' => l'.Sound E ∧
    ∀ next, r = some next → l'.store.depth next < l.store.depth cur) fun _ _ => True
  collapsePass : ∀ cur, LayoutM.Ends (LayoutM.collapsePass cur) l (fun r l' => l'.Sound E ∧
    ∀ next, r = some next → l'.store.depth next < l.store.depth cur) fun _ _ => True
  tidyPass : ∀ cur, LayoutM.Ends (LayoutM.tidyPass cur) l (fun r l' => l'.Sound E ∧
    ∀ next, r = some next → l'.store.depth next < l.store.depth cur) fun _ _ => True
  unfoldAbove : ∀ k cur, l.store.depth cur < k →
    LayoutM.unfoldFrom k cur l = LayoutM.unfoldAbove cur l
  collapseEmpty : ∀ k cur, l.store.depth cur < k →
    LayoutM.collapseFrom k cur l = LayoutM.collapseEmpty cur l
  tidy : ∀ k cur, l.store.depth cur < k → LayoutM.tidyFrom k cur l = LayoutM.tidy cur l
  free : ∀ k t, l.store.slots.size ≤ l.store.depth t + k → l.store.freeFrom k t = l.store.free t
  countPanes : ∀ k t, l.store.slots.size ≤ l.store.depth t + k →
    l.store.panesBelow k t = l.store.countPanes t
  assign : ∀ k t area shown, l.store.slots.size ≤ l.store.depth t + k →
    LayoutM.assignFrom k t area shown l = LayoutM.assignFrom l.store.depthBound t area shown l
  describe : ∀ k t, l.store.slots.size ≤ l.store.depth t + k → l.describeFrom k t = l.describeNode t
  save : ∀ k t, l.store.slots.size ≤ l.store.depth t + k → l.saveFrom k t = l.saveNode t

/-- Over a sound layout every loop ends by its own test, the upward ones at a node whose depth
fell at every pass. -/
theorem Sound.loops_end (hs : l.Sound E) : l.LoopsEnd E where
  rootOf _ _ hk := hs.forest.climb_of_depth_lt hk
  isAncestor a _ _ hk := hs.forest.meets_of_depth_lt a hk
  unfoldPass := LayoutM.ends_unfoldPass_depth_lt hs
  collapsePass := LayoutM.ends_collapsePass_depth_lt hs
  tidyPass := LayoutM.ends_tidyPass_depth_lt hs
  unfoldAbove _ _ hk := LayoutM.unfoldFrom_of_depth_lt hs hk
  collapseEmpty _ _ hk := LayoutM.collapseFrom_of_depth_lt hs hk
  tidy _ _ hk := LayoutM.tidyFrom_of_depth_lt hs hk
  free _ _ h := hs.forest.freeFrom_of_deep h
  countPanes _ _ h := hs.forest.panesBelow_of_deep h
  assign _ _ area shown h := LayoutM.assignFrom_of_deep hs.forest area shown h
  describe _ _ h := describeFrom_of_deep hs.forest h
  save _ _ h := saveFrom_of_deep hs.forest h

/-- The layout with one pane added beside the editor area is sound, and its loops end by their
own tests. -/
theorem loops_end_withPane :
    let l := (Script.layoutStep ⟨withEditorArea (Host.fresh true), []⟩
      (.addPane ⟨"A", .view⟩)).2.layout
    l.Sound [] ∧ l.LoopsEnd [] :=
  have hs := (Reachable.step [] (.addPane ⟨"A", .view⟩) (.withEditorArea (Host.fresh true))
    fun _ h => by cases h).sound
  ⟨hs, Sound.loops_end hs⟩

end Layout

end Docking
