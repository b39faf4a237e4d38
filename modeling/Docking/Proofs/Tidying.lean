import Docking.Proofs.WindowFrame
import Docking.Proofs.Rooted.Basic
/-!
# What tidying changes in a table

Tidying behind a node taken out, unfolding the collapsed nodes above a node put back, and
making the folder a node is stacked into change the table in three ways only: they relink
nodes, drop nodes and add containers. None of them gives a node of the table another form
(`Store.Thins`). A property of tables that survives all three (`LayoutM.KeptByTidying`) is kept
by each of these walks, carried out or refused, on any layout; the walks are proved here once
for every such property.

Two properties are used. No node comes to carry a part it did not carry (`Proofs/Leaves`). And
a node that is a pane or a folder stays one or goes, its slot never reused (`Store.Pickable`):
a request that selects a node at its end, after tidying, selects a pane or a folder.
-/

namespace Docking

namespace Store

variable {s s₁ s' : Store}

/-- Freeing only takes nodes out: each node is left as it was, or gone. -/
theorem get?_freeFrom (k : Nat) (x : NodeId) :
    ∀ (t : NodeId) (s : Store),
      (s.freeFrom k t).get? x = s.get? x ∨ (s.freeFrom k t).get? x = none := by
  induction k with
  | zero => exact fun _ _ => .inl rfl
  | succ k ih =>
    intro t s
    rw [freeFrom]
    split
    · exact .inl rfl
    -- the node goes first, then the subtree of each node it holds
    have hfold : ∀ (cs : List NodeId) (s₀ : Store),
        (cs.foldl (fun acc c => acc.freeFrom k c) s₀).get? x = s₀.get? x ∨
          (cs.foldl (fun acc c => acc.freeFrom k c) s₀).get? x = none := by
      intro cs
      induction cs with
      | nil => exact fun _ => .inl rfl
      | cons c cs ihc =>
        intro s₀
        rw [List.foldl_cons]
        rcases ihc (s₀.freeFrom k c) with h | h
        · rw [h]
          exact ih c s₀
        · exact .inr h
    rcases hfold _ (s.discard t) with h | h
    · rw [h, get?_discard]
      split
      · exact .inr rfl
      · exact .inl rfl
    · exact .inr h

/-- From `s` to `s'` nodes are only relinked or dropped: the table keeps its size, and every
node of `s'` has the form it had in `s`. -/
def Thins (s s' : Store) : Prop :=
  s'.slots.size = s.slots.size ∧ ∀ x fm, s'.form? x = some fm → s.form? x = some fm

theorem thins_of_forms (hsize : s'.slots.size = s.slots.size)
    (hform : ∀ x, s'.form? x = s.form? x) : Thins s s' :=
  ⟨hsize, fun x _ h => by rwa [hform x] at h⟩

theorem thins_removeChild {p c : NodeId} {w : Float32} (h : s.removeChild p c = .ok (w, s')) :
    Thins s s' :=
  thins_of_forms (size_removeChild h) (form?_removeChild h)

theorem thins_pushChild {p c : NodeId} (h : s.pushChild p c = .ok s') : Thins s s' :=
  thins_of_forms (size_pushChild h) (form?_pushChild h)

theorem thins_replaceChild {p old new : NodeId} (h : s.replaceChild p old new = .ok s') :
    Thins s s' :=
  thins_of_forms (size_replaceChild h) (form?_replaceChild h)

theorem thins_setParent {id : NodeId} {q : Option NodeId} (h : s.setParent id q = .ok s') :
    Thins s s' := by
  refine thins_of_forms (size_setParent h) fun x => ?_
  rw [(setParent_eq_ok h).2]
  exact form?_setParentField _ _ _ _

theorem thins_select (s : Store) (c : NodeId) : Thins s (s.select c).2 :=
  thins_of_forms (size_select s c) fun x => (sameShape_select s c x).2.2

theorem thins_discard (s : Store) (x : NodeId) : Thins s (s.discard x) := by
  refine ⟨size_discard s x, fun y fm h => ?_⟩
  rw [form?_discard] at h
  split at h
  · cases h
  · exact h

theorem thins_free (s : Store) (t : NodeId) : Thins s (s.free t) := by
  refine ⟨size_free s t, fun x fm h => ?_⟩
  unfold free at h
  rcases get?_freeFrom s.depthBound x t s with hx | hx
  · rwa [form?, hx] at h
  · simp [form?, hx] at h

theorem Movable.pickable {n : NodeId} (h : s.Movable n) : s.Pickable n := by
  rcases h with h | ⟨p, h⟩
  · exact pickable_of_form h (.inl rfl)
  · exact pickable_of_form h (.inr ⟨p, rfl⟩)

end Store

namespace LayoutM

/-- A property of tables that relinking and dropping nodes keep, and so does a new container. -/
structure KeptByTidying (Q : Store → Prop) : Prop where
  thins : ∀ {s s' : Store}, Store.Thins s s' → Q s → Q s'
  alloc : ∀ {s : Store} (ident : String) {k : NodeKind}, k.form.isLeaf = false → Q s →
    Q (s.alloc ident k).2

theorem keptByTidying_pickable (c : NodeId) : KeptByTidying (·.Pickable c) where
  thins h hc := ⟨h.1 ▸ hc.1, fun fm hfm => hc.2 fm (h.2 c fm hfm)⟩
  alloc := fun {s} ident {k} _ hc => by
    have hne : c ≠ s.nextId := fun he => Nat.lt_irrefl _ ((congrArg NodeId.val he) ▸ hc.1)
    refine ⟨by rw [Store.size_alloc]; exact Nat.lt_succ_of_lt hc.1, fun fm hfm => ?_⟩
    rw [Store.form?_alloc, if_neg hne] at hfm
    exact hc.2 fm hfm

namespace KeptByTidying

open Store

variable {α : Type} {Q : Store → Prop}

/-! ### The edits of the walks -/

theorem keeps_edit (hQ : KeptByTidying Q) {f : Store → Except LayoutError Store}
    (hf : ∀ s s', f s = .ok s' → Thins s s') : Keeps (fun l => Q l.store) (edit f) := fun l hl => by
  rw [ends_edit]
  split
  · next s' h => exact hQ.thins (hf _ _ h) hl
  · exact hl

theorem keeps_editWith (hQ : KeptByTidying Q) {f : Store → Except LayoutError (α × Store)}
    (hf : ∀ s a s', f s = .ok (a, s') → Thins s s') : Keeps (fun l => Q l.store) (editWith f) :=
  fun l hl => by
    rw [ends_editWith]
    split
    · next a s' h => exact hQ.thins (hf _ _ _ h) hl
    · exact hl

theorem keeps_onStore (hQ : KeptByTidying Q) {f : Store → Store} (hf : ∀ s, Thins s (f s)) :
    Keeps (fun l => Q l.store) (onStore f) := fun l hl =>
  (ends_onStore f).mpr (hQ.thins (hf l.store) hl)

theorem keeps_allocContainer (hQ : KeptByTidying Q) {k : NodeKind} (hk : k.form.isLeaf = false) :
    Keeps (fun l => Q l.store) (allocContainer k) := fun l hl => by
  obtain ⟨ident, he⟩ := allocContainer_eq l.store k
  rw [ends_allocContainer, he]
  exact hQ.alloc ident hk hl

theorem keeps_removeChild (hQ : KeptByTidying Q) (p c : NodeId) :
    Keeps (fun l => Q l.store) (editWith (·.removeChild p c)) :=
  hQ.keeps_editWith fun _ _ _ h => thins_removeChild h

theorem keeps_replaceChild (hQ : KeptByTidying Q) (p old new : NodeId) :
    Keeps (fun l => Q l.store) (edit (·.replaceChild p old new)) :=
  hQ.keeps_edit fun _ _ h => thins_replaceChild h

theorem keeps_discard (hQ : KeptByTidying Q) (x : NodeId) :
    Keeps (fun l => Q l.store) (onStore (·.discard x)) :=
  hQ.keeps_onStore fun s => thins_discard s x

/-! ### Tidying -/

theorem keeps_retireIfEmpty (hQ : KeptByTidying Q) (w : WindowId) :
    Keeps (fun l => Q l.store) (retireIfEmpty w) := by
  refine keeps_get_bind fun l hl => ?_
  split
  · exact keeps_pure ()
  dsimp only
  split
  · exact keeps_pure ()
  split
  · exact keeps_set (hQ.thins (thins_free _ _) hl)
  · exact keeps_set hl

theorem keeps_collapsePass (hQ : KeptByTidying Q) (cur : NodeId) :
    Keeps (fun l => Q l.store) (collapsePass cur) := by
  refine keeps_get_bind fun _ _ => ?_
  split
  · exact keeps_pure _
  refine keeps_bind (keeps_node _) fun _ => ?_
  split
  · exact keeps_pure _
  split
  · exact keeps_pure _
  refine keeps_bind (keeps_node _) fun _ => ?_
  split
  · exact keeps_pure _
  -- the fold: a new collapsed node takes the slot, and holds the container
  exact keeps_bind (fun l hl => (ends_alloc _ _).mpr (hQ.alloc _ rfl hl)) fun _ =>
    keeps_bind (hQ.keeps_replaceChild _ _ _) fun _ =>
      keeps_bind (hQ.keeps_edit fun _ _ h => thins_setParent h) fun _ => keeps_pure _

theorem keeps_tidyPass (hQ : KeptByTidying Q) (cur : NodeId) :
    Keeps (fun l => Q l.store) (tidyPass cur) := by
  refine keeps_get_bind fun l hl => ?_
  split
  · exact keeps_pure _
  split
  · exact keeps_bind (hQ.keeps_retireIfEmpty _) fun _ => keeps_pure _
  split
  · split
    · exact keeps_bind (keeps_set (hQ.thins (thins_free _ _) hl)) fun _ => keeps_pure _
    · exact keeps_pure _
  split
  · exact keeps_pure _
  refine keeps_bind (keeps_node _) fun _ => keeps_bind (keeps_node _) fun _ => ?_
  split
  · split
    · exact keeps_pure _
    split
    · exact keeps_pure _
    exact keeps_bind (hQ.keeps_removeChild _ _) fun _ =>
      keeps_bind (hQ.keeps_onStore fun s => thins_free s _) fun _ => keeps_pure _
  split
  · exact keeps_bind (hQ.keeps_removeChild _ _) fun _ =>
      keeps_bind (hQ.keeps_discard _) fun _ => keeps_pure _
  split
  · exact keeps_bind (hQ.keeps_removeChild _ _) fun _ =>
      keeps_bind (hQ.keeps_replaceChild _ _ _) fun _ =>
        keeps_bind (hQ.keeps_discard _) fun _ => keeps_pure _
  refine keeps_get_bind fun _ _ => ?_
  dsimp only
  split
  · exact keeps_bind (keeps_bind keeps_store fun _ =>
      keeps_climbFrom hQ.keeps_collapsePass _ _) fun _ => keeps_pure _
  · exact keeps_pure _

theorem keeps_tidy (hQ : KeptByTidying Q) (cur : NodeId) :
    Keeps (fun l => Q l.store) (tidy cur) :=
  keeps_bind keeps_store fun _ => keeps_climbFrom hQ.keeps_tidyPass _ _

theorem keeps_takeNode (hQ : KeptByTidying Q) (n : NodeId) :
    Keeps (fun l => Q l.store) (takeNode n) := by
  refine keeps_bind keeps_store fun _ => ?_
  split
  · exact keeps_throw _
  · exact keeps_bind (hQ.keeps_removeChild _ _) fun _ =>
      keeps_bind (hQ.keeps_tidy _) fun _ => keeps_pure _

/-! ### Unfolding, and the folder to stack into -/

theorem keeps_unfoldPass (hQ : KeptByTidying Q) (cur : NodeId) :
    Keeps (fun l => Q l.store) (unfoldPass cur) := by
  refine keeps_bind keeps_store fun _ => ?_
  split
  · exact keeps_pure _
  refine keeps_bind (keeps_node _) fun _ => ?_
  split
  · split
    · split
      · exact keeps_pure _
      · exact keeps_bind (hQ.keeps_replaceChild _ _ _) fun _ =>
          keeps_bind (hQ.keeps_discard _) fun _ => keeps_pure _
    · exact keeps_pure _
  · exact keeps_pure _

theorem keeps_unfoldAbove (hQ : KeptByTidying Q) (n : NodeId) :
    Keeps (fun l => Q l.store) (unfoldAbove n) :=
  keeps_bind keeps_store fun _ => keeps_climbFrom hQ.keeps_unfoldPass _ _

theorem keeps_targetFolder (hQ : KeptByTidying Q) (reference : NodeId) :
    Keeps (fun l => Q l.store) (targetFolder reference) := by
  refine keeps_bind (keeps_node _) fun _ => ?_
  split
  · exact keeps_pure _
  refine keeps_get_bind fun _ _ => ?_
  split
  · exact keeps_pure _
  split
  · -- a new folder takes the reference's slot and then holds it
    refine keeps_bind (hQ.keeps_allocContainer rfl) fun _ => ?_
    refine keeps_bind (keeps_onError (hQ.keeps_replaceChild _ _ _)
      fun _ => keeps_bind (hQ.keeps_discard _) fun _ => keeps_throw _) fun _ => ?_
    exact keeps_bind (hQ.keeps_edit fun _ _ h => thins_pushChild h) fun _ => keeps_pure _
  · exact keeps_throw _

end KeptByTidying

end LayoutM

end Docking
