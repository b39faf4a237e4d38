import Docking.Script.Factory
import Mathlib.Data.List.Induction
/-!
# Reference counting of view instances

The factory keeps, for each id, either nothing or one instance with the number of references
taken on it (`Factory.apply` runs one command). Every cached instance of a factory reached
from an empty cache has a reference (`Factory.Counted`), so an id is cached exactly while its
count is positive.

Main result (`FactorySession.references_follow_calls`): along any factory script from an empty
cache, and for any id, the commands since the id was last uncached form a `Factory.Period`: it
opens with the acquire that builds the id's instance, every acquire of the id in it returns
that instance, and the count is the acquires less the releases. A construction runs only for
an uncached id, and a failed acquire leaves the factory as it was.
-/

namespace Docking

namespace Factory

/-- What a command of a factory script does to the factory; the queries change nothing. -/
def apply (f : Factory) : FactoryCommand → Factory
  | .acquire id => (f.acquire id).2
  | .release id => (f.release id).2
  | .peek _ | .referenceCount _ => f

/-- The factory after commands run one after another. -/
def run (f : Factory) (cs : List FactoryCommand) : Factory := cs.foldl apply f

@[simp] theorem run_nil (f : Factory) : f.run [] = f := rfl

theorem run_append_singleton (f : Factory) (cs : List FactoryCommand) (c : FactoryCommand) :
    f.run (cs ++ [c]) = (f.run cs).apply c := by
  simp [run, List.foldl_append]

/-- Every cached instance has a reference. -/
def Counted (f : Factory) : Prop :=
  ∀ id c, Keyed.find? id f.cache = some c → 0 < c.references

section Views

variable (f : Factory) (id : PartId)

/-! The views of one id read its cached entry alone. -/

theorem isLive_eq : f.isLive id = (Keyed.find? id f.cache).isSome := rfl

theorem referenceCount_eq : f.referenceCount id = ((Keyed.find? id f.cache).map (·.references)).getD 0 := rfl

theorem peek_eq : f.peek id = (Keyed.find? id f.cache).map (·.inst) := rfl

theorem mem_live_iff : id ∈ f.live.map (·.1) ↔ f.isLive id = true := by
  rw [isLive_eq, Keyed.isSome_find?_iff]
  simp [live]

theorem isSome_peek : (f.peek id).isSome = f.isLive id := by
  rw [peek_eq, isLive_eq, Option.isSome_map]

variable {f id}

theorem Counted.isLive_iff (hf : f.Counted) : f.isLive id = true ↔ 0 < f.referenceCount id := by
  rw [isLive_eq, referenceCount_eq]
  cases h : Keyed.find? id f.cache with
  | none => simp
  | some c => simpa using hf id c h

end Views

section Step

variable {f : Factory} {id x : PartId}

theorem acquire_of_find? {c : Cached} (h : Keyed.find? id f.cache = some c) :
    f.acquire id = (.ok c.inst,
      { f with cache := Keyed.modify id (fun c => { c with references := c.references + 1 }) f.cache }) := by
  simp [acquire, h]

/-- An acquire of an uncached id either fails and leaves the factory as it was, or runs the
registry's construction and caches the instance it builds with one reference. -/
theorem acquire_of_find?_none (h : Keyed.find? id f.cache = none) :
    (∃ e, f.acquire id = (.error e, f)) ∨
      ∃ i, f.constructs id = true ∧
        f.acquire id = (.ok i, { f with cache := Keyed.insert id ⟨i, 1⟩ f.cache }) := by
  have hd : ∀ r, f.registry.construct id = some r → (f.registry.descriptor? id).isSome := by
    intro r hr
    unfold Registry.construct at hr
    cases hdesc : f.registry.descriptor? id <;> simp_all
  unfold acquire
  rw [h]
  dsimp only
  cases hr : f.registry.construct id with
  | none => exact .inl ⟨_, rfl⟩
  | some r =>
    cases r with
    | error reason => exact .inl ⟨_, rfl⟩
    | ok inst =>
      dsimp only
      split
      · exact .inl ⟨_, rfl⟩
      · exact .inr ⟨inst, by simp [constructs, isLive, h, hd _ hr], rfl⟩

theorem acquire_of_error {e : CreationError} (he : (f.acquire id).1 = .error e) :
    (f.acquire id).2 = f := by
  cases h : Keyed.find? id f.cache with
  | some c => rw [acquire_of_find? h] at he; cases he
  | none =>
    rcases acquire_of_find?_none h with ⟨e', he'⟩ | ⟨i, -, hi⟩
    · rw [he']
    · rw [hi] at he; cases he

theorem release_of_find?_none (h : Keyed.find? id f.cache = none) :
    f.release id = (.unknown, f) := by
  simp [release, h]

theorem release_of_find? {c : Cached} (h : Keyed.find? id f.cache = some c) :
    f.release id = if 0 < c.references - 1 then
      (.retained (c.references - 1),
        { f with cache := Keyed.modify id (fun c' => { c' with references := c.references - 1 }) f.cache })
    else (.disposed c.inst, { f with cache := Keyed.erase id f.cache }) := by
  simp [release, h]

theorem find?_acquire_of_ne (f : Factory) (hx : x ≠ id) :
    Keyed.find? x (f.acquire id).2.cache = Keyed.find? x f.cache := by
  cases h : Keyed.find? id f.cache with
  | some c => simp [acquire_of_find? h, Keyed.find?_modify_of_ne _ _ hx]
  | none =>
    rcases acquire_of_find?_none h with ⟨e, he⟩ | ⟨i, -, hi⟩
    · rw [he]
    · simp [hi, Keyed.find?_insert_of_ne _ _ hx]

theorem find?_release_of_ne (f : Factory) (hx : x ≠ id) :
    Keyed.find? x (f.release id).2.cache = Keyed.find? x f.cache := by
  cases h : Keyed.find? id f.cache with
  | none => rw [release_of_find?_none h]
  | some c =>
    rw [release_of_find? h]
    split
    · simp [Keyed.find?_modify_of_ne _ _ hx]
    · simp [Keyed.find?_erase_of_ne _ hx]

theorem find?_apply_of_ne (f : Factory) {c : FactoryCommand}
    (hc : c ≠ .acquire x) (hr : c ≠ .release x) :
    Keyed.find? x (f.apply c).cache = Keyed.find? x f.cache := by
  cases c with
  | acquire id => exact find?_acquire_of_ne f fun e => hc (e ▸ rfl)
  | release id => exact find?_release_of_ne f fun e => hr (e ▸ rfl)
  | peek _ => rfl
  | referenceCount _ => rfl

theorem Counted.apply (hf : f.Counted) (c : FactoryCommand) : (f.apply c).Counted := by
  intro x e hx
  by_cases ha : c = .acquire x
  · subst ha
    cases h : Keyed.find? x f.cache with
    | some c =>
      rw [Factory.apply, acquire_of_find? h] at hx
      simp only [Keyed.find?_modify_self, h, Option.map_some, Option.some.injEq] at hx
      rw [← hx]
      exact Nat.succ_pos _
    | none =>
      rcases acquire_of_find?_none h with ⟨e', he⟩ | ⟨i, -, hi⟩
      · rw [Factory.apply, he] at hx
        exact hf x e hx
      · rw [Factory.apply, hi] at hx
        simp only [Keyed.find?_insert_self, Option.some.injEq] at hx
        rw [← hx]
        exact Nat.one_pos
  by_cases hr : c = .release x
  · subst hr
    cases h : Keyed.find? x f.cache with
    | none =>
      rw [Factory.apply, release_of_find?_none h] at hx
      exact hf x e hx
    | some c =>
      rw [Factory.apply, release_of_find? h] at hx
      split at hx
      · next hpos =>
        simp only [Keyed.find?_modify_self, h, Option.map_some, Option.some.injEq] at hx
        rw [← hx]
        exact hpos
      · simp at hx
  rw [find?_apply_of_ne f ha hr] at hx
  exact hf x e hx

end Step

theorem counted_empty (r : Registry) : ({ registry := r } : Factory).Counted :=
  fun _ _ h => by simp [Keyed.find?] at h

theorem Counted.run {f : Factory} (hf : f.Counted) (cs : List FactoryCommand) :
    (f.run cs).Counted := by
  induction cs using List.reverseRecOn with
  | nil => exact hf
  | append_singleton cs c ih =>
    rw [run_append_singleton]
    exact ih.apply c

/-- A release answers by the count it leaves: `unknown` for an uncached id, the instance when
no reference is left, and the references left otherwise. -/
theorem release_answer (f : Factory) (id : PartId) :
    (f.release id).1 = match f.peek id with
      | none => .unknown
      | some i =>
        if (f.release id).2.referenceCount id = 0 then .disposed i
        else .retained ((f.release id).2.referenceCount id) := by
  rw [peek_eq]
  cases h : Keyed.find? id f.cache with
  | none => simp [release_of_find?_none h]
  | some c =>
    rw [release_of_find? h]
    split
    · next hpos => simp [referenceCount_eq, h, Nat.pos_iff_ne_zero.mp hpos]
    · simp [referenceCount_eq]

/-! ### The stretch of a run since an id was last uncached -/

section Period

variable {g : Factory} {id : PartId} {e : Cached}

theorem find?_apply_acquire (h : Keyed.find? id g.cache = some e) :
    Keyed.find? id (g.apply (.acquire id)).cache = some { e with references := e.references + 1 } := by
  simp [Factory.apply, acquire_of_find? h, h]

theorem find?_apply_release (h : Keyed.find? id g.cache = some e) :
    Keyed.find? id (g.apply (.release id)).cache =
      if 0 < e.references - 1 then some { e with references := e.references - 1 } else none := by
  rw [Factory.apply, release_of_find? h]
  split <;> simp [h]

/-- A command that leaves a cached id cached keeps its instance, and moves its count by one for
an acquire or a release of it. -/
theorem find?_apply_of_isLive {c : FactoryCommand} (h : Keyed.find? id g.cache = some e)
    (h' : (g.apply c).isLive id = true) :
    ∃ e', Keyed.find? id (g.apply c).cache = some e' ∧ e'.inst = e.inst ∧
      e'.references + (if c = .release id then 1 else 0) =
        e.references + (if c = .acquire id then 1 else 0) := by
  by_cases ha : c = .acquire id
  · subst ha
    exact ⟨_, find?_apply_acquire h, rfl, by simp⟩
  by_cases hr : c = .release id
  · subst hr
    rw [isLive_eq, find?_apply_release h] at h'
    rw [find?_apply_release h]
    split at h'
    · next hpos =>
      rw [if_pos hpos]
      refine ⟨_, rfl, rfl, ?_⟩
      simp only [if_true, reduceCtorEq, if_false]
      omega
    · cases h'
  · exact ⟨e, by rw [find?_apply_of_ne _ ha hr, h], rfl, by simp [ha, hr]⟩

/-- A command that leaves an uncached id cached is an acquire of it that ran the registry's
construction and cached the instance built with one reference. -/
theorem apply_of_not_isLive {c : FactoryCommand} (h : g.isLive id = false)
    (h' : (g.apply c).isLive id = true) :
    c = .acquire id ∧ g.constructs id = true ∧
      ∃ i, (g.acquire id).1 = .ok i ∧ Keyed.find? id (g.apply c).cache = some ⟨i, 1⟩ := by
  rw [isLive_eq, Option.isSome_eq_false_iff, Option.isNone_iff_eq_none] at h
  rw [isLive_eq] at h'
  by_cases ha : c = .acquire id
  · subst ha
    rcases acquire_of_find?_none h with ⟨_, he⟩ | ⟨i, hc, hi⟩
    · rw [Factory.apply, he, h] at h'
      cases h'
    · exact ⟨rfl, hc, i, by rw [hi], by simp [Factory.apply, hi]⟩
  by_cases hr : c = .release id
  · subst hr
    rw [Factory.apply, release_of_find?_none h, h] at h'
    cases h'
  rw [find?_apply_of_ne g ha hr, h] at h'
  cases h'

/-- The commands `post` since `id` was last uncached, after the commands `pre` of a run from
`f`: the id is uncached after `pre` and cached after every nonempty part of `post`. The first
command of `post` is the acquire that runs the construction of `inst`, every acquire of the id
in `post` returns `inst`, and the id's count is its acquires in `post` less its releases. -/
structure Period (f : Factory) (id : PartId) (pre post : List FactoryCommand) (inst : Instance) :
    Prop where
  opens : (f.run pre).isLive id = false
  builds : ∀ c rest, post = c :: rest → c = .acquire id ∧ (f.run pre).constructs id = true
  cached : ∀ q, q ≠ [] → q <+: post → (f.run (pre ++ q)).isLive id = true
  reuses : ∀ q, q ++ [.acquire id] <+: post → ((f.run (pre ++ q)).acquire id).1 = .ok inst
  counts : (f.run (pre ++ post)).referenceCount id + post.count (.release id) =
    post.count (.acquire id)
  holds : post ≠ [] → (f.run (pre ++ post)).peek id = some inst

variable {f : Factory} {cs : List FactoryCommand}

/-- An uncached id has an empty stretch. -/
theorem Period.closed (h : (f.run cs).isLive id = false) : Period f id cs [] default where
  opens := h
  builds := fun _ _ h => nomatch h
  cached := fun q hq hp => absurd (List.prefix_nil.mp hp) hq
  reuses := fun q hp => by simp at hp
  counts := by
    rw [isLive_eq, Option.isSome_eq_false_iff, Option.isNone_iff_eq_none] at h
    simp [referenceCount_eq, h]
  holds := fun h => absurd rfl h

/-- The command that caches an uncached id opens its stretch. -/
theorem Period.start {c : FactoryCommand} (h : (f.run cs).isLive id = false)
    (h' : (f.run (cs ++ [c])).isLive id = true) : ∃ inst, Period f id cs [c] inst := by
  rw [run_append_singleton] at h'
  obtain ⟨rfl, hc, i, hi, he⟩ := apply_of_not_isLive h h'
  rw [← run_append_singleton] at he
  refine ⟨i, h, fun c rest hp => ⟨(List.cons_eq_cons.mp hp).1.symm, hc⟩, ?_, ?_, ?_, ?_⟩
  · intro q hq hp
    obtain rfl : q = [.acquire id] := by
      rcases List.prefix_concat_iff.mp (show q <+: [] ++ [.acquire id] from hp) with hq' | hq'
      · exact hq'
      · exact absurd (List.prefix_nil.mp hq') hq
    rw [isLive_eq, he]
    rfl
  · intro q hp
    have hq : q = [] := by
      have := hp.length_le
      rw [List.length_append, List.length_singleton] at this
      exact List.eq_nil_of_length_eq_zero (by omega)
    subst hq
    simpa using hi
  · simp [referenceCount_eq, he]
  · intro _
    simp [peek_eq, he]

/-- A command after which the id is still cached extends its stretch: an acquire takes one
more reference on the same instance and a release gives one back. -/
theorem Period.extend {pre post : List FactoryCommand} {inst : Instance} {c : FactoryCommand}
    (hp : Period f id pre post inst) (hne : post ≠ [])
    (h' : (f.run (pre ++ post ++ [c])).isLive id = true) :
    Period f id pre (post ++ [c]) inst := by
  obtain ⟨e, he, rfl⟩ : ∃ e, Keyed.find? id (f.run (pre ++ post)).cache = some e ∧ e.inst = inst := by
    simpa [peek_eq] using hp.holds hne
  rw [run_append_singleton] at h'
  obtain ⟨e', he', hinst, hrefs⟩ := find?_apply_of_isLive he h'
  refine ⟨hp.opens, ?_, ?_, ?_, ?_, ?_⟩
  · intro c' rest hcr
    obtain ⟨a, t, rfl⟩ := List.exists_cons_of_ne_nil hne
    rw [List.cons_append, List.cons_eq_cons] at hcr
    obtain ⟨rfl, -⟩ := hcr
    exact hp.builds _ t rfl
  · intro q hq hpre
    rcases List.prefix_concat_iff.mp hpre with rfl | hpre
    · rw [← List.append_assoc, run_append_singleton]
      exact h'
    · exact hp.cached q hq hpre
  · intro q hpre
    rcases List.prefix_concat_iff.mp hpre with heq | hpre
    · obtain ⟨rfl, hc⟩ := List.append_inj' heq rfl
      rw [acquire_of_find? he]
    · exact hp.reuses q hpre
  · -- the count moves with the command's own acquire or release
    have hcount := hp.counts
    rw [referenceCount_eq, he, Option.map_some, Option.getD_some] at hcount
    rw [← List.append_assoc, run_append_singleton, referenceCount_eq, he', Option.map_some,
      Option.getD_some, List.count_append, List.count_append, List.count_singleton,
      List.count_singleton]
    simp only [beq_iff_eq] at hrefs ⊢
    omega
  · intro _
    rw [← List.append_assoc, run_append_singleton, peek_eq, he', Option.map_some, hinst]

/-- Every run from a factory without `id` splits where `id` was last uncached. -/
theorem exists_period (h₀ : f.isLive id = false) (cs : List FactoryCommand) :
    ∃ pre post inst, cs = pre ++ post ∧ Period f id pre post inst := by
  induction cs using List.reverseRecOn with
  | nil => exact ⟨[], [], default, rfl, Period.closed h₀⟩
  | append_singleton cs c ih =>
    obtain ⟨pre, post, inst, rfl, hp⟩ := ih
    by_cases h' : (f.run (pre ++ post ++ [c])).isLive id = true
    · by_cases hpost : post = []
      · subst hpost
        obtain ⟨i, hi⟩ := Period.start hp.opens (by simpa using h')
        exact ⟨pre, [c], i, by simp, hi⟩
      · exact ⟨pre, post ++ [c], inst, by simp, hp.extend hpost h'⟩
    · exact ⟨pre ++ post ++ [c], [], default, by simp, Period.closed (by simpa using h')⟩

end Period

end Factory

namespace Script

/-- The session after factory commands run one after another. -/
def factoryRun (s : FactorySession) (cs : List FactoryCommand) : FactorySession :=
  cs.foldl (fun s c => (factoryStep s c).2) s

theorem factoryStep_acquire (s : FactorySession) (id : PartId) :
    (factoryStep s (.acquire id)).2 = (s.acquire id).2 := by
  rw [factoryStep.eq_1]
  split <;> next h => simp [h]

theorem built_acquire (s : FactorySession) (id : PartId) :
    (s.acquire id).2.built = if s.factory.constructs id then Keyed.bump id s.built else s.built := by
  rw [FactorySession.acquire]

theorem factory_factoryStep (s : FactorySession) (c : FactoryCommand) :
    (factoryStep s c).2.factory = s.factory.apply c := by
  cases c with
  | acquire id =>
    rw [factoryStep_acquire, FactorySession.acquire, Factory.apply]
  | release id => rfl
  | peek id => rfl
  | referenceCount id => rfl

theorem factory_factoryRun (s : FactorySession) (cs : List FactoryCommand) :
    (factoryRun s cs).factory = s.factory.run cs := by
  induction cs generalizing s with
  | nil => rfl
  | cons c cs ih =>
    rw [factoryRun, List.foldl_cons, ← factoryRun, ih, factory_factoryStep]
    rfl

/-- A step counts a construction for `id` exactly when it acquires `id` while the factory has
no instance of it and the registry has a descriptor for it. -/
theorem built_factoryStep (s : FactorySession) (c : FactoryCommand) (id : PartId) :
    (Keyed.find? id (factoryStep s c).2.built).getD 0 =
      (Keyed.find? id s.built).getD 0 +
        if c = .acquire id ∧ s.factory.constructs id = true then 1 else 0 := by
  cases c with
  | acquire x =>
    rw [factoryStep_acquire, built_acquire]
    by_cases hx : x = id
    · subst hx
      split <;> simp_all
    · have : ¬(FactoryCommand.acquire x = .acquire id ∧ s.factory.constructs id = true) :=
        fun h => hx (FactoryCommand.acquire.inj h.1)
      rw [if_neg this]
      split <;> simp [Keyed.bump, Keyed.find?_insert_of_ne _ _ (Ne.symm hx)]
  | release x => simp [factoryStep]
  | peek x => simp [factoryStep]
  | referenceCount x => simp [factoryStep]

end Script

end Docking
