import Unerase.Expansion.Expand
import Unerase.Proofs.Expansion.Unfolding

/-!
What a pass does at one placeholder and at one type. Neither the cache nor the keys
that are active have an influence on the types that come out:

* a type that is expanded at all is expanded as by `Unfolding`
  (`Expand.typeWithin_unfolding`);
* a type that `Unfolding` expands is expanded by a pass without a cache that has
  enough room (`Expand.typeWithin_of_unfolding`);
* a type that is expanded without a cache is expanded with one
  (`Expand.typeWithin_memoized`).
-/

namespace Unerase

namespace Expand

variable {index : Index} {options : ExpansionOptions} {room : Nat}
  {k : TemplateKey} {s s' : PassState} {t u : Ty}

/-- How to expand what a key stands for if there is room for so many keys. -/
def below (index : Index) (options : ExpansionOptions) :
    (room : Nat) → Option (Ty → Expand Ty)
  | 0 => none
  | room + 1 => some (typeWithin index options room)

/-- The answer at a placeholder if there is room for so many keys. -/
def answer (index : Index) (options : ExpansionOptions) (room : Nat)
    (origin : Path) (i : Nat) : Expand Ty :=
  key index options (below index options room) ⟨origin, i⟩

/-- The state after the expansion of a key that was not in the cache. -/
def finish (options : ExpansionOptions) (k : TemplateKey) (u : Ty)
    (s : PassState) : PassState :=
  if options.memoize then s.pop.remember k u else s.pop

@[simp] theorem finish_active :
    (finish options k u s).active = s.active.tail := by
  unfold finish
  split <;> rfl

@[simp] theorem finish_resolved :
    (finish options k u s).resolved = s.resolved := by
  unfold finish
  split <;> rfl

@[simp] theorem finish_hits : (finish options k u s).hits = s.hits := by
  unfold finish
  split <;> rfl

theorem finish_cache :
    (finish options k u s).cache =
      if options.memoize then (k, u) :: s.cache else s.cache := by
  unfold finish
  split <;> rfl

theorem lookup_finish {k' : TemplateKey} {u' : Ty}
    (h : (finish options k u s).cache.lookup k' = some u') :
    k' = k ∧ u' = u ∨ s.cache.lookup k' = some u' := by
  rw [finish_cache] at h
  split at h
  · rw [List.lookup_cons] at h
    split at h
    · rename_i heq
      cases h
      exact .inl ⟨beq_iff_eq.1 heq, rfl⟩
    · exact .inr h
  · exact .inr h

theorem bracket_apply {descend : Ty → Expand Ty} :
    bracket options descend k t s =
      match descend t (s.push k) with
      | (.ok u, s₁) => (.ok u, finish options k u s₁)
      | (.error fault, s₁) => (.error fault, s₁.pop) := by
  simp only [bracket, Run.bind_apply, Run.update, Run.attempt, finish]
  rcases descend t (s.push k) with ⟨_ | u, s₁⟩
  · rfl
  · cases options.memoize <;> rfl

theorem bracket_ok_iff {descend : Ty → Expand Ty} :
    bracket options descend k t s = (.ok u, s') ↔
      ∃ s₁, descend t (s.push k) = (.ok u, s₁) ∧ s' = finish options k u s₁ := by
  rw [bracket_apply]
  rcases descend t (s.push k) with ⟨_ | v, s₁⟩
  · simp
  · grind

theorem freshKey_apply {descend? : Option (Ty → Expand Ty)} :
    freshKey index options descend? k s =
      if k ∈ s.active then (.error (.error (.cycle k)), s)
      else
        match descend? with
        | none => (.error (.error (.tooDeep k options.maxDepth)), s)
        | some descend =>
            match index.unfold k with
            | .error fault => (.error fault, s)
            | .ok t => bracket options descend k t s := by
  simp only [freshKey, Run.bind_apply, Run.state]
  split
  · rfl
  · cases descend? with
    | none => rfl
    | some descend =>
        simp only [Run.bind_apply, Run.ofExcept]
        cases index.unfold k <;> rfl

theorem key_apply {descend? : Option (Ty → Expand Ty)} :
    key index options descend? k s =
      match s.cache.lookup k with
      | some u => (.ok u, s.countResolved.countHit)
      | none => freshKey index options descend? k s.countResolved := by
  simp only [key, Run.bind_apply, Run.update, Run.state]
  have hcache : s.countResolved.cache = s.cache := rfl
  rw [hcache]
  cases s.cache.lookup k <;> rfl

theorem visit_visitor (descend? : Option (Ty → Expand Ty)) (t : Ty) :
    t.visit (visitor index options descend?) =
      t.visit (.replacing fun origin i =>
        key index options descend? ⟨origin, i⟩) :=
  Ty.visit_skipping _ _ t

theorem typeWithin_eq_replacing (room : Nat) (t : Ty) :
    typeWithin index options room t =
      t.visit (.replacing (answer index options room)) := by
  cases room <;> exact visit_visitor _ t

theorem answer_ok_iff {origin : Path} {i : Nat} :
    answer index options room origin i s = (.ok u, s') ↔
      (s.cache.lookup ⟨origin, i⟩ = some u ∧ s' = s.countResolved.countHit) ∨
      (s.cache.lookup ⟨origin, i⟩ = none ∧ ⟨origin, i⟩ ∉ s.active ∧
        ∃ less t s₁, room = less + 1 ∧ index.unfold ⟨origin, i⟩ = .ok t ∧
        typeWithin index options less t
          (s.countResolved.push ⟨origin, i⟩) = (.ok u, s₁) ∧
        s' = finish options ⟨origin, i⟩ u s₁) := by
  have hactive : s.countResolved.active = s.active := rfl
  rw [answer, key_apply, freshKey_apply, hactive]
  cases s.cache.lookup ⟨origin, i⟩ with
  | some v => simp [eq_comm]
  | none =>
      by_cases hk : ⟨origin, i⟩ ∈ s.active
      · simp [hk]
      · cases room with
        | zero => simp [hk, below]
        | succ less =>
            cases index.unfold ⟨origin, i⟩ with
            | error fault => simp [hk, below]
            | ok t => simp [hk, below, bracket_ok_iff]

/-- Why there is no answer at a placeholder whose key is not in the cache. -/
inductive NoAnswer (index : Index) (options : ExpansionOptions) (room : Nat)
    (k : TemplateKey) (s : PassState) : Fault ExpansionError → Prop
  | cycle : k ∈ s.active → NoAnswer index options room k s (.error (.cycle k))
  | tooDeep : k ∉ s.active → room = 0 →
      NoAnswer index options room k s (.error (.tooDeep k options.maxDepth))
  | unfold {fault : Fault ExpansionError} : index.unfold k = .error fault →
      NoAnswer index options room k s fault
  | below {fault : Fault ExpansionError} {less : Nat} {t : Ty} {s₁ : PassState} :
      k ∉ s.active → room = less + 1 → index.unfold k = .ok t →
      typeWithin index options less t (s.countResolved.push k) = (.error fault, s₁) →
      NoAnswer index options room k s fault

theorem noAnswer {origin : Path} {i : Nat} {fault : Fault ExpansionError}
    (h : answer index options room origin i s = (.error fault, s')) :
    NoAnswer index options room ⟨origin, i⟩ s fault := by
  have hactive : s.countResolved.active = s.active := rfl
  rw [answer, key_apply, freshKey_apply, hactive] at h
  cases hcache : s.cache.lookup ⟨origin, i⟩ with
  | some v => simp [hcache] at h
  | none =>
      simp only [hcache] at h
      by_cases hk : ⟨origin, i⟩ ∈ s.active
      · simp only [hk, if_true, Prod.mk.injEq, Except.error.injEq] at h
        exact h.1 ▸ .cycle hk
      · simp only [hk, if_false] at h
        cases room with
        | zero =>
            cases h
            exact .tooDeep hk rfl
        | succ less =>
            simp only [below] at h
            cases hunfold : index.unfold ⟨origin, i⟩ with
            | error fault' =>
                simp only [hunfold] at h
                cases h
                exact .unfold hunfold
            | ok t =>
                simp only [hunfold, bracket_apply] at h
                rcases ht : typeWithin index options less t
                  (s.countResolved.push ⟨origin, i⟩) with ⟨fault' | v, s₁⟩
                · simp only [ht] at h
                  cases h
                  exact .below hk rfl hunfold ht
                · simp only [ht] at h
                  cases h

/-! ### With a cache and without -/

/-- What the cache has for a key is what the key expands to. -/
def Faithful (index : Index) (s : PassState) : Prop :=
  ∀ k u, s.cache.lookup k = some u → Unfolding.Gives index k u

theorem Faithful.finish (h : Faithful index s) (options : ExpansionOptions)
    (hk : Unfolding.Gives index k u) : Faithful index (finish options k u s) := by
  intro k' u' hk'
  rcases lookup_finish hk' with ⟨rfl, rfl⟩ | hk'
  · exact hk
  · exact h k' u' hk'

/-- What does not change between two placeholders of a pass: the active keys, a bound
from below for the count, and the state of the cache. -/
structure Steady (index : Index) (options : ExpansionOptions)
    (active : List TemplateKey) (least : Nat) (s : PassState) : Prop where
  active : s.active = active
  least : least ≤ s.resolved
  cache : Faithful index s
  plain : options.memoize = false → s.cache = [] ∧ s.hits = 0

namespace Steady

variable {active : List TemplateKey} {least : Nat}

theorem hit (h : Steady index options active least s)
    (hk : s.cache.lookup k = some u) :
    Steady index options active least s.countResolved.countHit where
  active := h.active
  least := Nat.le_succ_of_le h.least
  cache := h.cache
  plain hplain := by simp [(h.plain hplain).1] at hk

theorem push (h : Steady index options active least s) (k : TemplateKey) :
    Steady index options (k :: active) (least + 1) (s.countResolved.push k) where
  active := h.active ▸ rfl
  least := Nat.succ_le_succ h.least
  cache := h.cache
  plain := h.plain

theorem finish (h : Steady index options (k :: active) (least + 1) s)
    (hk : Unfolding.Gives index k u) :
    Steady index options active least (finish options k u s) where
  active := by simp [h.active]
  least := by simpa using Nat.le_of_succ_le h.least
  cache := h.cache.finish options hk
  plain hplain := by simpa [finish_cache, hplain] using h.plain hplain

end Steady

/-- A type that is expanded in a pass is expanded in the same way within some bound. -/
theorem typeWithin_unfolding (room : Nat) (active : List TemplateKey) (least : Nat)
    (t : Ty) :
    (Run.following (Fault ExpansionError) (Fault ExpansionError)
      fun s (_ : Unit) => Steady index options active least s).Holds Eq
        (typeWithin index options room t)
        fun bound => t.visit (Unfolding.visitor index bound) := by
  induction room using Nat.strongRecOn generalizing active least t with
  | ind room ih =>
      simp only [typeWithin_eq_replacing]
      refine Ty.visit_replacing_related (fun origin i => ?_) t
      intro s _ hs u s' hanswer
      refine ⟨u, rfl, ?_⟩
      rcases answer_ok_iff.1 hanswer with
        ⟨hhit, rfl⟩ | ⟨-, -, less, t, s₁, rfl, hunfold, ht, rfl⟩
      · obtain ⟨bound, hkey⟩ := hs.cache _ _ hhit
        exact ⟨bound, fun _ hle _ _ =>
          ⟨(), Unfolding.key_mono hle hkey, hs.hit hhit⟩⟩
      · -- A fresh key needs one bound more than what it stands for.
        obtain ⟨_, rfl, n, hn⟩ :=
          ih less (by omega) _ _ t _ () (hs.push _) u s₁ ht
        obtain ⟨⟨⟩, ht', hs₁⟩ := hn n (Nat.le_refl n) () (hs.push _)
        have hkey : Unfolding.key index (n + 1) origin i () = (.ok u, ()) :=
          Unfolding.key_succ_iff.2 ⟨t, hunfold, ht'⟩
        have hgives : Unfolding.Gives index ⟨origin, i⟩ u := ⟨n + 1, hkey⟩
        exact ⟨n + 1, fun _ hle _ _ => ⟨(), Unfolding.key_mono hle hkey,
          hs₁.finish hgives⟩⟩

theorem typeWithin_ok {active : List TemplateKey} {least : Nat}
    (hs : Steady index options active least s)
    (h : typeWithin index options room t s = (.ok u, s')) :
    (∃ bound, t.visit (Unfolding.visitor index bound) () = (.ok u, ())) ∧
      Steady index options active least s' := by
  obtain ⟨_, rfl, n, hn⟩ :=
    typeWithin_unfolding room active least t s () hs u s' h
  obtain ⟨⟨⟩, ht, hs'⟩ := hn n (Nat.le_refl n) () hs
  exact ⟨⟨n, ht⟩, hs'⟩

/-- What is expanded within some bound is expanded without a cache where there is as
much room. No active key can get in the way: expanding it takes more than the bound
allows, while a smallest bound for a key is larger than the one for what the key
stands for. -/
theorem typeWithin_of_unfolding (hplain : options.memoize = false) {bound : Nat}
    (hroom : bound ≤ room) (active : List TemplateKey)
    (hactive : ∀ k ∈ active, ∀ u,
      Unfolding.key index bound k.origin k.index () ≠ (.ok u, ())) (t : Ty) :
    (Run.following (Fault ExpansionError) (Fault ExpansionError)
      fun (_ : Unit) s => s.active = active ∧ s.cache = []).Holds Eq
        (t.visit (Unfolding.visitor index bound))
        fun _ => typeWithin index options room t := by
  induction bound using Nat.strongRecOn generalizing room active t with
  | ind bound ih =>
      simp only [typeWithin_eq_replacing]
      refine Ty.visit_replacing_related (fun origin i => ?_) t
      rw [Run.following_const_iff]
      rintro ⟨⟩ s ⟨hs, hcache⟩ u ⟨⟩ hkey
      obtain ⟨bound, rfl⟩ : ∃ m, bound = m + 1 := by
        cases bound with
        | zero => cases hkey
        | succ m => exact ⟨m, rfl⟩
      obtain ⟨less, rfl⟩ : ∃ m, room = m + 1 := ⟨room - 1, by omega⟩
      obtain ⟨t, m, hunfold, hle, hm, hlarger⟩ := Unfolding.exists_bound_of_key hkey
      have hroom' : m ≤ less := by omega
      have hkey' : ∀ k ∈ ⟨origin, i⟩ :: active, ∀ v,
          Unfolding.key index m k.origin k.index () ≠ (.ok v, ()) := by
        intro k hk v hv
        rcases List.mem_cons.1 hk with rfl | hk
        · exact hlarger v hv
        · exact hactive k hk v (Unfolding.key_mono (by omega) hv)
      have hfollow := Run.following_const_iff.1
        (ih m (by omega) hroom' _ hkey' t)
      have hpush : (s.countResolved.push ⟨origin, i⟩).active = ⟨origin, i⟩ :: active ∧
          (s.countResolved.push ⟨origin, i⟩).cache = [] :=
        ⟨congrArg _ hs, hcache⟩
      obtain ⟨s₁, hs₁, hactive₁, hcache₁⟩ := hfollow () _ hpush u () hm
      refine ⟨finish options ⟨origin, i⟩ u s₁, answer_ok_iff.2 (.inr ⟨?_, ?_, less, t,
        s₁, rfl, hunfold, hs₁, rfl⟩), ?_⟩
      · simp [hcache]
      · -- An active key does not expand within the bound, and this one does.
        intro hmem
        exact hactive _ (hs ▸ hmem) u hkey
      · simp [finish, hplain, PassState.pop, hactive₁, hcache₁]

/-- A pass that may use a cache, in the second state, has come as far as a pass
without one, in the first state. -/
structure Ahead (index : Index) (s s' : PassState) : Prop where
  active : s'.active = s.active
  resolved : s'.resolved ≤ s.resolved
  cache : Faithful index s'
  plain : s.cache = [] ∧ s.hits = 0

namespace Ahead

theorem steady (h : Ahead index s s') (options : ExpansionOptions) :
    Steady index options s.active s.resolved s :=
  ⟨rfl, Nat.le_refl _, fun k u hk => by simp [h.plain.1] at hk, fun _ => h.plain⟩

theorem push (h : Ahead index s s') (k : TemplateKey) :
    Ahead index (s.countResolved.push k) (s'.countResolved.push k) :=
  ⟨congrArg (k :: ·) h.active, Nat.succ_le_succ h.resolved, h.cache, h.plain⟩

theorem finish (h : Ahead index s s') (hplain : options.memoize = false)
    (options' : ExpansionOptions) (hk : Unfolding.Gives index k u) :
    Ahead index (finish options k u s) (finish options' k u s') where
  active := by simp [h.active]
  resolved := by simpa using h.resolved
  cache := h.cache.finish options' hk
  plain := by simpa [finish_cache, hplain] using h.plain

theorem hit (h : Ahead index s s') (hplain : options.memoize = false)
    {s₁ : PassState}
    (hs₁ : Steady index options (k :: s.active) (s.resolved + 1) s₁) :
    Ahead index (Expand.finish options k u s₁) s'.countResolved.countHit where
  active := by simp [hs₁.active, PassState.countResolved, PassState.countHit, h.active]
  resolved := by
    rw [finish_resolved]
    exact Nat.le_trans (Nat.succ_le_succ h.resolved) hs₁.least
  cache := h.cache
  plain := by simpa [finish_cache, hplain] using hs₁.plain hplain

end Ahead

/-- What is expanded without a cache is expanded in the same way with one, and with no
more lookups. -/
theorem typeWithin_memoized (hplain : options.memoize = false)
    (options' : ExpansionOptions) (room : Nat) (t : Ty) :
    (Run.following (Fault ExpansionError) (Fault ExpansionError)
      (Ahead index)).Holds Eq (typeWithin index options room t)
        fun _ => typeWithin index options' room t := by
  induction room using Nat.strongRecOn generalizing t with
  | ind room ih =>
      simp only [typeWithin_eq_replacing]
      refine Ty.visit_replacing_related (fun origin i => ?_) t
      rw [Run.following_const_iff]
      intro s s' hs u s₁ hanswer
      rcases answer_ok_iff.1 hanswer with
        ⟨hhit, -⟩ | ⟨-, hactive, less, t, s₂, rfl, hunfold, ht, rfl⟩
      · simp [hs.plain.1] at hhit
      obtain ⟨⟨bound, hbound⟩, hs₂⟩ :=
        typeWithin_ok ((hs.steady options).push ⟨origin, i⟩) ht
      have hgives : Unfolding.Gives index ⟨origin, i⟩ u :=
        ⟨bound + 1, Unfolding.key_succ_iff.2 ⟨t, hunfold, hbound⟩⟩
      cases hcache : s'.cache.lookup ⟨origin, i⟩ with
      | some v =>
          -- The cache saves the lookups below the key.
          cases (hs.cache _ v hcache).unique hgives
          exact ⟨_, answer_ok_iff.2 (.inl ⟨hcache, rfl⟩), hs.hit hplain hs₂⟩
      | none =>
          obtain ⟨s₃, ht', hs₃⟩ := Run.following_const_iff.1
            (ih less (by omega) t) _ _ (hs.push _) u s₂ ht
          exact ⟨_, answer_ok_iff.2 (.inr ⟨hcache, hs.active ▸ hactive, less, t, s₃,
            rfl, hunfold, ht', rfl⟩), hs₃.finish hplain options' hgives⟩

end Expand

end Unerase
