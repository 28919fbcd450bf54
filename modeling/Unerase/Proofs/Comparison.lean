import Mathlib.Data.List.Forall2
import Unerase.Run

/-!
Comparisons of computations. A comparison relates a computation to a family of
computations, given a relation between their values, and goes through sequences of
computations step by step. A walk that is written once for all visitors compares
with itself under two visitors as soon as their answers do, whichever comparison is
meant.

In `lockstep` both sides end alike and leave the same state; in `lockstepUnless` they do
so unless the first one stops with a certain fault. In `guarded` they do so from states
with an invariant, and it is known of every fault why it occurs. In `agreement` the values
are related whenever both sides give one, and in `concord` both sides also leave the same
state then. In `following` every member of the family from some point on gives a value if
the single computation does. In `uncounted` the second side gives a value if the first one
does so without counting anything. In `viewing` both sides end alike, and the state of the
first one is in view in the state of the second.
-/

namespace Unerase

namespace Run

variable {ε σ ε' σ' ι α β γ δ : Type}

theorem bind_ok_iff {x : Run ε σ α} {f : α → Run ε σ β} {s s₂ : σ} {b : β} :
    (x >>= f) s = (.ok b, s₂) ↔
      ∃ a s₁, x s = (.ok a, s₁) ∧ f a s₁ = (.ok b, s₂) := by
  rw [bind_apply]
  rcases x s with ⟨_ | a, s₁⟩ <;> simp

theorem bind_congr_ok {x : Run ε σ α} {f g : α → Run ε σ β}
    (h : ∀ s a s', x s = (.ok a, s') → f a = g a) : x >>= f = x >>= g := by
  funext s
  rw [bind_apply, bind_apply]
  rcases hx : x s with ⟨e | a, s'⟩
  · rfl
  · exact congrFun (h s a s' hx) s'

theorem exists_of_map_ok {x : Run ε σ α} {f : α → β} {b : β} {s s' : σ}
    (h : (x >>= fun a => Pure.pure (f a)) s = (.ok b, s')) : ∃ a, b = f a := by
  obtain ⟨a, _, _, hb⟩ := bind_ok_iff.1 h
  cases hb
  exact ⟨a, rfl⟩

/-- A relation between computations that respects sequencing. The first argument
relates the values. -/
structure Comparison (ε σ ε' σ' ι : Type) where
  Holds {α β : Type} : (α → β → Prop) → Run ε σ α → (ι → Run ε' σ' β) → Prop
  pure {α β : Type} {R : α → β → Prop} {a : α} {b : β} :
    R a b → Holds R (pure a) fun _ => pure b
  bind {α β γ δ : Type} {R : α → β → Prop} {S : γ → δ → Prop} {x : Run ε σ α}
      {y : ι → Run ε' σ' β} {f : α → Run ε σ γ} {g : ι → β → Run ε' σ' δ} :
    Holds R x y → (∀ a b, R a b → Holds S (f a) fun i => g i b) →
    Holds S (x >>= f) fun i => y i >>= g i

namespace Comparison

variable {L : Comparison ε σ ε' σ' ι}

theorem mono {R S : α → β → Prop} {x : Run ε σ α} {y : ι → Run ε' σ' β}
    (h : ∀ a b, R a b → S a b) (hxy : L.Holds R x y) : L.Holds S x y := by
  have hbind : L.Holds S (x >>= Pure.pure) fun i => y i >>= Pure.pure :=
    L.bind hxy fun a b hab => L.pure (h a b hab)
  simpa only [bind_pure] using hbind

theorem mapM {R : α → β → Prop} {S : γ → δ → Prop} {f : α → Run ε σ γ}
    {g : ι → β → Run ε' σ' δ} {as : List α} {bs : List β}
    (h : List.Forall₂ R as bs)
    (hfg : ∀ a b, R a b → L.Holds S (f a) fun i => g i b) :
    L.Holds (List.Forall₂ S) (as.mapM f) fun i => bs.mapM (g i) := by
  induction h with
  | nil =>
      simp only [List.mapM_nil]
      exact L.pure .nil
  | cons hab _ ih =>
      simp only [List.mapM_cons]
      refine L.bind (hfg _ _ hab) fun c d hcd => ?_
      exact L.bind ih fun cs ds hcds => L.pure (.cons hcd hcds)

theorem foldlM {R : β → δ → Prop} {f : β → α → Run ε σ β}
    {g : ι → δ → α → Run ε' σ' δ} {as : List α}
    (h : ∀ a ∈ as, ∀ b d, R b d → L.Holds R (f b a) fun i => g i d a) {b : β} {d : δ}
    (hbd : R b d) : L.Holds R (as.foldlM f b) fun i => as.foldlM (g i) d := by
  induction as generalizing b d with
  | nil => exact L.pure hbd
  | cons a as ih =>
      refine L.bind (h a List.mem_cons_self b d hbd) fun b d hbd => ?_
      exact ih (fun a' ha' => h a' (List.mem_cons_of_mem a ha')) hbd

end Comparison

/-- The outcomes are both errors, and the same, or both values, and related. -/
inductive SameEnd (R : α → β → Prop) : Except ε α → Except ε β → Prop
  | ok {a : α} {b : β} : R a b → SameEnd R (.ok a) (.ok b)
  | error (e : ε) : SameEnd R (.error e) (.error e)

/-- Both sides end alike and leave the same state. -/
def lockstep (ε σ ι : Type) : Comparison ε σ ε σ ι where
  Holds R x y := ∀ i s, SameEnd R (x s).1 (y i s).1 ∧ (x s).2 = (y i s).2
  pure h := fun _ _ => ⟨.ok h, rfl⟩
  bind := by
    intro _ _ _ _ R S x y f g hxy hfg i s
    have h := hxy i s
    simp only [bind_apply]
    generalize x s = outcome at h ⊢
    generalize y i s = outcome' at h ⊢
    obtain ⟨r, s₁⟩ := outcome
    obtain ⟨r', s₁'⟩ := outcome'
    obtain ⟨hr, rfl⟩ := h
    cases hr with
    | ok hab => exact hfg _ _ hab i s₁
    | error e => exact ⟨.error e, rfl⟩

theorem sameEnd_eq_iff {r r' : Except ε α} : SameEnd Eq r r' ↔ r = r' := by
  constructor
  · intro h
    cases h with
    | ok hab => rw [hab]
    | error e => rfl
  · rintro rfl
    cases r with
    | ok a => exact .ok rfl
    | error e => exact .error e

theorem lockstep_eq_iff {x y : Run ε σ α} :
    ((lockstep ε σ Unit).Holds Eq x fun _ => y) ↔ x = y := by
  simp only [lockstep, sameEnd_eq_iff, forall_const, ← Prod.ext_iff]
  exact ⟨funext, congrFun⟩

/-- Both sides end alike and leave the same state, unless the first one stops with a fault
in `P`. -/
def lockstepUnless (σ ι : Type) (P : ε → Prop) : Comparison ε σ ε σ ι where
  Holds R x y := ∀ i s, (∃ e s₁, x s = (.error e, s₁) ∧ P e) ∨
    SameEnd R (x s).1 (y i s).1 ∧ (x s).2 = (y i s).2
  pure h := fun _ _ => .inr ⟨.ok h, rfl⟩
  bind := by
    intro _ _ _ _ R S x y f g hxy hfg i s
    have h := hxy i s
    simp only [bind_apply]
    generalize x s = outcome at h ⊢
    generalize y i s = outcome' at h ⊢
    obtain ⟨r, s₁⟩ := outcome
    obtain ⟨r', s₁'⟩ := outcome'
    rcases h with ⟨e, _, ⟨⟩, he⟩ | ⟨hr, rfl⟩
    · exact .inl ⟨e, s₁, rfl, he⟩
    · cases hr with
      | ok hab => exact hfg _ _ hab i s₁
      | error e => exact .inr ⟨.error e, rfl⟩

theorem lockstepUnless_iff {P : ε → Prop} {x y : Run ε σ α} :
    ((lockstepUnless σ Unit P).Holds Eq x fun _ => y) ↔
      ∀ s, (∃ e s₁, x s = (.error e, s₁) ∧ P e) ∨ x s = y s := by
  simp only [lockstepUnless, sameEnd_eq_iff, forall_const, Prod.ext_iff]

/-- The outcomes are the same error, or related values, and the states are the same. A
state that comes with a value is in `I`, and an error is in `P`. -/
inductive GuardedEnd (I : σ → Prop) (P : ε → Prop) (R : α → β → Prop) :
    Except ε α × σ → Except ε β × σ → Prop
  | ok {a : α} {b : β} {s : σ} : R a b → I s → GuardedEnd I P R (.ok a, s) (.ok b, s)
  | error {e : ε} {s : σ} : P e → GuardedEnd I P R (.error e, s) (.error e, s)

theorem GuardedEnd.eq {I : σ → Prop} {P : ε → Prop} {out out' : Except ε α × σ}
    (h : GuardedEnd I P Eq out out') : out = out' := by
  cases h with
  | ok hab => rw [hab]
  | error => rfl

theorem GuardedEnd.weaken {I : σ → Prop} {P P' : ε → Prop} {R : α → β → Prop}
    {out : Except ε α × σ} {out' : Except ε β × σ} (hP : ∀ e, P e → P' e)
    (h : GuardedEnd I P R out out') : GuardedEnd I P' R out out' := by
  cases h with
  | ok hab hs => exact .ok hab hs
  | error he => exact .error (hP _ he)

theorem GuardedEnd.of_error {I : σ → Prop} {P : ε → Prop} {R : α → β → Prop} {e : ε} {s : σ}
    {out : Except ε β × σ} (h : GuardedEnd I P R (.error e, s) out) : P e := by
  cases h with
  | error he => exact he

/-- From states in `I` both sides end alike and leave the same state, which is in `I` again
if they give a value. They only stop with an error in `P`. -/
def guarded (ι : Type) (I : σ → Prop) (P : ε → Prop) : Comparison ε σ ε σ ι where
  Holds R x y := ∀ i s, I s → GuardedEnd I P R (x s) (y i s)
  pure h := fun _ _ hs => .ok h hs
  bind := by
    intro _ _ _ _ R S x y f g hxy hfg i s hs
    have h := hxy i s hs
    simp only [bind_apply]
    generalize x s = outcome at h ⊢
    generalize y i s = outcome' at h ⊢
    cases h with
    | ok hab hs₁ => exact hfg _ _ hab i _ hs₁
    | error he => exact .error he

theorem guarded_weaken {I : σ → Prop} {P P' : ε → Prop} {R : α → β → Prop} {x : Run ε σ α}
    {y : ι → Run ε σ β} (hP : ∀ e, P e → P' e) (h : (guarded ι I P).Holds R x y) :
    (guarded ι I P').Holds R x y :=
  fun i s hs => (h i s hs).weaken hP

/-- From states in `I` the computation leaves a state in `I` again if it gives a value, and
it stops with errors in `P` only. -/
def Guards (I : σ → Prop) (P : ε → Prop) (x : Run ε σ α) : Prop :=
  ∀ s, I s → (∀ a s₁, x s = (.ok a, s₁) → I s₁) ∧ ∀ e s₁, x s = (.error e, s₁) → P e

theorem guarded_self_iff {I : σ → Prop} {P : ε → Prop} {x : Run ε σ α} :
    ((guarded Unit I P).Holds Eq x fun _ => x) ↔ x.Guards I P := by
  constructor
  · intro h s hs
    have h : GuardedEnd I P Eq (x s) (x s) := h () s hs
    constructor
    · intro a s₁ hx
      rw [hx] at h
      cases h with
      | ok _ hs₁ => exact hs₁
    · intro e s₁ hx
      rw [hx] at h
      exact h.of_error
  · intro h _ s hs
    obtain ⟨hok, herror⟩ := h s hs
    show GuardedEnd I P Eq (x s) (x s)
    rcases hx : x s with ⟨e | a, s₁⟩
    · exact .error (herror e s₁ hx)
    · exact .ok rfl (hok a s₁ hx)

theorem guarded_and {I : σ → Prop} {P : ε → Prop} {R : α → β → Prop} {Q : α → Prop}
    {x : Run ε σ α} {y : ι → Run ε σ β} (hQ : ∀ s a s₁, I s → x s = (.ok a, s₁) → Q a)
    (h : (guarded ι I P).Holds R x y) :
    (guarded ι I P).Holds (fun a b => R a b ∧ Q a) x y := by
  intro i s hs
  have h := h i s hs
  have hQ := fun a s₁ => hQ s a s₁ hs
  generalize x s = outcome at h hQ ⊢
  generalize y i s = outcome' at h ⊢
  cases h with
  | ok hab hs₁ => exact .ok ⟨hab, hQ _ _ rfl⟩ hs₁
  | error he => exact .error he

/-- Values are related whenever both sides give one, from whatever states. -/
def agreement (ε σ ε' σ' ι : Type) : Comparison ε σ ε' σ' ι where
  Holds R x y := ∀ s a s₁, x s = (.ok a, s₁) →
    ∀ i u b u₁, y i u = (.ok b, u₁) → R a b
  pure := by
    intro _ _ R a b h s a' s₁ hx i u b' u₁ hy
    cases hx
    cases hy
    exact h
  bind := by
    intro _ _ _ _ R S x y f g hxy hfg s c s₂ hx i u d u₂ hy
    obtain ⟨a, s₁, hx, hf⟩ := bind_ok_iff.1 hx
    obtain ⟨b, u₁, hy, hg⟩ := bind_ok_iff.1 hy
    exact hfg a b (hxy s a s₁ hx i u b u₁ hy) s₁ c s₂ hf i u₁ d u₂ hg

/-- If both sides give a value from the same state in `I`, then the values are related and
the states are the same again, and in `I`. -/
def concord (ε ε' : Type) (I : σ → Prop) : Comparison ε σ ε' σ Unit where
  Holds R x y := ∀ s, I s → ∀ a s₁, x s = (.ok a, s₁) → ∀ b s₂, y () s = (.ok b, s₂) →
    R a b ∧ s₁ = s₂ ∧ I s₁
  pure := by
    intro _ _ R a b h s hs a' s₁ hx b' s₂ hy
    cases hx
    cases hy
    exact ⟨h, rfl, hs⟩
  bind := by
    intro _ _ _ _ R S x y f g hxy hfg s hs c s₁ hx d s₂ hy
    obtain ⟨a, t₁, hx, hf⟩ := bind_ok_iff.1 hx
    obtain ⟨b, t₂, hy, hg⟩ := bind_ok_iff.1 hy
    obtain ⟨hab, rfl, ht⟩ := hxy s hs a t₁ hx b t₂ hy
    exact hfg a b hab t₁ ht c s₁ hf d s₂ hg

theorem concord_refl (x : Run ε σ α) :
    (concord ε ε fun _ => True).Holds Eq x fun _ => x := by
  intro s _ a s₁ hx b s₂ hx'
  have hsame : (Except.ok a, s₁) = (Except.ok b, s₂) := hx.symm.trans hx'
  cases hsame
  exact ⟨rfl, rfl, trivial⟩

theorem concord_of_not_ok {I : σ → Prop} {R : α → β → Prop} {x : Run ε σ α}
    {y : Unit → Run ε' σ β} (h : ∀ s a s₁, x s ≠ (.ok a, s₁)) :
    (concord ε ε' I).Holds R x y :=
  fun s _ a s₁ hx => absurd hx (h s a s₁)

/-- If the single computation gives a value, then so does every member of the family
from some point on, and all of these give the same. States related by `Q` before are
related by `Q` afterwards. -/
def following (ε ε' : Type) (Q : σ → σ' → Prop) :
    Comparison ε σ ε' σ' Nat where
  Holds R x y := ∀ s u₀, Q s u₀ → ∀ a s₁, x s = (.ok a, s₁) →
    ∃ b, R a b ∧ ∃ n, ∀ i, n ≤ i → ∀ u, Q s u →
      ∃ u₁, y i u = (.ok b, u₁) ∧ Q s₁ u₁
  pure := by
    intro _ _ R a b h s u₀ _ a' s₁ hx
    cases hx
    exact ⟨b, h, 0, fun i _ u hu => ⟨u, rfl, hu⟩⟩
  bind := by
    intro _ _ _ _ R S x y f g hxy hfg s u₀ hu₀ c s₂ hx
    obtain ⟨a, s₁, hx, hf⟩ := bind_ok_iff.1 hx
    obtain ⟨b, hab, n, hn⟩ := hxy s u₀ hu₀ a s₁ hx
    obtain ⟨u₁, -, hu₁⟩ := hn n (Nat.le_refl n) u₀ hu₀
    obtain ⟨d, hcd, m, hm⟩ := hfg a b hab s₁ u₁ hu₁ c s₂ hf
    refine ⟨d, hcd, max n m, fun i hi u hu => ?_⟩
    obtain ⟨u₁, hy, hu₁⟩ := hn i (by omega) u hu
    obtain ⟨u₂, hg, hu₂⟩ := hm i (by omega) u₁ hu₁
    exact ⟨u₂, bind_ok_iff.2 ⟨b, u₁, hy, hg⟩, hu₂⟩

theorem following_of_not_ok {Q : σ → σ' → Prop} {R : α → β → Prop}
    {x : Run ε σ α} {y : Nat → Run ε' σ' β}
    (h : ∀ s a s₁, x s ≠ (.ok a, s₁)) : (following ε ε' Q).Holds R x y :=
  fun s _ _ a s₁ hx => absurd hx (h s a s₁)

/-- Where the first side gives a value, the count is not smaller than before. If it is the
same, then the second side gives a related value. -/
def uncounted (ε ε' : Type) (count : σ → Nat) : Comparison ε σ ε' Unit Unit where
  Holds R x y := ∀ s a s₁, x s = (.ok a, s₁) → count s ≤ count s₁ ∧
    ∃ b, R a b ∧ (count s₁ = count s → y () () = (.ok b, ()))
  pure := by
    intro _ _ R a b h s a' s₁ hx
    cases hx
    exact ⟨Nat.le_refl _, b, h, fun _ => rfl⟩
  bind := by
    intro _ _ _ _ R S x y f g hxy hfg s c s₂ hx
    obtain ⟨a, s₁, hx, hf⟩ := bind_ok_iff.1 hx
    obtain ⟨hle, b, hab, hy⟩ := hxy s a s₁ hx
    obtain ⟨hle', d, hcd, hg⟩ := hfg a b hab s₁ c s₂ hf
    refine ⟨Nat.le_trans hle hle', d, hcd, fun hsame => ?_⟩
    exact bind_ok_iff.2 ⟨b, (), hy (by omega), hg (by omega)⟩

theorem uncounted_of_lt {count : σ → Nat} {x : Run ε σ α} {y : Unit → Run ε' Unit α}
    (h : ∀ s a s₁, x s = (.ok a, s₁) → count s < count s₁) :
    (uncounted ε ε' count).Holds Eq x y := by
  intro s a s₁ hx
  have hlt := h s a s₁ hx
  exact ⟨Nat.le_of_lt hlt, a, rfl, fun hsame => absurd hsame (Nat.ne_of_gt hlt)⟩

theorem uncounted_pure {count : σ → Nat} {R : α → β → Prop} {x : Run ε σ α}
    {y : Unit → Run ε' Unit β} (h : (uncounted ε ε' count).Holds R x y) (c : γ) :
    (uncounted ε ε' count).Holds (fun _ _ => True) x fun _ => pure c := by
  intro s a s₁ hx
  exact ⟨(h s a s₁ hx).1, c, trivial, fun _ => rfl⟩

/-- The outcomes are the same error, or related values, and the first state is what `view`
shows of the second one. A second state that comes with a value is in `I`, and one that comes
with an error is in `E`. -/
inductive ViewedEnd (view : σ' → σ) (I E : σ' → Prop) (R : α → β → Prop) :
    Except ε α × σ → Except ε β × σ' → Prop
  | ok {a : α} {b : β} {u : σ'} :
      R a b → I u → ViewedEnd view I E R (.ok a, view u) (.ok b, u)
  | error {e : ε} {u : σ'} : E u → ViewedEnd view I E R (.error e, view u) (.error e, u)

theorem ViewedEnd.eq {view : σ' → σ} {I E : σ' → Prop} {out : Except ε α × σ}
    {out' : Except ε α × σ'} (h : ViewedEnd view I E Eq out out') :
    out = (out'.1, view out'.2) := by
  cases h with
  | ok hab => rw [hab]
  | error => rfl

theorem ViewedEnd.of_ok {view : σ' → σ} {I E : σ' → Prop} {R : α → β → Prop}
    {out : Except ε α × σ} {out' : Except ε β × σ'} {b : β} {u : σ'}
    (h : ViewedEnd view I E R out out') (hok : out' = (.ok b, u)) : I u := by
  cases h with
  | ok _ hu =>
      cases hok
      exact hu
  | error => cases hok

theorem ViewedEnd.right {view : σ' → σ} {I E Q : σ' → Prop} {R : α → β → Prop}
    {out : Except ε α × σ} {out' : Except ε β × σ'} (h : ViewedEnd view I E R out out')
    (hI : ∀ u, I u → Q u) (hE : ∀ u, E u → Q u) : Q out'.2 := by
  cases h with
  | ok _ hu => exact hI _ hu
  | error hu => exact hE _ hu

/-- From states in `I` both sides end alike, and the first one leaves what `view` shows of the
state that the second one leaves. That state is in `I` again after a value, and in `E` after
an error. -/
def viewing (ε ι : Type) (view : σ' → σ) (I E : σ' → Prop) : Comparison ε σ ε σ' ι where
  Holds R x y := ∀ i u, I u → ViewedEnd view I E R (x (view u)) (y i u)
  pure h := fun _ _ hu => .ok h hu
  bind := by
    intro _ _ _ _ R S x y f g hxy hfg i u hu
    have h := hxy i u hu
    simp only [bind_apply]
    generalize x (view u) = outcome at h ⊢
    generalize y i u = outcome' at h ⊢
    cases h with
    | ok hab hu₁ => exact hfg _ _ hab i _ hu₁
    | error he => exact .error he

theorem following_const_iff {Q : σ → σ' → Prop} {x : Run ε σ α}
    {y : Run ε' σ' α} :
    ((following ε ε' Q).Holds Eq x fun _ => y) ↔
      ∀ s u, Q s u → ∀ a s₁, x s = (.ok a, s₁) →
        ∃ u₁, y u = (.ok a, u₁) ∧ Q s₁ u₁ := by
  constructor
  · intro h s u hu a s₁ hx
    obtain ⟨_, rfl, n, hn⟩ := h s u hu a s₁ hx
    exact hn n (Nat.le_refl n) u hu
  · intro h s _ _ a s₁ hx
    exact ⟨a, rfl, 0, fun _ _ u hu => h s u hu a s₁ hx⟩

end Run

end Unerase
