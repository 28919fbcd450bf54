import Mathlib.Algebra.Order.Group.Multiset
import Mathlib.Algebra.Group.Prod
import Mathlib.Algebra.GroupWithZero.Nat
import Mathlib.Order.Lattice.Nat
import Unerase.Proofs.Expansion.Lookup

/-!
What an expansion takes, whatever is in the cache and whatever is active. `Tracing`
expands types as `Unfolding` does and notes the keys that it meets. A pass notes other
things, depending on its options, and skips what it finds in the cache. What it notes is a
`Ledger` if it can be brought up to date at each key; then it is up to date after any
expansion (`Ledger.typeWithin_covers`).
-/

namespace Unerase

/-- What an expansion meets: the number of placeholders in the type itself, and all keys,
with those that are met while other keys are expanded. -/
abbrev Trace := Nat × Multiset TemplateKey

namespace Tracing

/-- Notes one placeholder more with its key. Of what is met while the key is expanded only
the keys are noted, since these placeholders are not in the type itself. -/
def noting (k : TemplateKey) (x : Run (Fault ExpansionError) Trace Ty) :
    Run (Fault ExpansionError) Trace Ty :=
  fun e => ((x 0).1, e + (1, k ::ₘ (x 0).2.2))

/-- Expands what a key stands for and notes the keys that this takes. -/
def key (index : Index) : Nat → Path → Nat → Run (Fault ExpansionError) Trace Ty
  | 0, _, _ => .stop .endless
  | bound + 1, origin, i => do
      let t ← .ofExcept (index.unfold ⟨origin, i⟩)
      noting ⟨origin, i⟩ (t.visit (.replacing (key index bound)))

/-- Expands types and notes the keys that this takes. -/
def visitor (index : Index) (bound : Nat) : Visitor ExpansionError Trace :=
  .replacing (key index bound)

variable {index : Index} {bound bound' : Nat} {origin : Path} {i : Nat}
  {k : TemplateKey} {t u v : Ty} {d e : Trace}

theorem noting_ok_iff {x : Run (Fault ExpansionError) Trace Ty} {before after : Trace} :
    noting k x before = (.ok u, after) ↔
      ∃ e, x 0 = (.ok u, e) ∧ after = before + (1, k ::ₘ e.2) := by
  rw [noting]
  rcases x 0 with ⟨r, e⟩
  constructor
  · intro h
    cases h
    exact ⟨e, rfl, rfl⟩
  · rintro ⟨_, h, rfl⟩
    cases h
    rfl

theorem key_succ_iff {before after : Trace} :
    key index (bound + 1) origin i before = (.ok u, after) ↔
      ∃ t e, index.unfold ⟨origin, i⟩ = .ok t ∧
        t.visit (visitor index bound) 0 = (.ok u, e) ∧
        after = before + (1, ⟨origin, i⟩ ::ₘ e.2) := by
  rw [key, Run.bind_ok_iff]
  constructor
  · rintro ⟨t, _, hunfold, ht⟩
    cases hunfold' : index.unfold ⟨origin, i⟩ with
    | error => simp [Run.ofExcept, hunfold'] at hunfold
    | ok t' =>
        rw [Run.ofExcept, hunfold'] at hunfold
        cases hunfold
        obtain ⟨e, ht, hafter⟩ := noting_ok_iff.1 ht
        exact ⟨t, e, rfl, ht, hafter⟩
  · rintro ⟨t, e, hunfold, ht, hafter⟩
    refine ⟨t, before, by rw [Run.ofExcept, hunfold], ?_⟩
    exact noting_ok_iff.2 ⟨e, ht, hafter⟩

/-- Where the first computation gives a value, the second one does the same. -/
def Continues {α : Type} (x y : Run (Fault ExpansionError) Trace α) : Prop :=
  (Run.following (Fault ExpansionError) (Fault ExpansionError) Eq).Holds Eq x fun _ => y

theorem Continues.ok {α : Type} {x y : Run (Fault ExpansionError) Trace α} {a : α}
    {before after : Trace} (h : Continues x y) (hx : x before = (.ok a, after)) :
    y before = (.ok a, after) := by
  obtain ⟨_, hy, rfl⟩ := Run.following_const_iff.1 h before before rfl a after hx
  exact hy

theorem key_continues (hle : bound ≤ bound') (origin : Path) (i : Nat) :
    Continues (key index bound origin i) (key index bound' origin i) := by
  induction bound generalizing bound' origin i with
  | zero => exact Run.following_of_not_ok fun s a s₁ h => by cases h
  | succ bound ih =>
      obtain ⟨m, rfl⟩ : ∃ m, bound' = m + 1 := ⟨bound' - 1, by omega⟩
      have hle : bound ≤ m := Nat.le_of_succ_le_succ hle
      apply Run.following_const_iff.2
      rintro before _ rfl u after hkey
      obtain ⟨t, e, hunfold, ht, hafter⟩ := key_succ_iff.1 hkey
      have hvisit : Continues (t.visit (visitor index bound)) (t.visit (visitor index m)) :=
        Ty.visit_replacing_related (ih hle) t
      exact ⟨after, key_succ_iff.2 ⟨t, e, hunfold, hvisit.ok ht, hafter⟩, rfl⟩

theorem visit_continues (hle : bound ≤ bound') (t : Ty) :
    Continues (t.visit (visitor index bound)) (t.visit (visitor index bound')) :=
  Ty.visit_replacing_related (key_continues hle) t

theorem trace_unique {α : Type} {x : Nat → Run (Fault ExpansionError) Trace α}
    (hx : ∀ m n, m ≤ n → Continues (x m) (x n)) {m n : Nat} {a b : α}
    (ha : x m 0 = (.ok a, d)) (hb : x n 0 = (.ok b, e)) : a = b ∧ d = e := by
  have ha := (hx m _ (Nat.le_max_left m n)).ok ha
  have hb := (hx n _ (Nat.le_max_right m n)).ok hb
  rw [ha] at hb
  cases hb
  exact ⟨rfl, rfl⟩

/-- The trace of what the key stands for, within some bound. -/
def KeyTraced (index : Index) (k : TemplateKey) (u : Ty) (e : Trace) : Prop :=
  ∃ t bound, index.unfold k = .ok t ∧ t.visit (visitor index bound) 0 = (.ok u, e)

theorem KeyTraced.unique (hu : KeyTraced index k u d) (hv : KeyTraced index k v e) :
    u = v ∧ d = e := by
  obtain ⟨t, m, hunfold, hu⟩ := hu
  obtain ⟨t', n, hunfold', hv⟩ := hv
  rw [hunfold] at hunfold'
  cases hunfold'
  exact trace_unique (x := fun bound => t.visit (visitor index bound))
    (fun m n hle => visit_continues hle t) hu hv

theorem KeyTraced.key_ok (h : KeyTraced index ⟨origin, i⟩ u e) :
    ∃ n, ∀ bound, n ≤ bound → ∀ before, key index bound origin i before =
      (.ok u, before + (1, ⟨origin, i⟩ ::ₘ e.2)) := by
  obtain ⟨t, n, hunfold, ht⟩ := h
  refine ⟨n + 1, fun bound hle before => ?_⟩
  have hkey : key index (n + 1) origin i before =
      (.ok u, before + (1, ⟨origin, i⟩ ::ₘ e.2)) :=
    key_succ_iff.2 ⟨t, e, hunfold, ht, rfl⟩
  exact (key_continues hle origin i).ok hkey

/-- The number of placeholders in the type that the key stands for. -/
noncomputable def cost (index : Index) (k : TemplateKey) : Nat :=
  sInf {n | ∃ u e, KeyTraced index k u e ∧ e.1 = n}

theorem KeyTraced.cost_eq (h : KeyTraced index k u e) : cost index k = e.1 := by
  have hset : {n | ∃ u e, KeyTraced index k u e ∧ e.1 = n} = {e.1} := by
    ext n
    constructor
    · rintro ⟨v, d, hd, rfl⟩
      rw [(hd.unique h).2]
      rfl
    · rintro rfl
      exact ⟨u, e, h, rfl⟩
  rw [cost, hset, csInf_singleton]

end Tracing

open Tracing

/-- A way to tell from the states before and after an expansion what was met. States are
compared with traces, and this is kept when a key is found in the cache and when it is
expanded. -/
structure Ledger (index : Index) (options : ExpansionOptions) where
  Valid : PassState → Prop
  Covers : PassState → PassState → Trace → Prop
  refl (s : PassState) : Covers s s 0
  trans {s s₁ s₂ : PassState} {d e : Trace} :
    Covers s s₁ d → Covers s₁ s₂ e → Covers s s₂ (d + e)
  hit {s : PassState} {k : TemplateKey} {u : Ty} : Valid s →
    s.cache.lookup k = some u → ∃ e, KeyTraced index k u e ∧
      Valid s.countResolved.countHit ∧
      Covers s s.countResolved.countHit (1, k ::ₘ e.2)
  push {s : PassState} {k : TemplateKey} : Valid s → s.cache.lookup k = none →
    k ∉ s.active → Valid (s.countResolved.push k)
  finish {s s₁ : PassState} {k : TemplateKey} {u : Ty} {e : Trace} :
    Valid s₁ → Covers (s.countResolved.push k) s₁ e → KeyTraced index k u e →
    Valid (Expand.finish options k u s₁) ∧
      Covers s (Expand.finish options k u s₁) (1, k ::ₘ e.2)

namespace Ledger

variable {index : Index} {options : ExpansionOptions} (A : Ledger index options)

/-- What holds in a state if the given trace was met since the start. -/
def Since (start : PassState) (s : PassState) (e : Trace) : Prop :=
  A.Valid s ∧ A.Covers start s e

theorem since_start {start : PassState} (h : A.Valid start) : A.Since start start 0 :=
  ⟨h, A.refl start⟩

/-- The ledger is kept by the expansion of any type. -/
theorem typeWithin_covers (room : Nat) (start : PassState) (t : Ty) :
    (Run.following (Fault ExpansionError) (Fault ExpansionError) (A.Since start)).Holds
      Eq (Expand.typeWithin index options room t)
        fun bound => t.visit (Tracing.visitor index bound) := by
  induction room using Nat.strongRecOn generalizing start t with
  | ind room ih =>
      simp only [Expand.typeWithin_eq_replacing]
      refine Ty.visit_replacing_related (fun origin i => ?_) t
      intro s _ hs u s' hanswer
      refine ⟨u, rfl, ?_⟩
      obtain ⟨e, htraced, hvalid, hcovers⟩ : ∃ e, KeyTraced index ⟨origin, i⟩ u e ∧
          A.Valid s' ∧ A.Covers s s' (1, ⟨origin, i⟩ ::ₘ e.2) := by
        rcases Expand.answer_ok_iff.1 hanswer with
          ⟨hhit, rfl⟩ | ⟨hnone, hactive, less, t, s₁, rfl, hunfold, ht, rfl⟩
        · exact A.hit hs.1 hhit
        · -- The trace of the key starts anew after the key has become active.
          have hpush := A.since_start (A.push hs.1 hnone hactive)
          obtain ⟨_, rfl, n, hn⟩ := ih less (by omega) _ t _ 0 hpush u s₁ ht
          obtain ⟨e, ht', hvalid, hcovers⟩ := hn n (Nat.le_refl n) 0 hpush
          have htraced : KeyTraced index ⟨origin, i⟩ u e := ⟨t, n, hunfold, ht'⟩
          exact ⟨e, htraced, A.finish hvalid hcovers htraced⟩
      obtain ⟨n, hn⟩ := htraced.key_ok
      refine ⟨n, fun bound hle d hd => ⟨_, hn bound hle d, hvalid, ?_⟩⟩
      exact A.trans hd.2 hcovers

end Ledger

end Unerase
