import Mathlib.Data.Nat.Find
import Unerase.Proofs.Expansion.Expands
import Unerase.Proofs.Walk.Reachable
import Unerase.Proofs.Walk.Crate

namespace Unerase

namespace Unfolding

/-- Expands what a key stands for, with so many keys at most nested in each other. -/
def key (index : Index) :
    Nat → Path → Nat → Run (Fault ExpansionError) Unit Ty
  | 0, _, _ => .stop .endless
  | bound + 1, origin, i => do
      let t ← .ofExcept (index.unfold ⟨origin, i⟩)
      t.visit (.replacing (key index bound))

/-- Expands types, with so many keys at most nested in each other. -/
def visitor (index : Index) (bound : Nat) : Visitor ExpansionError Unit :=
  .replacing (key index bound)

theorem visitor_thorough (index : Index) (bound : Nat) :
    (visitor index bound).Thorough :=
  Visitor.replacing_thorough _

/-- The key expands to the type within some bound. -/
def Gives (index : Index) (k : TemplateKey) (u : Ty) : Prop :=
  ∃ bound, key index bound k.origin k.index () = (.ok u, ())

variable {index : Index} {bound bound' : Nat} {origin : Path} {i : Nat} {t u : Ty}

theorem key_succ_iff :
    key index (bound + 1) origin i () = (.ok u, ()) ↔
      ∃ t, index.unfold ⟨origin, i⟩ = .ok t ∧
        t.visit (visitor index bound) () = (.ok u, ()) := by
  rw [key, Run.bind_ok_iff]
  constructor
  · rintro ⟨t, s, hunfold, ht⟩
    exact ⟨t, congrArg Prod.fst hunfold, ht⟩
  · rintro ⟨t, hunfold, ht⟩
    exact ⟨t, (), by rw [Run.ofExcept, hunfold], ht⟩

/-- Some larger bound does what a bound does. -/
abbrev Continues (x y : Run (Fault ExpansionError) Unit Ty) : Prop :=
  (Run.following (Fault ExpansionError) (Fault ExpansionError)
    (fun _ _ : Unit => True)).Holds Eq x fun _ => y

theorem visit_continues
    (h : ∀ origin i, Continues (key index bound origin i) (key index bound' origin i))
    (t : Ty) :
    Continues (t.visit (visitor index bound)) (t.visit (visitor index bound')) :=
  Ty.visit_replacing_related h t

theorem key_continues (hle : bound ≤ bound') (origin : Path) (i : Nat) :
    Continues (key index bound origin i) (key index bound' origin i) := by
  induction bound generalizing bound' origin i with
  | zero => exact Run.following_of_not_ok fun s a s₁ h => by cases h
  | succ bound ih =>
      obtain ⟨m, rfl⟩ : ∃ m, bound' = m + 1 := ⟨bound' - 1, by omega⟩
      have hle : bound ≤ m := Nat.le_of_succ_le_succ hle
      rw [Continues, Run.following_const_iff]
      rintro ⟨⟩ ⟨⟩ - u ⟨⟩ hkey
      obtain ⟨t, hunfold, ht⟩ := key_succ_iff.1 hkey
      have hvisit := Run.following_const_iff.1 (visit_continues (ih hle) t)
      obtain ⟨⟨⟩, ht', -⟩ := hvisit () () trivial u () ht
      exact ⟨(), key_succ_iff.2 ⟨t, hunfold, ht'⟩, trivial⟩

theorem key_mono (hle : bound ≤ bound')
    (h : key index bound origin i () = (.ok u, ())) :
    key index bound' origin i () = (.ok u, ()) := by
  obtain ⟨⟨⟩, h', -⟩ :=
    Run.following_const_iff.1 (key_continues hle origin i) () () trivial u () h
  exact h'

theorem visit_mono (hle : bound ≤ bound')
    (h : t.visit (visitor index bound) () = (.ok u, ())) :
    t.visit (visitor index bound') () = (.ok u, ()) := by
  have hkey (origin : Path) (i : Nat) :
      Continues (key index bound origin i) (key index bound' origin i) :=
    key_continues hle origin i
  obtain ⟨⟨⟩, h', -⟩ :=
    Run.following_const_iff.1 (visit_continues hkey t) () () trivial u () h
  exact h'

theorem exists_bound_of_key (h : key index (bound + 1) origin i () = (.ok u, ())) :
    ∃ t m, index.unfold ⟨origin, i⟩ = .ok t ∧ m ≤ bound ∧
      t.visit (visitor index m) () = (.ok u, ()) ∧
      ∀ v, key index m origin i () ≠ (.ok v, ()) := by
  classical
  obtain ⟨t, hunfold, ht⟩ := key_succ_iff.1 h
  have hsome : ∃ m, t.visit (visitor index m) () = (.ok u, ()) := ⟨bound, ht⟩
  obtain ⟨m, hm, hleast⟩ : ∃ m, t.visit (visitor index m) () = (.ok u, ()) ∧
      ∀ n, n < m → t.visit (visitor index n) () ≠ (.ok u, ()) :=
    ⟨Nat.find hsome, Nat.find_spec hsome, fun _ => Nat.find_min hsome⟩
  have hle : m ≤ bound := Nat.le_of_not_lt fun h => hleast bound h ht
  refine ⟨t, m, hunfold, hle, hm, fun v hv => ?_⟩
  cases m with
  | zero => cases hv
  | succ n =>
      -- The key would expand what it stands for within less than the least bound.
      obtain ⟨t', hunfold', ht'⟩ := key_succ_iff.1 hv
      rw [hunfold] at hunfold'
      cases hunfold'
      have huv := visit_mono (Nat.le_succ n) ht'
      rw [hm] at huv
      cases huv
      exact hleast n (Nat.lt_succ_self n) ht'

theorem Gives.unique {k : TemplateKey} {u v : Ty} (hu : Gives index k u)
    (hv : Gives index k v) : u = v := by
  obtain ⟨m, hu⟩ := hu
  obtain ⟨n, hv⟩ := hv
  have hu := key_mono (Nat.le_max_left m n) hu
  have hv := key_mono (Nat.le_max_right m n) hv
  rw [hu] at hv
  cases hv
  rfl

/-- The result of a key is an expansion of the type that the key stands for. -/
def Sound (index : Index) (bound : Nat) : Prop :=
  ∀ origin i u, key index bound origin i () = (.ok u, ()) →
    ∃ t, index.unfold ⟨origin, i⟩ = .ok t ∧ Expands index t u

theorem Sound.visit (h : Sound index bound)
    (hvisit : t.visit (visitor index bound) () = (.ok u, ())) :
    Expands index t u := by
  have hagree := Ty.visit_related (R := Expands index)
    (L := Run.agreement (Fault Empty) Unit (Fault ExpansionError) Unit Unit)
    Visitor.idle_thorough (fun _ => visitor_thorough index bound)
    (fun _ _ => .parts) ?erased t
  case erased =>
    rintro origin i bounds horigin ⟨⟩ a ⟨⟩ hidle ⟨⟩ ⟨⟩ u ⟨⟩ hwalk
    rw [← Visitor.idle_thorough.visit, Ty.visit_idle] at hidle
    cases hidle
    obtain ⟨origin', ⟨⟩, horigin', hkey⟩ := Run.bind_ok_iff.1 hwalk
    obtain ⟨t, hunfold, ht⟩ := h origin' i u hkey
    refine .placeholder ?_ hunfold ht
    refine horigin () origin () ?_ () () origin' () horigin'
    rw [Path.visit_eq_pure Visitor.idle_thorough.entersAll
      (Ty.Hereditary.path (.of_refl Ty.visit_idle) origin)]
    rfl
  exact hagree () t () (by rw [Ty.visit_idle]; rfl) () () u () hvisit

theorem sound (index : Index) (bound : Nat) : Sound index bound := by
  induction bound with
  | zero =>
      intro origin i u h
      cases h
  | succ bound ih =>
      intro origin i u h
      obtain ⟨t, hunfold, ht⟩ := key_succ_iff.1 h
      exact ⟨t, hunfold, ih.visit ht⟩

/-- What a visit within some bound leaves is an expansion. -/
theorem visit_expands (h : t.visit (visitor index bound) () = (.ok u, ())) :
    Expands index t u :=
  (sound index bound).visit h

end Unfolding

end Unerase
