import Unerase.Expansion.Pass
import Unerase.Proofs.Expansion.Lookup
import Unerase.Proofs.Relation.Places
import Unerase.Proofs.Walk.Acyclic

namespace Unerase

variable {ε σ ε' σ' ι : Type}

/-- The visitor is concerned with types only. -/
structure Visitor.ForTypes (v : Visitor ε σ) : Prop where
  entersAll : v.EntersAll
  body : ∀ b, v.body b = pure b
  patience : v.patience = Visitor.idle.patience

namespace Scope

theorem bodies_visit (v : Visitor ε σ) (t : Ty) :
    t.visit (bodies.restrict v) = pure t := by
  rw [Ty.visit_eq_reach]
  rfl

theorem restrict_entersAll {v : Visitor ε σ} (hv : v.EntersAll) :
    ∀ scope : Scope, (scope.restrict v).EntersAll
  | bodies => fun _ => rfl
  | signatures => hv

section Same

variable {L : Run.Comparison (Fault ε) σ (Fault ε') σ' ι} {v : Visitor ε σ}
  {w : ι → Visitor ε' σ'}
  (types : ∀ t : Ty, L.Holds Eq (t.visit v) fun i => t.visit (w i))

include types

theorem type_same (scope : Scope) (t : Ty) :
    L.Holds Eq (t.visit (scope.restrict v)) fun i => t.visit (scope.restrict (w i)) := by
  cases scope with
  | bodies =>
      simp only [bodies_visit]
      exact L.pure rfl
  | signatures => exact types t

theorem body_same (hL : L.KeepsFaults) (hv : v.ForTypes) (hw : ∀ i, (w i).ForTypes)
    (scope : Scope) (b : Body) :
    L.Holds Eq ((scope.restrict v).body b) fun i => (scope.restrict (w i)).body b := by
  cases scope with
  | bodies =>
      exact Body.visit_same hL hv.entersAll (fun i => (hw i).entersAll) types
        (fun i => (hw i).patience.trans hv.patience.symm) b
  | signatures =>
      simp only [restrict, hv.body, (hw _).body]
      exact L.pure rfl

end Same

/-- Walks over a part of a crate compare if they do so for every type. -/
theorem visit_same {L : Run.Comparison (Fault ε) σ (Fault ε') σ' ι}
    (hL : L.KeepsFaults) {v : Visitor ε σ} {w : ι → Visitor ε' σ'}
    (hv : v.ForTypes) (hw : ∀ i, (w i).ForTypes)
    (types : ∀ t : Ty, L.Holds Eq (t.visit v) fun i => t.visit (w i))
    (scope : Scope) (c : Crate) :
    L.Holds Eq (c.visit (scope.restrict v))
      fun i => c.visit (scope.restrict (w i)) := by
  have hc : c.Rel Eq Eq c := by rw [Crate.rel_eq]
  have hvisit := Crate.visit_related (L := L) (R := Eq) (B := Eq)
    (restrict_entersAll hv.entersAll scope)
    (fun i => restrict_entersAll (hw i).entersAll scope) ?types ?bodies hc
  · rwa [Crate.rel_eq] at hvisit
  case types =>
    rintro t _ rfl
    exact type_same types scope t
  case bodies =>
    rintro b _ rfl
    exact body_same types hL hv hw scope b

theorem bodies_related {L : Run.Comparison (Fault ε) σ (Fault ε') σ' ι} {v : Visitor ε σ}
    {w : ι → Visitor ε' σ'} {R : Ty → Ty → Prop} {B₀ B : Body → Body → Prop}
    (bodies : ∀ b d, B₀ b d → L.Holds B (b.visit v) fun i => d.visit (w i))
    {c d : Crate} (h : c.Rel R B₀ d) :
    L.Holds (Crate.Rel R B) (c.visit (Scope.bodies.restrict v))
      fun i => d.visit (Scope.bodies.restrict (w i)) := by
  refine Crate.visit_related (fun _ => rfl) (fun _ _ => rfl) (fun t u htu => ?_) bodies h
  simp only [bodies_visit]
  exact L.pure htu

/-- The bodies that a pass walks. -/
def bodiesOf : Scope → Crate → List Body
  | bodies, c => c.bodies
  | signatures, _ => []

@[simp] theorem bodiesOf_signatures (c : Crate) : signatures.bodiesOf c = [] := rfl

/-- The type stands in the crate where a pass comes to it. -/
def Uses : Scope → Crate → Ty → Prop
  | bodies, c, t => ∃ b ∈ c.bodies, b.Uses t
  | signatures, c, t => t ∈ c.types

/-- Walks over a part of a crate go the same way if the visits to its types do and its bodies
do not refer back to themselves. -/
theorem visit_guarded {I : σ → Prop} {P : Fault ε → Prop} {Q : Ty → Prop} {v : Visitor ε σ}
    {w : ι → Visitor ε σ} {patience : Nat} (hv : v.EntersAll) (hw : ∀ i, (w i).EntersAll)
    (hvBody : ∀ b, v.body b = pure b) (hwBody : ∀ i b, (w i).body b = pure b)
    (hpatience : ∀ i, (w i).patience = patience) (scope : Scope) {c : Crate}
    (hc : ∀ b ∈ scope.bodiesOf c, b.Acyclic)
    (types : ∀ t, scope.Uses c t ∨ Q t → t.VisitsAlike I P Q v w)
    (faults : ∀ b ∈ scope.bodiesOf c, ∀ id, b.Reachable id → b.nodes.length ≤ id →
      P (.outOfBounds b.nodes.length id)) :
    (Run.guarded ι I P).Holds Eq (c.visit (scope.restrict v))
      fun i => c.visit (scope.restrict (w i)) := by
  have hvisit := Crate.visit_related (L := Run.guarded ι I P) (R := Eq) (B := Eq)
    (restrict_entersAll hv scope) (fun i => restrict_entersAll (hw i) scope) ?types ?bodies
    (Crate.rel_of_places (c := c) (R := fun t u => t = u ∧ t ∈ c.types)
      (B := fun b d => b = d ∧ b ∈ c.bodies) (fun t ht => ⟨rfl, ht⟩) fun b hb => ⟨rfl, hb⟩)
  · rwa [Crate.rel_eq] at hvisit
  case types =>
    rintro t _ ⟨rfl, ht⟩
    cases scope with
    | bodies =>
        simp only [bodies_visit]
        exact Run.Comparison.pure _ rfl
    | signatures => exact Run.Comparison.mono (fun _ _ h => h.1) (types t (.inl ht))
  case bodies =>
    rintro b _ ⟨rfl, hb⟩
    cases scope with
    | bodies =>
        exact Body.visit_guarded hv hw hpatience (hc b hb)
          (fun t ht => types t (ht.imp_left fun ht => ⟨b, hb, ht⟩)) (faults b hb)
    | signatures =>
        simp only [restrict, hvBody, hwBody]
        exact Run.Comparison.pure _ rfl

end Scope

theorem Unfolding.visitor_forTypes (index : Index) (bound : Nat) :
    (Unfolding.visitor index bound).ForTypes :=
  ⟨fun _ => rfl, fun _ => rfl, rfl⟩

namespace Expand

variable {index : Index} {options : ExpansionOptions} {c c' : Crate} {s : PassState}

theorem passVisitor_forTypes (index : Index) (options : ExpansionOptions) :
    (passVisitor index options).ForTypes := by
  obtain ⟨memoize, maxDepth⟩ := options
  cases maxDepth <;> exact ⟨fun _ => rfl, fun _ => rfl, rfl⟩

theorem visit_passVisitor (t : Ty) :
    t.visit (passVisitor index options) =
      typeWithin index options options.maxDepth t :=
  (typeWithin_eq_visit index options options.maxDepth t).symm

theorem visit_of_hasErased {t : Ty} (h : t.hasErased = false) :
    t.visit (passVisitor index options) = pure t := by
  rw [visit_passVisitor, typeWithin_eq_replacing]
  exact (Visitor.replacing_thorough _).visit_of_hasErased t h

theorem steady_start : Steady index options [] 0 PassState.start :=
  ⟨rfl, Nat.le_refl 0, fun _ _ h => by simp [PassState.start] at h,
    fun _ => ⟨rfl, rfl⟩⟩

theorem ahead_start : Ahead index PassState.start PassState.start :=
  ⟨rfl, Nat.le_refl 0, fun _ _ h => by simp [PassState.start] at h, rfl, rfl⟩

/-- A pass that succeeds does what `Unfolding` does within some bound. -/
theorem pass_unfolding (scope : Scope)
    (h : c.visit (scope.restrict (passVisitor index options)) PassState.start =
      (.ok c', s)) :
    (∃ bound, c.visit (scope.restrict (Unfolding.visitor index bound)) () =
      (.ok c', ())) ∧ Steady index options [] 0 s := by
  have hfollow := scope.visit_same (Run.following_keepsFaults fun s (_ : Unit) =>
      Steady index options [] 0 s) (passVisitor_forTypes index options)
    (Unfolding.visitor_forTypes index)
    (fun t => by
      rw [visit_passVisitor]
      exact typeWithin_unfolding options.maxDepth [] 0 t) c
  obtain ⟨_, rfl, n, hn⟩ := hfollow PassState.start () steady_start c' s h
  obtain ⟨⟨⟩, hc, hs⟩ := hn n (Nat.le_refl n) () steady_start
  exact ⟨⟨n, hc⟩, hs⟩

theorem pass_of_unfolding (scope : Scope) (hplain : options.memoize = false) {bound : Nat}
    (hdepth : bound ≤ options.maxDepth)
    (h : c.visit (scope.restrict (Unfolding.visitor index bound)) () =
      (.ok c', ())) :
    ∃ s, c.visit (scope.restrict (passVisitor index options)) PassState.start =
      (.ok c', s) := by
  have hfollow := scope.visit_same (Run.following_keepsFaults fun (_ : Unit) s =>
      s.active = [] ∧ s.cache = [])
    (Unfolding.visitor_forTypes index bound)
    (fun _ : Nat => passVisitor_forTypes index options)
    (fun t => by
      simp only [visit_passVisitor]
      exact typeWithin_of_unfolding hplain hdepth [] (by simp) t) c
  obtain ⟨s, hs, -⟩ :=
    Run.following_const_iff.1 hfollow () PassState.start ⟨rfl, rfl⟩ c' () h
  exact ⟨s, hs⟩

theorem pass_memoized (scope : Scope) {maxDepth : Nat}
    (h : c.visit (scope.restrict (passVisitor index ⟨false, maxDepth⟩))
      PassState.start = (.ok c', s)) :
    ∃ s', c.visit (scope.restrict (passVisitor index ⟨true, maxDepth⟩))
      PassState.start = (.ok c', s') ∧ Ahead index s s' := by
  have hfollow := scope.visit_same (Run.following_keepsFaults (Ahead index))
    (passVisitor_forTypes index ⟨false, maxDepth⟩)
    (fun _ : Nat => passVisitor_forTypes index ⟨true, maxDepth⟩)
    (fun t => by
      simp only [visit_passVisitor]
      exact typeWithin_memoized rfl ⟨true, maxDepth⟩ maxDepth t) c
  exact Run.following_const_iff.1 hfollow PassState.start PassState.start ahead_start
    c' s h

end Expand

end Unerase
