import Unerase.Proofs.Comparison
import Unerase.Proofs.Relation.Erased
import Unerase.Visitor.Ty

namespace Unerase

variable {ε σ ε' σ' ι α : Type}

namespace Visitor

/-- The visitor walks every part that it is told of. -/
def EntersAll (v : Visitor ε σ) : Prop :=
  ∀ site, v.enter site = pure true

theorem EntersAll.within {v : Visitor ε σ} (h : v.EntersAll) (site : Site)
    (unchanged : α) (walk : Run (Fault ε) σ α) :
    v.within site unchanged walk = walk := by
  simp [Visitor.within, h site]

/-- The visitor walks every part and every type. -/
structure Thorough (v : Visitor ε σ) : Prop where
  entersAll : v.EntersAll
  type : ∀ t, v.type t = pure none

theorem Thorough.reach {v : Visitor ε σ} (h : v.Thorough) (t : Ty)
    (walk : Run (Fault ε) σ Ty) : v.reach t walk = walk := by
  simp [Visitor.reach, h.type t]

/-- The visitor that changes nothing outside bodies. -/
def idle : Visitor Empty Unit := {}

theorem idle_thorough : idle.Thorough :=
  ⟨fun _ => rfl, fun _ => rfl⟩

/-- The visitor that puts the answer of `f` in the place of each placeholder, after
it has done so in the origin. -/
def replacing (f : Path → Nat → Run (Fault ε) σ Ty) : Visitor ε σ where
  placeholder index origin _ := do
    let origin ← origin
    f origin index

theorem replacing_thorough (f : Path → Nat → Run (Fault ε) σ Ty) :
    (replacing f).Thorough :=
  ⟨fun _ => rfl, fun _ => rfl⟩

/-- The visitor that does what `replacing` does, but does not go into types without
placeholders. -/
def skipping (f : Path → Nat → Run (Fault ε) σ Ty)
    (patience : Nat := idle.patience) : Visitor ε σ where
  type t := pure (if t.hasErased then none else some t)
  placeholder index origin _ := do
    let origin ← origin
    f origin index
  patience

variable {f : Path → Nat → Run (Fault ε) σ Ty} {patience : Nat}

theorem skipping_entersAll : (skipping f patience).EntersAll :=
  fun _ => rfl

theorem skipping_reach (t : Ty) (walk : Run (Fault ε) σ Ty) :
    (skipping f patience).reach t walk = if t.hasErased then walk else pure t := by
  cases h : t.hasErased <;> simp [reach, skipping, h]

end Visitor

theorem Visitor.Thorough.visit {v : Visitor ε σ} (h : v.Thorough) (t : Ty) :
    t.visit v = t.walk v := by
  rw [Ty.visit_eq_reach, h.reach]

section Related

variable {L : Run.Comparison (Fault ε) σ (Fault ε') σ' ι} {v : Visitor ε σ}
  {w : ι → Visitor ε' σ'} {R₀ R : Ty → Ty → Prop} (hv : v.EntersAll)
  (hw : ∀ i, (w i).EntersAll)
  (types : ∀ t u, R₀ t u → L.Holds R (t.visit v) fun i => u.visit (w i))

include types

theorem Ty.visitList_related {ts us : List Ty} (h : List.Forall₂ R₀ ts us) :
    L.Holds (List.Forall₂ R) (Ty.visitList v ts)
      fun i => Ty.visitList (w i) us := by
  induction h with
  | nil =>
      simp only [Ty.visitList]
      exact L.pure .nil
  | cons h _ ih =>
      simp only [Ty.visitList]
      refine L.bind (types _ _ h) fun t u htu => ?_
      exact L.bind ih fun ts us htus => L.pure (.cons htu htus)

include hv hw

theorem Args.visit_related {a b : Args} (h : a.Rel R₀ b) :
    L.Holds (Args.Rel R) (a.visit v) fun i => b.visit (w i) := by
  obtain ⟨htypes⟩ := h
  simp only [Args.visit, hv.within, (hw _).within]
  refine L.bind (Ty.visitList_related types htypes) fun ts us htus => ?_
  exact L.pure (.intro htus)

theorem ItemRef.visit_related {r s : ItemRef} (h : r.Rel R₀ s) :
    L.Holds (ItemRef.Rel R) (r.visit v) fun i => s.visit (w i) := by
  obtain ⟨hargs⟩ := h
  simp only [ItemRef.visit, hv.within, (hw _).within]
  refine L.bind (Args.visit_related hv hw types hargs) fun a b hab => ?_
  exact L.pure (.intro hab)

theorem ItemRef.visitList_related {rs ss : List ItemRef}
    (h : List.Forall₂ (ItemRef.Rel R₀) rs ss) :
    L.Holds (List.Forall₂ (ItemRef.Rel R)) (ItemRef.visitList v rs)
      fun i => ItemRef.visitList (w i) ss := by
  induction h with
  | nil =>
      simp only [ItemRef.visitList]
      exact L.pure .nil
  | cons h _ ih =>
      simp only [ItemRef.visitList]
      refine L.bind (ItemRef.visit_related hv hw types h) fun r s hrs => ?_
      exact L.bind ih fun rs ss hrss => L.pure (.cons hrs hrss)

theorem Path.visit_related {p q : Path} (h : p.Rel R₀ q) :
    L.Holds (Path.Rel R) (p.visit v) fun i => q.visit (w i) := by
  cases h with
  | item target =>
      simp only [Path.visit, hv.within, (hw _).within]
      refine L.bind (ItemRef.visit_related hv hw types target) fun r s hrs => ?_
      exact L.pure (.item hrs)
  | inherent self args =>
      simp only [Path.visit, hv.within, (hw _).within]
      refine L.bind (types _ _ self) fun t u htu => ?_
      refine L.bind (Args.visit_related hv hw types args) fun a b hab => ?_
      exact L.pure (.inherent htu hab)
  | known self trait args =>
      simp only [Path.visit, hv.within, (hw _).within]
      refine L.bind (types _ _ self) fun t u htu => ?_
      refine L.bind (ItemRef.visit_related hv hw types trait) fun r s hrs => ?_
      refine L.bind (Args.visit_related hv hw types args) fun a b hab => ?_
      exact L.pure (.known htu hrs hab)
  | unknown self args =>
      simp only [Path.visit, hv.within, (hw _).within]
      refine L.bind (types _ _ self) fun t u htu => ?_
      refine L.bind (Args.visit_related hv hw types args) fun a b hab => ?_
      exact L.pure (.unknown htu hab)

theorem Ty.walk_related {t u : Ty} (h : Ty.Parts R₀ t u) :
    L.Holds (Ty.Parts R) (t.walk v) fun i => u.walk (w i) := by
  cases h with
  | never => exact L.pure .never
  | prim p => exact L.pure (.prim p)
  | param p => exact L.pure (.param p)
  | path p =>
      refine L.bind (Path.visit_related hv hw types p) fun p q hpq => ?_
      exact L.pure (.path hpq)
  | dyn trait markers =>
      refine L.bind (ItemRef.visit_related hv hw types trait) fun r s hrs => ?_
      refine L.bind (ItemRef.visitList_related hv hw types markers)
        fun rs ss hrss => ?_
      exact L.pure (.dyn hrs hrss)
  | array elem =>
      exact L.bind (types _ _ elem) fun t u htu => L.pure (.array htu)
  | slice elem =>
      exact L.bind (types _ _ elem) fun t u htu => L.pure (.slice htu)
  | tuple elems =>
      refine L.bind (Ty.visitList_related types elems) fun ts us htus => ?_
      exact L.pure (.tuple htus)
  | ref target =>
      exact L.bind (types _ _ target) fun t u htu => L.pure (.ref htu)
  | ptr target =>
      exact L.bind (types _ _ target) fun t u htu => L.pure (.ptr htu)
  | fn args result =>
      refine L.bind (Ty.visitList_related types args) fun ts us htus => ?_
      refine L.bind (types _ _ result) fun t u htu => ?_
      exact L.pure (.fn htus htu)

end Related

theorem Ty.visit_related {L : Run.Comparison (Fault ε) σ (Fault ε') σ' ι}
    {v : Visitor ε σ} {w : ι → Visitor ε' σ'} {R : Ty → Ty → Prop}
    (hv : v.Thorough) (hw : ∀ i, (w i).Thorough)
    (parts : ∀ t u, Ty.Parts R t u → R t u)
    (erased : ∀ origin index bounds,
      L.Holds (Path.Rel R) (origin.visit v) (fun i => origin.visit (w i)) →
      L.Holds R (Ty.walk v (.erased origin index bounds))
        fun i => Ty.walk (w i) (.erased origin index bounds)) (t : Ty) :
    L.Holds R (t.visit v) fun i => t.visit (w i) := by
  have hereditary : Ty.Hereditary fun t u =>
      L.Holds R (t.visit v) fun i => u.visit (w i) := by
    refine ⟨fun t h => ?_, fun origin index bounds h _ => ?_⟩
    · simp only [hv.visit, (hw _).visit]
      exact L.mono parts (Ty.walk_related hv.entersAll
        (fun i => (hw i).entersAll) (fun _ _ h => h) h)
    · simp only [hv.visit, (hw _).visit]
      exact erased origin index bounds
        (Path.visit_related hv.entersAll (fun i => (hw i).entersAll)
          (fun _ _ h => h) h)
  exact hereditary.ty t

/-- Walks from the same type compare if the answers at types and at placeholders do. -/
theorem Ty.visit_same {L : Run.Comparison (Fault ε) σ (Fault ε') σ' ι} {v : Visitor ε σ}
    {w : ι → Visitor ε' σ'} (hv : v.EntersAll) (hw : ∀ i, (w i).EntersAll)
    (type : ∀ t, L.Holds Eq (v.type t) fun i => (w i).type t)
    (erased : ∀ origin index bounds,
      L.Holds Eq (origin.visit v) (fun i => origin.visit (w i)) →
      L.Holds Eq (Ty.walk v (.erased origin index bounds))
        fun i => Ty.walk (w i) (.erased origin index bounds)) (t : Ty) :
    L.Holds Eq (t.visit v) fun i => t.visit (w i) := by
  have reach (t : Ty) (h : L.Holds Eq (t.walk v) fun i => t.walk (w i)) :
      L.Holds Eq (t.visit v) fun i => t.visit (w i) := by
    simp only [Ty.visit_eq_reach]
    refine L.bind (type t) ?_
    rintro answer _ rfl
    cases answer with
    | none => exact h
    | some replacement => exact L.pure rfl
  have hereditary : Ty.Hereditary fun t u =>
      L.Holds Eq (t.visit v) fun i => u.visit (w i) := by
    refine ⟨fun t h => reach t ?_, fun origin index bounds h _ => reach _ ?_⟩
    · exact L.mono (fun _ _ => Ty.Parts.eq) (Ty.walk_related hv hw (fun _ _ h => h) h)
    · have horigin := Path.visit_related hv hw (fun _ _ h => h) h
      rw [Path.rel_eq] at horigin
      exact erased origin index bounds horigin
  exact hereditary.ty t

theorem Ty.visit_replacing_related
    {L : Run.Comparison (Fault ε) σ (Fault ε') σ' ι}
    {f : Path → Nat → Run (Fault ε) σ Ty}
    {g : ι → Path → Nat → Run (Fault ε') σ' Ty}
    (h : ∀ origin index, L.Holds Eq (f origin index) fun i => g i origin index)
    (t : Ty) :
    L.Holds Eq (t.visit (.replacing f)) fun i => t.visit (.replacing (g i)) := by
  refine Ty.visit_related (Visitor.replacing_thorough f)
    (fun i => Visitor.replacing_thorough (g i)) (fun _ _ => Ty.Parts.eq)
    (fun origin index bounds ho => ?_) t
  rw [Path.rel_eq] at ho
  refine L.bind ho ?_
  rintro origin _ rfl
  exact h origin index

section Settled

variable {v : Visitor ε σ} (hv : v.EntersAll)

theorem Ty.visitList_eq_pure {ts us : List Ty}
    (h : List.Forall₂ (fun _ u => Ty.visit v u = pure u) ts us) :
    Ty.visitList v us = pure us := by
  induction h with
  | nil => rfl
  | cons h _ ih => simp [Ty.visitList, h, ih]

include hv

theorem Args.visit_eq_pure {a b : Args}
    (h : a.Rel (fun _ u => u.visit v = pure u) b) : b.visit v = pure b := by
  obtain ⟨types⟩ := h
  simp [Args.visit, hv.within, Ty.visitList_eq_pure types]

theorem ItemRef.visit_eq_pure {r s : ItemRef}
    (h : r.Rel (fun _ u => u.visit v = pure u) s) : s.visit v = pure s := by
  obtain ⟨args⟩ := h
  simp [ItemRef.visit, hv.within, Args.visit_eq_pure hv args]

theorem ItemRef.visitList_eq_pure {rs ss : List ItemRef}
    (h : List.Forall₂ (ItemRef.Rel fun _ u => u.visit v = pure u) rs ss) :
    ItemRef.visitList v ss = pure ss := by
  induction h with
  | nil => rfl
  | cons h _ ih =>
      simp [ItemRef.visitList, ItemRef.visit_eq_pure hv h, ih]

theorem Path.visit_eq_pure {p q : Path}
    (h : p.Rel (fun _ u => u.visit v = pure u) q) : q.visit v = pure q := by
  cases h with
  | item target =>
      simp [Path.visit, hv.within, ItemRef.visit_eq_pure hv target]
  | inherent self args =>
      simp [Path.visit, hv.within, self, Args.visit_eq_pure hv args]
  | known self trait args =>
      simp [Path.visit, hv.within, self, ItemRef.visit_eq_pure hv trait,
        Args.visit_eq_pure hv args]
  | unknown self args =>
      simp [Path.visit, hv.within, self, Args.visit_eq_pure hv args]

theorem Ty.walk_eq_pure {t u : Ty}
    (h : Ty.Parts (fun _ u => u.visit v = pure u) t u) : u.walk v = pure u := by
  cases h with
  | never => rfl
  | prim => rfl
  | param => rfl
  | path p => simp [Ty.walk, Path.visit_eq_pure hv p]
  | dyn trait markers =>
      simp [Ty.walk, ItemRef.visit_eq_pure hv trait,
        ItemRef.visitList_eq_pure hv markers]
  | array elem => simp [Ty.walk, elem]
  | slice elem => simp [Ty.walk, elem]
  | tuple elems => simp [Ty.walk, Ty.visitList_eq_pure elems]
  | ref target => simp [Ty.walk, target]
  | ptr target => simp [Ty.walk, target]
  | fn args result => simp [Ty.walk, Ty.visitList_eq_pure args, result]

end Settled

theorem Ty.visit_of_hasErased {v : Visitor ε σ} (hv : v.EntersAll)
    (htype : ∀ t : Ty, t.hasErased = false → v.type t = pure none) (t : Ty)
    (h : t.hasErased = false) : t.visit v = pure t := by
  have hereditary : Ty.Hereditary fun t u =>
      t.hasErased = false → u.visit v = pure u := by
    refine ⟨fun t h hfree => ?_, fun origin index bounds _ _ hfree => ?_⟩
    · have hwalk := Ty.walk_eq_pure hv
        (h.of_hasErased (fun _ _ hfree h => h hfree) hfree)
      simp [Ty.visit_eq_reach, Visitor.reach, htype t hfree, hwalk]
    · simp [Ty.hasErased] at hfree
  exact hereditary.ty t h

theorem Visitor.Thorough.visit_of_hasErased {v : Visitor ε σ} (hv : v.Thorough)
    (t : Ty) (h : t.hasErased = false) : t.visit v = pure t :=
  Ty.visit_of_hasErased hv.entersAll (fun t _ => hv.type t) t h

/-- Leaving out the types without placeholders makes no difference. -/
theorem Ty.visit_skipping (f : Path → Nat → Run (Fault ε) σ Ty) (patience : Nat) (t : Ty) :
    t.visit (.skipping f patience) = t.visit (.replacing f) := by
  have hw : (Visitor.replacing f).Thorough := Visitor.replacing_thorough f
  have types (t u : Ty) (h : t.visit (.skipping f patience) = u.visit (.replacing f)) :
      (Run.lockstep (Fault ε) σ Unit).Holds Eq
        (t.visit (.skipping f patience)) fun _ => u.visit (.replacing f) :=
    Run.lockstep_eq_iff.2 h
  -- Equality of the walks is a relation between a type and itself, so that the walks
  -- over its parts can be compared by the general lemmas.
  have hereditary : Ty.Hereditary fun t u =>
      t.visit (.skipping f patience) = u.visit (.replacing f) := by
    refine ⟨fun t h => ?_, fun origin i bounds horigin _ => ?_⟩
    · have hwalk : t.walk (.skipping f patience) = t.walk (.replacing f) :=
        Run.lockstep_eq_iff.1 <| Run.Comparison.mono (fun _ _ => Ty.Parts.eq) <|
          Ty.walk_related Visitor.skipping_entersAll (fun _ => hw.entersAll)
            types h
      rw [Ty.visit_eq_reach, Visitor.skipping_reach]
      split
      · rw [hw.visit, hwalk]
      · rename_i hfree
        rw [hw.visit_of_hasErased t (by simpa using hfree)]
    · have hpath : origin.visit (.skipping f patience) = origin.visit (.replacing f) :=
        Run.lockstep_eq_iff.1 <| Run.Comparison.mono
          (fun _ _ h => Path.rel_eq ▸ h) <|
          Path.visit_related Visitor.skipping_entersAll (fun _ => hw.entersAll)
            types horigin
      have herased : (Ty.erased origin i bounds).hasErased = true := by
        simp [Ty.hasErased]
      rw [hw.visit, Ty.visit_eq_reach, Visitor.skipping_reach, if_pos herased]
      change (origin.visit (.skipping f patience) >>= fun origin => f origin i) =
        origin.visit (.replacing f) >>= fun origin => f origin i
      rw [hpath]
  exact hereditary.ty t

theorem Ty.visit_idle (t : Ty) : t.visit .idle = pure t := by
  have hereditary : Ty.Hereditary fun _ u => u.visit .idle = pure u := by
    refine ⟨fun t h => ?_, fun origin index bounds horigin hbounds => ?_⟩
    · rw [Visitor.idle_thorough.visit]
      exact Ty.walk_eq_pure Visitor.idle_thorough.entersAll h
    · have horigin := Path.visit_eq_pure Visitor.idle_thorough.entersAll horigin
      have hbounds :=
        ItemRef.visitList_eq_pure Visitor.idle_thorough.entersAll hbounds
      rw [Visitor.idle_thorough.visit, Ty.walk, horigin, hbounds]
      rfl
  exact hereditary.ty t

theorem Ty.agreement_idle {v : Visitor ε σ} {R : Ty → Ty → Prop} {t u : Ty}
    (h : ∀ s u' s', u.visit v s = (.ok u', s') → R t u') :
    (Run.agreement (Fault Empty) Unit (Fault ε) σ Unit).Holds R
      (t.visit .idle) fun _ => u.visit v := by
  intro s a s₁ hx _ s' b s₁' hy
  rw [Ty.visit_idle] at hx
  cases hx
  exact h s' b s₁' hy

end Unerase
