import Mathlib.Logic.Relation
import Unerase.Proofs.Relation.Body
import Unerase.Proofs.Walk.Ty
import Unerase.Visitor.Body

namespace Unerase

variable {ε σ ε' σ' ι : Type}

section Related

variable {L : Run.Comparison (Fault ε) σ (Fault ε') σ' ι} {v : Visitor ε σ}
  {w : ι → Visitor ε' σ'} {R₀ R : Ty → Ty → Prop} (hv : v.EntersAll)
  (hw : ∀ i, (w i).EntersAll)
  (types : ∀ t u, R₀ t u → L.Holds R (t.visit v) fun i => u.visit (w i))

include types

theorem TypedName.visitList_related {as bs : List TypedName}
    (h : List.Forall₂ (TypedName.Rel R₀) as bs) :
    L.Holds (List.Forall₂ (TypedName.Rel R)) (TypedName.visitList v as)
      fun i => TypedName.visitList (w i) bs := by
  induction h with
  | nil =>
      simp only [TypedName.visitList]
      exact L.pure .nil
  | cons h _ ih =>
      simp only [TypedName.visitList]
      refine L.bind (types _ _ h.type) fun t u htu => ?_
      exact L.bind ih fun as bs habs => L.pure (.cons ⟨h.name, htu⟩ habs)

include hv hw

theorem Expr.visit_related {e e' : Expr} (h : e.Rel R₀ e') :
    L.Holds (Expr.Rel R) (e.visit v) fun i => e'.visit (w i) := by
  cases h with
  | letIn type =>
      exact L.bind (types _ _ type) fun t u htu => L.pure (.letIn htu)
  | cast type =>
      exact L.bind (types _ _ type) fun t u htu => L.pure (.cast htu)
  | pathValue path =>
      refine L.bind (Path.visit_related hv hw types path) fun p q hpq => ?_
      exact L.pure (.pathValue hpq)
  | callPath path =>
      refine L.bind (Path.visit_related hv hw types path) fun p q hpq => ?_
      exact L.pure (.callPath hpq)
  | callMethod path =>
      refine L.bind (Path.visit_related hv hw types path) fun p q hpq => ?_
      exact L.pure (.callMethod hpq)
  | struct target =>
      refine L.bind (ItemRef.visit_related hv hw types target) fun r s hrs => ?_
      exact L.pure (.struct hrs)
  | closure args result =>
      refine L.bind (TypedName.visitList_related types args) fun as bs habs => ?_
      refine L.bind (types _ _ result) fun t u htu => ?_
      exact L.pure (.closure habs htu)
  | _ => exact L.pure (by constructor)

theorem Node.visit_related {n m : Node} (h : n.Rel R₀ m) :
    L.Holds (Node.Rel R) (n.visit v) fun i => m.visit (w i) := by
  refine L.bind (Expr.visit_related hv hw types h.expr) fun e e' he => ?_
  exact L.bind (types _ _ h.type) fun t u htu => L.pure ⟨he, htu⟩

end Related

/-- The comparison holds between walks that leave a body in the same way. -/
structure Run.Comparison.KeepsFaults
    (L : Run.Comparison (Fault ε) σ (Fault ε') σ' ι) : Prop where
  outOfBounds {α β : Type} (R : α → β → Prop) (length index : Nat) :
    L.Holds R (.stop (.outOfBounds length index)) fun _ => .stop (.outOfBounds length index)
  endless {α β : Type} (R : α → β → Prop) :
    L.Holds R (.stop .endless) fun _ => .stop .endless

theorem Run.Comparison.keepsFaults {L : Run.Comparison (Fault ε) σ (Fault ε') σ' ι}
    (h : ∀ {α β : Type} {R : α → β → Prop} {x : Run (Fault ε) σ α}
      {y : ι → Run (Fault ε') σ' β}, (∀ s a s₁, x s ≠ (.ok a, s₁)) → L.Holds R x y) :
    L.KeepsFaults where
  outOfBounds _ _ _ := h fun _ _ _ hstop => by cases hstop
  endless _ := h fun _ _ _ hstop => by cases hstop

theorem Run.lockstepUnless_keepsFaults (P : Fault ε → Prop) :
    (lockstepUnless σ ι P).KeepsFaults where
  outOfBounds _ _ _ := fun _ _ => .inr ⟨.error _, rfl⟩
  endless _ := fun _ _ => .inr ⟨.error _, rfl⟩

theorem Run.following_keepsFaults (Q : σ → σ' → Prop) :
    (following (Fault ε) (Fault ε') Q).KeepsFaults :=
  Comparison.keepsFaults following_of_not_ok

theorem Run.uncounted_keepsFaults (count : σ → Nat) :
    (uncounted (Fault ε) (Fault ε') count).KeepsFaults :=
  Comparison.keepsFaults fun h s a s₁ hx => absurd hx (h s a s₁)

theorem Run.concord_keepsFaults (I : σ → Prop) :
    (concord (Fault ε) (Fault ε') I).KeepsFaults :=
  Comparison.keepsFaults concord_of_not_ok

theorem Run.guarded_keepsFaults {I : σ → Prop} {P : Fault ε → Prop}
    (houtOfBounds : ∀ length index, P (.outOfBounds length index)) (hendless : P .endless) :
    (guarded ι I P).KeepsFaults where
  outOfBounds _ length index := fun _ _ _ => .error (houtOfBounds length index)
  endless _ := fun _ _ _ => .error hendless

theorem Run.viewing_keepsFaults {view : σ' → σ} {I E : σ' → Prop} (h : ∀ u, I u → E u) :
    (viewing (Fault ε) ι view I E).KeepsFaults where
  outOfBounds _ _ _ := fun _ u hu => .error (h u hu)
  endless _ := fun _ u hu => .error (h u hu)

section Bodies

variable {L : Run.Comparison (Fault ε) σ (Fault ε') σ' ι} {v : Visitor ε σ}
  {w : ι → Visitor ε' σ'} {R₀ R : Ty → Ty → Prop} (hL : L.KeepsFaults) (hv : v.EntersAll)
  (hw : ∀ i, (w i).EntersAll)
  (types : ∀ t u, R₀ t u → L.Holds R (t.visit v) fun i => u.visit (w i))

include hL

theorem Node.at_related {P : Node → Node → Prop} {ns ms : List Node}
    (h : List.Forall₂ P ns ms) (id : NodeId) :
    L.Holds P (.ofExcept (Node.at ns id)) fun _ => .ofExcept (Node.at ms id) := by
  have hnode := forall₂_getElem? h id
  simp only [Node.at, h.length_eq]
  generalize ns[id]? = n? at hnode ⊢
  generalize ms[id]? = m? at hnode ⊢
  cases hnode with
  | none => exact hL.outOfBounds P _ _
  | some hnode => exact L.pure hnode

variable (hR : ∀ t u, R t u → R₀ t u)

include hv hw types hR

/-- What is left of a node is visited once more if the node is shared, so the types that
come out must be types that may go in. -/
theorem Node.visitAt_related {f : List Node → NodeId → Run (Fault ε) σ (List Node)}
    {g : ι → List Node → NodeId → Run (Fault ε') σ' (List Node)}
    (h : ∀ ns ms id, List.Forall₂ (Node.Rel R₀) ns ms →
      L.Holds (List.Forall₂ (Node.Rel R₀)) (f ns id) fun i => g i ms id)
    {ns ms : List Node} (hnodes : List.Forall₂ (Node.Rel R₀) ns ms) (id : NodeId) :
    L.Holds (List.Forall₂ (Node.Rel R₀)) (Node.visitAt v f ns id)
      fun i => Node.visitAt (w i) (g i) ms id := by
  simp only [Node.visitAt, hv.within, (hw _).within]
  refine L.bind (Node.at_related hL hnodes id) fun n m hnm => ?_
  rw [hnm.expr.children]
  refine L.bind (L.foldlM (fun c _ ns ms hnodes => h ns ms c hnodes) hnodes)
    fun ns ms hnodes => ?_
  refine L.bind (Node.at_related hL hnodes id) fun n m hnm => ?_
  refine L.bind (Node.visit_related hv hw types hnm) fun n m hnm => ?_
  exact L.pure (forall₂_set hnodes (hnm.mono hR) id)

theorem Node.visitWithin_related (depth : Nat) {ns ms : List Node}
    (hnodes : List.Forall₂ (Node.Rel R₀) ns ms) (id : NodeId) :
    L.Holds (List.Forall₂ (Node.Rel R₀)) (Node.visitWithin v depth ns id)
      fun i => Node.visitWithin (w i) depth ms id := by
  induction depth generalizing ns ms id with
  | zero =>
      exact Node.visitAt_related hL hv hw types hR (fun _ _ _ _ => hL.endless _) hnodes id
  | succ depth ih =>
      exact Node.visitAt_related hL hv hw types hR (fun _ _ id hnodes => ih hnodes id)
        hnodes id

theorem Body.visit_related (hpatience : ∀ i, (w i).patience = v.patience) {b d : Body}
    (h : b.RelAll R₀ R₀ d) :
    L.Holds (Body.RelAll R₀ R) (b.visit v) fun i => d.visit (w i) := by
  simp only [Body.visit, Body.depthFor, hv.within, (hw _).within, hpatience,
    ← h.nodes.length_eq, ← h.root]
  refine L.bind (Node.visitWithin_related hL hv hw types hR _ h.nodes _)
    fun nodes nodes' hnodes => ?_
  refine L.bind (Ty.visitList_related types h.bindings) fun bindings bindings' hbindings => ?_
  refine L.bind (Ty.visitList_related types h.templates)
    fun templates templates' htemplates => ?_
  exact L.pure ⟨rfl, hnodes, hbindings, htemplates⟩

end Bodies

theorem Body.visit_same {L : Run.Comparison (Fault ε) σ (Fault ε') σ' ι} {v : Visitor ε σ}
    {w : ι → Visitor ε' σ'} (hL : L.KeepsFaults) (hv : v.EntersAll)
    (hw : ∀ i, (w i).EntersAll)
    (types : ∀ t : Ty, L.Holds Eq (t.visit v) fun i => t.visit (w i))
    (hpatience : ∀ i, (w i).patience = v.patience)
    (b : Body) : L.Holds Eq (b.visit v) fun i => b.visit (w i) := by
  refine L.mono (fun _ _ => Body.RelAll.eq)
    (Body.visit_related hL hv hw ?types (fun _ _ h => h) hpatience b.relAll_refl)
  rintro t _ rfl
  exact types t

section Settled

variable {v : Visitor ε σ} (hv : v.EntersAll)

theorem TypedName.visitList_eq_pure {as bs : List TypedName}
    (h : List.Forall₂ (TypedName.Rel fun _ u => u.visit v = pure u) as bs) :
    TypedName.visitList v bs = pure bs := by
  induction h with
  | nil => rfl
  | cons h _ ih => simp [TypedName.visitList, h.type, ih]

include hv

theorem Expr.visit_eq_pure {e e' : Expr}
    (h : e.Rel (fun _ u => u.visit v = pure u) e') : e'.visit v = pure e' := by
  cases h with
  | letIn type => simp [Expr.visit, type]
  | pathValue path => simp [Expr.visit, Path.visit_eq_pure hv path]
  | callPath path => simp [Expr.visit, Path.visit_eq_pure hv path]
  | callMethod path => simp [Expr.visit, Path.visit_eq_pure hv path]
  | struct target => simp [Expr.visit, ItemRef.visit_eq_pure hv target]
  | cast type => simp [Expr.visit, type]
  | closure args result =>
      simp [Expr.visit, TypedName.visitList_eq_pure args, result]
  | _ => rfl

theorem Node.visit_eq_pure {n m : Node}
    (h : n.Rel (fun _ u => u.visit v = pure u) m) : m.visit v = pure m := by
  simp [Node.visit, Expr.visit_eq_pure hv h.expr, h.type]

end Settled

end Unerase
