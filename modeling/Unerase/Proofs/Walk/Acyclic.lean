import Unerase.Proofs.Relation.Parts
import Unerase.Proofs.Walk.Ending

namespace Unerase

variable {ε σ ι : Type} {I : σ → Prop} {P : Fault ε → Prop} {v : Visitor ε σ}
  {w : ι → Visitor ε σ} {U Q : Ty → Prop}

/-- The visitors leave the same in the place of a type, with the property. -/
def Ty.VisitsAlike (I : σ → Prop) (P : Fault ε → Prop) (Q : Ty → Prop) (v : Visitor ε σ)
    (w : ι → Visitor ε σ) (t : Ty) : Prop :=
  (Run.guarded ι I P).Holds (fun t' u' => t' = u' ∧ Q t') (t.visit v) fun i => t.visit (w i)

namespace Node

variable {before nodes : List Node} {node : Node} {id : NodeId}

/-- The second list is the first one with other nodes that have the same parts, and in which
all types have the property. -/
def Treated (Q : Ty → Prop) (before nodes : List Node) : Prop :=
  List.Forall₂ (fun n m => m = n ∨
    m.expr.children = n.expr.children ∧ ∀ t ∈ m.parts, Q t) before nodes

theorem Treated.refl (Q : Ty → Prop) (nodes : List Node) : Treated Q nodes nodes :=
  List.forall₂_same.2 fun _ _ => .inl rfl

theorem Treated.exists_node (h : Treated Q before nodes) (hnode : nodes[id]? = some node) :
    ∃ node₀, before[id]? = some node₀ ∧ node.expr.children = node₀.expr.children ∧
      ∀ t ∈ node.parts, t ∈ node₀.parts ∨ Q t := by
  have hrel := forall₂_getElem? h id
  rw [hnode] at hrel
  generalize before[id]? = x at hrel ⊢
  cases hrel with
  | some hrel =>
      rcases hrel with rfl | ⟨hchildren, hQ⟩
      · exact ⟨_, rfl, rfl, fun t ht => .inl ht⟩
      · exact ⟨_, rfl, hchildren, fun t ht => .inr (hQ t ht)⟩

theorem Treated.set {node₀ : Node} (h : Treated Q before nodes)
    (hnode₀ : before[id]? = some node₀)
    (hchildren : node.expr.children = node₀.expr.children) (hQ : ∀ t ∈ node.parts, Q t) :
    Treated Q before (nodes.set id node) := by
  have hset := forall₂_set h (a := node₀) (.inr ⟨hchildren, hQ⟩) id
  obtain ⟨hid, rfl⟩ := List.getElem?_eq_some_iff.1 hnode₀
  rwa [List.set_getElem_self hid] at hset

theorem at_guarded (hP : nodes.length ≤ id → P (.outOfBounds nodes.length id)) :
    (Run.guarded ι I P).Holds (fun n m => n = m ∧ nodes[id]? = some n)
      (.ofExcept (Node.at nodes id)) fun _ => .ofExcept (Node.at nodes id) := by
  intro i s hs
  simp only [Run.ofExcept, Node.at]
  cases hnode : nodes[id]? with
  | some node => exact .ok ⟨rfl, rfl⟩ hs
  | none => exact .error (hP (List.getElem?_eq_none_iff.1 hnode))

theorem children_of_visit (hv : v.EntersAll) {node' : Node} {s s' : σ}
    (h : node.visit v s = (.ok node', s')) : node'.expr.children = node.expr.children :=
  (rel_of_visit (R := fun _ _ => True) hv (fun _ _ _ _ _ => trivial) h).expr.children

variable (hv : v.EntersAll) (hw : ∀ i, (w i).EntersAll)
  (types : ∀ t, U t ∨ Q t → t.VisitsAlike I P Q v w)

include hv hw types

theorem visit_guarded (h : ∀ t ∈ node.parts, U t ∨ Q t) :
    (Run.guarded ι I P).Holds (fun n m => (n = m ∧ ∀ t ∈ n.parts, Q t) ∧
      n.expr.children = node.expr.children) (node.visit v) fun i => node.visit (w i) := by
  have hnode : node.Rel (fun t u => t = u ∧ (U t ∨ Q t)) node :=
    Node.rel_of_parts fun t ht => ⟨rfl, h t ht⟩
  have hvisit := Node.visit_related (L := Run.guarded ι I P)
    (R := fun t u => t = u ∧ Q t) hv hw ?types hnode
  · refine Run.guarded_and (fun s n s₁ _ hn => children_of_visit hv hn)
      (Run.Comparison.mono (fun n m hnm => ?_) hvisit)
    obtain rfl : n = m := (hnm.mono fun _ _ ht => ht.1).eq
    exact ⟨rfl, fun t ht => (List.forall₂_same.1 hnm.parts t ht).2⟩
  case types =>
    rintro t _ ⟨rfl, ht⟩
    exact types t ht

variable {root : NodeId}
  (uses : ∀ j node, Reaches before root j → before[j]? = some node → ∀ t ∈ node.parts, U t)
  (faults : ∀ j, Reaches before root j → before.length ≤ j →
    P (.outOfBounds before.length j))

include uses faults

theorem visitAt_guarded {f : List Node → NodeId → Run (Fault ε) σ (List Node)}
    {g : ι → List Node → NodeId → Run (Fault ε) σ (List Node)}
    (hfg : ∀ child, Refers before id child → ∀ nodes, Treated Q before nodes →
      (Run.guarded ι I P).Holds (fun ns ms => ns = ms ∧ Treated Q before ns)
        (f nodes child) fun i => g i nodes child)
    (hid : Reaches before root id) (h : Treated Q before nodes) :
    (Run.guarded ι I P).Holds (fun ns ms => ns = ms ∧ Treated Q before ns)
      (Node.visitAt v f nodes id) fun i => Node.visitAt (w i) (g i) nodes id := by
  have hat (ns : List Node) (hns : Treated Q before ns) :
      ns.length ≤ id → P (.outOfBounds ns.length id) := by
    rw [← List.Forall₂.length_eq hns]
    exact faults id hid
  simp only [Node.visitAt, hv.within, (hw _).within]
  refine Run.Comparison.bind _ (at_guarded (hat nodes h)) ?_
  rintro node _ ⟨rfl, hnode⟩
  obtain ⟨node₀, hnode₀, hchildren, -⟩ := h.exists_node hnode
  have hparts : (Run.guarded ι I P).Holds (fun ns ms => ns = ms ∧ Treated Q before ns)
      (node.expr.children.foldlM f nodes) fun i => node.expr.children.foldlM (g i) nodes := by
    refine Run.Comparison.foldlM (fun child hchild => ?_) ⟨rfl, h⟩
    rintro ns _ ⟨rfl, hns⟩
    exact hfg child ⟨node₀, hnode₀, hchildren ▸ hchild⟩ ns hns
  refine Run.Comparison.bind _ hparts ?_
  rintro ns _ ⟨rfl, hns⟩
  refine Run.Comparison.bind _ (at_guarded (hat ns hns)) ?_
  rintro node₁ _ ⟨rfl, hnode₁⟩
  -- The parts may have led to this very node, so its types may be new by now.
  obtain ⟨node₀', hnode₀', hchildren₁, htypes⟩ := hns.exists_node hnode₁
  rw [hnode₀] at hnode₀'
  cases hnode₀'
  have hallowed : ∀ t ∈ node₁.parts, U t ∨ Q t :=
    fun t ht => (htypes t ht).imp_left (uses id node₀ hid hnode₀ t)
  refine Run.Comparison.bind _ (visit_guarded hv hw types hallowed) ?_
  rintro node₂ _ ⟨⟨rfl, hQ⟩, hchildren₂⟩
  exact Run.Comparison.pure _ ⟨rfl, hns.set hnode₀ (hchildren₂.trans hchildren₁) hQ⟩

theorem visitWithin_guarded {steps depth depth' : Nat} (hsteps : Bounded before steps id)
    (hdepth : steps ≤ depth) (hdepth' : steps ≤ depth') (hid : Reaches before root id)
    (h : Treated Q before nodes) :
    (Run.guarded ι I P).Holds (fun ns ms => ns = ms ∧ Treated Q before ns)
      (Node.visitWithin v depth nodes id)
      fun i => Node.visitWithin (w i) depth' nodes id := by
  induction steps generalizing depth depth' nodes id with
  | zero =>
      cases depth <;> cases depth' <;>
        exact visitAt_guarded hv hw types uses faults
          (fun child hchild => absurd hchild (hsteps child)) hid h
  | succ steps ih =>
      obtain ⟨d, rfl⟩ : ∃ d, depth = d + 1 := ⟨depth - 1, by omega⟩
      obtain ⟨d', rfl⟩ : ∃ d, depth' = d + 1 := ⟨depth' - 1, by omega⟩
      refine visitAt_guarded hv hw types uses faults (fun child hchild ns hns => ?_) hid h
      exact ih (hsteps child hchild) (by omega) (by omega) (hid.tail hchild) hns

end Node

theorem Ty.visitList_guarded {ts : List Ty} (h : ∀ t ∈ ts, t.VisitsAlike I P Q v w) :
    (Run.guarded ι I P).Holds Eq (Ty.visitList v ts) fun i => Ty.visitList (w i) ts := by
  have hts : List.Forall₂ (fun t u => t = u ∧ t.VisitsAlike I P Q v w) ts ts :=
    List.forall₂_same.2 fun t ht => ⟨rfl, h t ht⟩
  have types (t u : Ty) (htu : t = u ∧ t.VisitsAlike I P Q v w) :
      (Run.guarded ι I P).Holds Eq (t.visit v) fun i => u.visit (w i) := by
    obtain ⟨rfl, ht⟩ := htu
    exact Run.Comparison.mono (fun _ _ h => h.1) ht
  have hvisit := Ty.visitList_related types hts
  rwa [List.forall₂_eq_eq_eq] at hvisit

/-- Walks over an acyclic body go the same way if the visits to the types do that it uses. -/
theorem Body.visit_guarded (hv : v.EntersAll) (hw : ∀ i, (w i).EntersAll) {patience : Nat}
    (hpatience : ∀ i, (w i).patience = patience) {b : Body} (hb : b.Acyclic)
    (types : ∀ t, b.Uses t ∨ Q t → t.VisitsAlike I P Q v w)
    (faults : ∀ id, b.Reachable id → b.nodes.length ≤ id →
      P (.outOfBounds b.nodes.length id)) :
    (Run.guarded ι I P).Holds Eq (b.visit v) fun i => b.visit (w i) := by
  have uses (j : NodeId) (node : Node) (hj : Node.Reaches b.nodes b.root j)
      (hnode : b.nodes[j]? = some node) (t : Ty) (ht : t ∈ node.parts) : b.Uses t :=
    .node (reachable_iff.2 hj) hnode ht
  have hnodes := Node.visitWithin_guarded hv hw types uses
    (fun j hj => faults j (reachable_iff.2 hj)) hb.bounded
    (Nat.le_add_right b.nodes.length v.patience)
    (Nat.le_add_right b.nodes.length patience) .refl (.refl Q b.nodes)
  simp only [Body.visit, Body.depthFor, hv.within, (hw _).within, hpatience]
  refine Run.Comparison.bind _ hnodes ?_
  rintro nodes _ ⟨rfl, -⟩
  refine Run.Comparison.bind _
    (Ty.visitList_guarded fun t ht => types t (.inl (.binding ht))) ?_
  rintro bindings _ rfl
  refine Run.Comparison.bind _
    (Ty.visitList_guarded fun t ht => types t (.inl (.template ht))) ?_
  rintro templates _ rfl
  exact Run.Comparison.pure _ rfl

end Unerase
