import Unerase.Proofs.Walk.Body

/-!
What a walk over a body leaves behind. The walk comes to the nodes in reach of the
root, to a shared node once for each way that leads to it. Under a visitor that leaves
a type alone once it has visited it, the first of these visits decides.
-/

namespace Unerase

variable {ε σ : Type}

namespace Node

/-- One can come from the first position to the second by going to parts. -/
def Reaches (nodes : List Node) : NodeId → NodeId → Prop :=
  Relation.ReflTransGen (Refers nodes)

/-- The position exists, and all its parts have the property. -/
def Leads (nodes : List Node) (P : NodeId → Prop) (id : NodeId) : Prop :=
  ∃ node, nodes[id]? = some node ∧ ∀ child ∈ node.expr.children, P child

/-- Every way from the position has at most so many steps, and only comes to
positions that exist. -/
def Within (nodes : List Node) : Nat → NodeId → Prop
  | 0 => Leads nodes fun _ => False
  | depth + 1 => Leads nodes (Within nodes depth)

/-- The second list is the first one with other types in all done nodes. -/
def Walked (R : Ty → Ty → Prop) (done : NodeId → Prop)
    (before nodes : List Node) : Prop :=
  ∀ id, (done id → Option.Rel (Node.Rel R) before[id]? nodes[id]?) ∧
    (¬ done id → nodes[id]? = before[id]?)

theorem reaches_iff {nodes : List Node} {node : Node} {id j : NodeId}
    (hnode : nodes[id]? = some node) :
    Reaches nodes id j ↔ j = id ∨ ∃ c ∈ node.expr.children, Reaches nodes c j := by
  rw [Reaches, Relation.ReflTransGen.cases_head_iff]
  constructor
  · rintro (rfl | ⟨c, ⟨node', hnode', hc⟩, hcj⟩)
    · exact .inl rfl
    · rw [hnode] at hnode'
      cases hnode'
      exact .inr ⟨c, hc, hcj⟩
  · rintro (rfl | ⟨c, hc, hcj⟩)
    · exact .inl rfl
    · exact .inr ⟨c, ⟨node, hnode, hc⟩, hcj⟩

variable {R : Ty → Ty → Prop} {done done' : NodeId → Prop}
  {before nodes : List Node}

theorem at_ok {nodes : List Node} {id : NodeId} {node : Node} {s s' : σ}
    (h : Run.ofExcept (Node.at (ε := ε) nodes id) s = (.ok node, s')) :
    nodes[id]? = some node := by
  simp only [Run.ofExcept, Node.at] at h
  generalize nodes[id]? = x at h ⊢
  cases x <;> cases h
  rfl

theorem ofExcept_at {nodes : List Node} {id : NodeId} {node : Node}
    (h : nodes[id]? = some node) :
    Run.ofExcept (σ := σ) (Node.at (ε := ε) nodes id) = pure node := by
  simp only [Node.at, h]
  rfl

theorem Walked.congr (h : Walked R done before nodes)
    (hdone : ∀ id, done' id ↔ done id) : Walked R done' before nodes :=
  fun id => by rw [hdone id]; exact h id

theorem Walked.children (h : Walked R done before nodes) {id : NodeId}
    {node : Node} (hnode : nodes[id]? = some node) :
    ∃ node₀, before[id]? = some node₀ ∧
      node.expr.children = node₀.expr.children := by
  by_cases hid : done id
  · have hrel := (h id).1 hid
    rw [hnode] at hrel
    generalize hbefore : before[id]? = x at hrel
    cases hrel with
    | some hrel => exact ⟨_, rfl, hrel.expr.children⟩
  · exact ⟨node, ((h id).2 hid) ▸ hnode, rfl⟩

theorem Walked.set (h : Walked R done before nodes) {id : NodeId}
    {node node' : Node} (hnode : nodes[id]? = some node)
    (hrel : Option.Rel (Node.Rel R) before[id]? (some node')) :
    Walked R (fun j => done j ∨ j = id) before (nodes.set id node') := by
  have hid : id < nodes.length := (List.getElem?_eq_some_iff.1 hnode).1
  intro j
  by_cases hj : j = id
  · subst hj
    simpa [hid] using hrel
  · simp only [hj, or_false, List.getElem?_set_ne (Ne.symm hj)]
    exact h j

theorem foldlM_walked {P : NodeId → Prop}
    {descend : List Node → NodeId → Run (Fault ε) σ (List Node)}
    (hdescend : ∀ {done nodes id s nodes' s'}, Walked R done before nodes →
      descend nodes id s = (.ok nodes', s') →
      Walked R (fun j => done j ∨ Reaches before id j) before nodes' ∧ P id)
    {parts : List NodeId} (h : Walked R done before nodes) {s s' : σ}
    {nodes' : List Node} (hfold : parts.foldlM descend nodes s = (.ok nodes', s')) :
    Walked R (fun j => done j ∨ ∃ c ∈ parts, Reaches before c j) before nodes' ∧
      ∀ c ∈ parts, P c := by
  induction parts generalizing done nodes s with
  | nil =>
      cases hfold
      exact ⟨h.congr (by simp), by simp⟩
  | cons c parts ih =>
      rw [List.foldlM_cons] at hfold
      obtain ⟨nodes₁, s₁, hc, hparts⟩ := Run.bind_ok_iff.1 hfold
      obtain ⟨h₁, hP⟩ := hdescend h hc
      obtain ⟨h₂, hPs⟩ := ih h₁ hparts
      exact ⟨h₂.congr (by simp [or_assoc]), by simpa using ⟨hP, hPs⟩⟩

section Visit

variable {v : Visitor ε σ} (hv : v.EntersAll)

include hv

theorem rel_of_visit
    (visits : ∀ t s t' s', Ty.visit v t s = (.ok t', s') → R t t')
    {n n' : Node} {s s' : σ} (h : n.visit v s = (.ok n', s')) : n.Rel R n' := by
  have types : ∀ t u : Ty, t = u →
      (Run.agreement (Fault Empty) Unit (Fault ε) σ Unit).Holds R
        (t.visit .idle) fun _ => u.visit v := by
    rintro t _ rfl
    exact Ty.agreement_idle (visits t)
  have hidle : n.visit .idle = pure n :=
    Node.visit_eq_pure Visitor.idle_thorough.entersAll
      (Node.rel_self Ty.visit_idle n)
  have hn := Node.visit_related Visitor.idle_thorough.entersAll (fun _ => hv)
    types (Node.rel_self (fun _ => rfl) n)
  exact hn () n () (by rw [hidle]; rfl) () s n' s' h

variable (visits : ∀ t s t' s', Ty.visit v t s = (.ok t', s') → R t t')
  (settled : ∀ t t', R t t' → t'.visit v = pure t')

include visits settled

theorem Walked.visit (h : Walked R done before nodes) {id : NodeId}
    {node node' : Node} {s s' : σ} (hnode : nodes[id]? = some node)
    (hvisit : node.visit v s = (.ok node', s')) :
    Walked R (fun j => done j ∨ j = id) before (nodes.set id node') := by
  refine h.set hnode ?_
  by_cases hid : done id
  · have hrel := (h id).1 hid
    rw [hnode] at hrel
    generalize before[id]? = x at hrel ⊢
    cases hrel with
    | some hrel =>
        have hsame : node.visit v = pure node :=
          Node.visit_eq_pure hv (hrel.mono settled)
        rw [hsame] at hvisit
        cases hvisit
        exact .some hrel
  · rw [← (h id).2 hid, hnode]
    exact .some (rel_of_visit hv visits hvisit)

theorem visitAt_walked {P : NodeId → Prop}
    {descend : List Node → NodeId → Run (Fault ε) σ (List Node)}
    (hdescend : ∀ {done nodes id s nodes' s'}, Walked R done before nodes →
      descend nodes id s = (.ok nodes', s') →
      Walked R (fun j => done j ∨ Reaches before id j) before nodes' ∧ P id)
    (h : Walked R done before nodes) {id : NodeId} {s s' : σ}
    {nodes' : List Node}
    (hvisit : Node.visitAt v descend nodes id s = (.ok nodes', s')) :
    Walked R (fun j => done j ∨ Reaches before id j) before nodes' ∧
      Leads before P id := by
  simp only [Node.visitAt, hv.within] at hvisit
  obtain ⟨node, s₁, hat, hvisit⟩ := Run.bind_ok_iff.1 hvisit
  obtain ⟨nodes₁, s₂, hfold, hvisit⟩ := Run.bind_ok_iff.1 hvisit
  obtain ⟨node₁, s₃, hat₁, hvisit⟩ := Run.bind_ok_iff.1 hvisit
  obtain ⟨node₂, s₄, hnode₂, hvisit⟩ := Run.bind_ok_iff.1 hvisit
  cases hvisit
  -- The node may have other types by now, but it has the parts that it had before.
  obtain ⟨node₀, hnode₀, hchildren⟩ := h.children (at_ok hat)
  obtain ⟨h₁, hP⟩ := foldlM_walked hdescend h hfold
  rw [hchildren] at h₁ hP
  refine ⟨(h₁.visit hv visits settled (at_ok hat₁) hnode₂).congr fun j => ?_,
    node₀, hnode₀, hP⟩
  rw [reaches_iff hnode₀, or_assoc, or_comm (a := j = id)]

theorem visitWithin_walked (depth : Nat) {done : NodeId → Prop}
    {nodes : List Node} (h : Walked R done before nodes) {id : NodeId} {s s' : σ}
    {nodes' : List Node}
    (hvisit : Node.visitWithin v depth nodes id s = (.ok nodes', s')) :
    Walked R (fun j => done j ∨ Reaches before id j) before nodes' ∧
      Within before depth id := by
  induction depth generalizing done nodes id s nodes' s' with
  | zero =>
      exact visitAt_walked hv visits settled (fun _ hstop => by cases hstop) h hvisit
  | succ depth ih =>
      exact visitAt_walked hv visits settled (fun h hstep => ih h hstep) h hvisit

end Visit

theorem Leads.of_rel {P Q : NodeId → Prop} {nodes' : List Node} {id : NodeId}
    (h : Leads nodes P id) (hrel : Option.Rel (Node.Rel R) nodes[id]? nodes'[id]?)
    (hPQ : ∀ c, Refers nodes id c → P c → Q c) : Leads nodes' Q id := by
  obtain ⟨node, hnode, hparts⟩ := h
  rw [hnode] at hrel
  generalize hx : nodes'[id]? = x at hrel
  cases hrel with
  | some hrel =>
      refine ⟨_, hx, fun c hc => ?_⟩
      rw [hrel.expr.children] at hc
      exact hPQ c ⟨node, hnode, hc⟩ (hparts c hc)

theorem Within.of_rel {nodes' : List Node} {depth : Nat} {id : NodeId}
    (h : Within nodes depth id)
    (hrel : ∀ j, Reaches nodes id j →
      Option.Rel (Node.Rel R) nodes[j]? nodes'[j]?) : Within nodes' depth id := by
  induction depth generalizing id with
  | zero => exact Leads.of_rel h (hrel id .refl) fun _ _ hfalse => hfalse
  | succ depth ih =>
      exact Leads.of_rel h (hrel id .refl) fun c hc hwithin =>
        ih hwithin fun j hj => hrel j (.head hc hj)

theorem visitAt_eq_pure {v : Visitor ε σ} (hv : v.EntersAll) {P : NodeId → Prop}
    {id : NodeId} {descend : List Node → NodeId → Run (Fault ε) σ (List Node)}
    (h : Leads nodes P id)
    (settled : ∀ node, nodes[id]? = some node → node.visit v = pure node)
    (hdescend : ∀ c, Refers nodes id c → P c → descend nodes c = pure nodes) :
    Node.visitAt v descend nodes id = pure nodes := by
  obtain ⟨node, hnode, hparts⟩ := h
  have hfold : ∀ cs : List NodeId, (∀ c ∈ cs, c ∈ node.expr.children) →
      cs.foldlM descend nodes = pure nodes := by
    intro cs hcs
    induction cs with
    | nil => rfl
    | cons c cs ih =>
        have hc : c ∈ node.expr.children := hcs c (by simp)
        rw [List.foldlM_cons, hdescend c ⟨node, hnode, hc⟩ (hparts c hc), pure_bind]
        exact ih fun c hc => hcs c (by simp [hc])
  have hset : nodes.set id node = nodes := by
    obtain ⟨hid, rfl⟩ := List.getElem?_eq_some_iff.1 hnode
    exact List.set_getElem_self hid
  simp only [Node.visitAt, hv.within, ofExcept_at hnode, pure_bind, hfold _ fun _ hc => hc,
    settled node hnode, hset]

theorem visitWithin_eq_pure {v : Visitor ε σ} (hv : v.EntersAll) {depth : Nat}
    {id : NodeId} (h : Within nodes depth id)
    (settled : ∀ j node, Reaches nodes id j → nodes[j]? = some node →
      node.visit v = pure node) :
    Node.visitWithin v depth nodes id = pure nodes := by
  induction depth generalizing id with
  | zero =>
      exact visitAt_eq_pure hv h (fun node => settled id node .refl)
        fun _ _ hfalse => hfalse.elim
  | succ depth ih =>
      exact visitAt_eq_pure hv h (fun node => settled id node .refl) fun c hc hwithin =>
        ih hwithin fun j node hj => settled j node (.head hc hj)

end Node

theorem Ty.rel_of_visitList {v : Visitor ε σ} {R : Ty → Ty → Prop}
    (visits : ∀ t s t' s', Ty.visit v t s = (.ok t', s') → R t t') {ts us : List Ty}
    {s s' : σ} (h : Ty.visitList v ts s = (.ok us, s')) : List.Forall₂ R ts us := by
  induction ts generalizing us s with
  | nil =>
      cases h
      exact .nil
  | cons t ts ih =>
      obtain ⟨t', s₁, ht, h⟩ := Run.bind_ok_iff.1 h
      obtain ⟨us', s₂, hts, h⟩ := Run.bind_ok_iff.1 h
      cases h
      exact .cons (visits t s t' s₁ ht) (ih hts)

namespace Body

theorem reachable_iff {b : Body} {id : NodeId} :
    b.Reachable id ↔ Node.Reaches b.nodes b.root id := by
  constructor
  · intro h
    induction h with
    | root => exact .refl
    | part _ hrefers ih => exact ih.tail hrefers
  · intro h
    induction h with
    | refl => exact .root
    | tail _ hrefers ih => exact .part ih hrefers

/-- Visitors with so much patience come to an end in the body. -/
def Ends (b : Body) (patience : Nat) : Prop :=
  Node.Within b.nodes (b.nodes.length + patience) b.root

variable {R : Ty → Ty → Prop} {b b' : Body}

theorem Rel.length_eq (h : b.Rel R b') : b'.nodes.length = b.nodes.length := by
  have hat (id : NodeId) : b'.nodes[id]? = none ↔ b.nodes[id]? = none := by
    by_cases hid : b.Reachable id
    · have hrel := h.reached id hid
      generalize b.nodes[id]? = x at hrel ⊢
      generalize b'.nodes[id]? = y at hrel ⊢
      cases hrel <;> simp
    · rw [h.unreached id hid]
  simp only [List.getElem?_eq_none_iff] at hat
  exact Nat.le_antisymm ((hat _).2 (Nat.le_refl _)) ((hat _).1 (Nat.le_refl _))

theorem Rel.reachable (h : b.Rel R b') {id : NodeId} (hid : b'.Reachable id) :
    b.Reachable id := by
  induction hid with
  | root => exact h.root ▸ .root
  | @part id child _ hrefers ih =>
      obtain ⟨node, hnode, hchild⟩ := hrefers
      have hrel := h.reached id ih
      rw [hnode] at hrel
      generalize hx : b.nodes[id]? = x at hrel
      cases hrel with
      | some hrel => exact .part ih ⟨_, hx, hrel.expr.children ▸ hchild⟩

theorem Rel.ends (h : b.Rel R b') {patience : Nat} (hends : b.Ends patience) :
    b'.Ends patience := by
  rw [Ends, h.length_eq, h.root]
  exact Node.Within.of_rel hends fun j hj => h.reached j (reachable_iff.2 hj)

/-- A body is settled where a complete walk settles each type that it comes to. -/
theorem rel_of_visit {v : Visitor ε σ} (hv : v.EntersAll)
    (visits : ∀ t s t' s', Ty.visit v t s = (.ok t', s') → R t t')
    (settled : ∀ t t', R t t' → t'.visit v = pure t') {s s' : σ}
    (h : b.visit v s = (.ok b', s')) : b.Rel R b' ∧ b.Ends v.patience := by
  simp only [Body.visit, hv.within] at h
  obtain ⟨nodes, s₁, hnodes, h⟩ := Run.bind_ok_iff.1 h
  obtain ⟨bindings, s₂, hbindings, h⟩ := Run.bind_ok_iff.1 h
  obtain ⟨templates, s₃, htemplates, h⟩ := Run.bind_ok_iff.1 h
  cases h
  have hstart : Node.Walked R (fun _ => False) b.nodes b.nodes :=
    fun id => ⟨False.elim, fun _ => rfl⟩
  obtain ⟨hwalked, hends⟩ :=
    Node.visitWithin_walked hv visits settled _ hstart hnodes
  refine ⟨⟨rfl, fun id hid => ?_, fun id hid => ?_,
    Ty.rel_of_visitList visits hbindings, Ty.rel_of_visitList visits htemplates⟩, hends⟩
  · exact (hwalked id).1 (.inr (reachable_iff.1 hid))
  · exact (hwalked id).2 (by simpa [reachable_iff] using hid)

theorem visit_eq_pure {v : Visitor ε σ} (hv : v.EntersAll)
    (h : b.Rel (fun _ u => u.visit v = pure u) b') (hends : b.Ends v.patience) :
    b'.visit v = pure b' := by
  have hreached (j : NodeId) (node : Node)
      (hj : Node.Reaches b'.nodes b'.root j) (hnode : b'.nodes[j]? = some node) :
      node.visit v = pure node := by
    have hrel := h.reached j (h.reachable (reachable_iff.2 hj))
    rw [hnode] at hrel
    generalize b.nodes[j]? = x at hrel
    cases hrel with
    | some hrel => exact Node.visit_eq_pure hv hrel
  have hnodes := Node.visitWithin_eq_pure hv (h.ends hends) hreached
  simp [Body.visit, depthFor, hv.within, hnodes, Ty.visitList_eq_pure h.bindings,
    Ty.visitList_eq_pure h.templates]

end Body

end Unerase
