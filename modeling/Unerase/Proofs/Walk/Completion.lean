import Unerase.Proofs.Relation.Places
import Unerase.Proofs.Walk.Crate
import Unerase.Proofs.Walk.Ending

namespace Unerase

variable {ε : Type}

namespace Run

variable {ε' α β : Type}

/-- The comparison that tells that a computation without a state gives a value. -/
abbrev completion (ε ε' : Type) : Comparison ε Unit ε' Unit Nat :=
  following ε ε' fun _ _ => True

theorem completion_pure_iff {R : α → β → Prop} {a : α} {y : Run ε' Unit β} :
    ((completion ε ε').Holds R (pure a) fun _ => y) ↔
      ∃ b, R a b ∧ y () = (.ok b, ()) := by
  constructor
  · intro h
    obtain ⟨b, hab, n, hn⟩ := h () () trivial a () rfl
    obtain ⟨⟨⟩, hb, -⟩ := hn n (Nat.le_refl n) () trivial
    exact ⟨b, hab, hb⟩
  · rintro ⟨b, hab, hb⟩ s u₀ hu₀ a' s₁ hx
    cases hx
    exact ⟨b, hab, 0, fun _ _ _ _ => ⟨(), hb, trivial⟩⟩

theorem agreement_pure_iff {R : α → β → Prop} {a : α} {y : Run ε' Unit β} :
    ((agreement ε Unit ε' Unit Unit).Holds R (pure a) fun _ => y) ↔
      ∀ b, y () = (.ok b, ()) → R a b := by
  constructor
  · intro h b hb
    exact h () a () rfl () () b () hb
  · intro h s a' s₁ hx i u b u₁ hy
    cases hx
    exact h b hy

end Run

/-- The visitor completes the walk over the first type and leaves the second. -/
def Ty.Becomes (v : Visitor ε Unit) (t u : Ty) : Prop :=
  t.visit v () = (.ok u, ())

/-- The visitor completes the walk over the type. -/
def Ty.Completes (v : Visitor ε Unit) (t : Ty) : Prop :=
  ∃ u, t.Becomes v u

theorem Path.visit_idle (p : Path) : p.visit .idle = pure p :=
  Path.visit_eq_pure Visitor.idle_thorough.entersAll
    (Ty.Hereditary.path (.of_refl Ty.visit_idle) p)

theorem Ty.walk_idle {t : Ty} (ht : t.isErased = false) : t.walk .idle = pure t :=
  Ty.walk_eq_pure Visitor.idle_thorough.entersAll
    (Ty.Parts.of_parts ht fun u _ => Ty.visit_idle u)

theorem Node.visit_idle (node : Node) : node.visit .idle = pure node :=
  Node.visit_eq_pure Visitor.idle_thorough.entersAll
    (Node.rel_self Ty.visit_idle node)

section Types

variable {v : Visitor ε Unit}

theorem Ty.agreement_becomes (t u : Ty) (htu : t = u) :
    (Run.agreement (Fault Empty) Unit (Fault ε) Unit Unit).Holds (Ty.Becomes v)
      (t.visit .idle) fun _ => u.visit v := by
  cases htu
  exact Ty.agreement_idle fun _ _ _ h => h

theorem Ty.completion_becomes (t u : Ty) (htu : t = u ∧ t.Completes v) :
    (Run.completion (Fault Empty) (Fault ε)).Holds (Ty.Becomes v)
      (t.visit .idle) fun _ => u.visit v := by
  obtain ⟨rfl, t', ht'⟩ := htu
  rw [Ty.visit_idle]
  exact Run.completion_pure_iff.2 ⟨t', ht', ht'⟩

variable (hv : v.EntersAll)

include hv

theorem Path.becomes_of_visit {p q : Path} (h : p.visit v () = (.ok q, ())) :
    p.Rel (Ty.Becomes v) q := by
  have hp : p.Rel Eq p := by rw [Path.rel_eq]
  have hagree := Path.visit_related Visitor.idle_thorough.entersAll (fun _ => hv)
    Ty.agreement_becomes hp
  rw [Path.visit_idle] at hagree
  exact Run.agreement_pure_iff.1 hagree q h

theorem Path.visit_ok_iff {p : Path} :
    (∃ q, p.visit v () = (.ok q, ())) ↔ ∀ t ∈ p.parts, t.Completes v := by
  constructor
  · rintro ⟨q, hq⟩ t ht
    obtain ⟨u, -, hu⟩ := forall₂_exists (Path.becomes_of_visit hv hq).parts ht
    exact ⟨u, hu⟩
  · intro h
    have hp : p.Rel (fun t u => t = u ∧ t.Completes v) p :=
      Path.rel_of_parts fun t ht => ⟨rfl, h t ht⟩
    have hcompletion := Path.visit_related Visitor.idle_thorough.entersAll
      (fun _ => hv) Ty.completion_becomes hp
    rw [Path.visit_idle] at hcompletion
    obtain ⟨q, -, hq⟩ := Run.completion_pure_iff.1 hcompletion
    exact ⟨q, hq⟩

theorem Ty.walk_ok_iff {t : Ty} (ht : t.isErased = false) :
    (∃ u, t.walk v () = (.ok u, ())) ↔ ∀ u ∈ t.parts, u.Completes v := by
  constructor
  · rintro ⟨t', ht'⟩ u hu
    have hparts : Ty.Parts Eq t t := Ty.Parts.of_parts ht fun _ _ => rfl
    have hagree := Ty.walk_related Visitor.idle_thorough.entersAll (fun _ => hv)
      Ty.agreement_becomes hparts
    rw [Ty.walk_idle ht] at hagree
    have hbecomes := Run.agreement_pure_iff.1 hagree t' ht'
    obtain ⟨u', -, hu'⟩ := forall₂_exists hbecomes.parts hu
    exact ⟨u', hu'⟩
  · intro h
    have hparts : Ty.Parts (fun t u => t = u ∧ t.Completes v) t t :=
      Ty.Parts.of_parts ht fun u hu => ⟨rfl, h u hu⟩
    have hcompletion := Ty.walk_related Visitor.idle_thorough.entersAll (fun _ => hv)
      Ty.completion_becomes hparts
    rw [Ty.walk_idle ht] at hcompletion
    obtain ⟨t', -, ht'⟩ := Run.completion_pure_iff.1 hcompletion
    exact ⟨t', ht'⟩

theorem Node.visit_ok {node : Node} (h : ∀ t ∈ node.parts, t.Completes v) :
    ∃ node', node.visit v () = (.ok node', ()) := by
  have hnode : node.Rel (fun t u => t = u ∧ t.Completes v) node :=
    Node.rel_of_parts fun t ht => ⟨rfl, h t ht⟩
  have hcompletion := Node.visit_related Visitor.idle_thorough.entersAll (fun _ => hv)
    Ty.completion_becomes hnode
  rw [Node.visit_idle] at hcompletion
  obtain ⟨node', -, hnode'⟩ := Run.completion_pure_iff.1 hcompletion
  exact ⟨node', hnode'⟩

omit hv in
theorem Ty.visitList_ok {ts : List Ty} (h : ∀ t ∈ ts, t.Completes v) :
    ∃ us, Ty.visitList v ts () = (.ok us, ()) := by
  induction ts with
  | nil => exact ⟨[], rfl⟩
  | cons t ts ih =>
      obtain ⟨⟨u, hu⟩, hrest⟩ := List.forall_mem_cons.1 h
      obtain ⟨us, hus⟩ := ih hrest
      refine ⟨u :: us, ?_⟩
      rw [Ty.visitList]
      exact Run.bind_ok_iff.2 ⟨u, (), hu, Run.bind_ok_iff.2 ⟨us, (), hus, rfl⟩⟩

theorem Crate.becomes_of_visit {c c' : Crate} (h : c.visit v () = (.ok c', ())) :
    c.Rel (Ty.Becomes v) (fun b b' => v.body b () = (.ok b', ())) c' := by
  have hc : c.Rel Eq Eq c := by rw [Crate.rel_eq]
  have hagree := Crate.visit_related (L := Run.agreement (Fault Empty) Unit _ _ _)
    (B := fun b b' => v.body b () = (.ok b', ()))
    Visitor.idle_thorough.entersAll (fun _ => hv) Ty.agreement_becomes
    (by rintro b _ rfl; exact Run.agreement_pure_iff.2 fun _ h => h) hc
  rw [Crate.visit_idle] at hagree
  exact Run.agreement_pure_iff.1 hagree c' h

/-- A walk over a crate is completed if it is completed at every type in a signature and
at every body. -/
theorem Crate.visit_ok_iff {c : Crate} :
    (∃ c', c.visit v () = (.ok c', ())) ↔ (∀ t ∈ c.types, t.Completes v) ∧
      ∀ b ∈ c.bodies, ∃ b', v.body b () = (.ok b', ()) := by
  constructor
  · rintro ⟨c', hc'⟩
    have hrel := Crate.becomes_of_visit hv hc'
    constructor
    · intro t ht
      obtain ⟨u, -, hu⟩ := forall₂_exists hrel.types ht
      exact ⟨u, hu⟩
    · intro b hb
      obtain ⟨b', -, hb'⟩ := forall₂_exists hrel.bodies hb
      exact ⟨b', hb'⟩
  · rintro ⟨htypes, hbodies⟩
    have hc : c.Rel (fun t u => t = u ∧ t.Completes v)
        (fun b d => b = d ∧ ∃ b', v.body b () = (.ok b', ())) c :=
      Crate.rel_of_places (fun t ht => ⟨rfl, htypes t ht⟩)
        fun b hb => ⟨rfl, hbodies b hb⟩
    have hcompletion := Crate.visit_related (L := Run.completion (Fault Empty) _)
      (B := fun b b' => v.body b () = (.ok b', ()))
      Visitor.idle_thorough.entersAll (fun _ => hv) Ty.completion_becomes ?bodies hc
    case bodies =>
      rintro b _ ⟨rfl, b', hb'⟩
      exact Run.completion_pure_iff.2 ⟨b', hb', hb'⟩
    rw [Crate.visit_idle] at hcompletion
    obtain ⟨c', -, hc'⟩ := Run.completion_pure_iff.1 hcompletion
    exact ⟨c', hc'⟩

end Types

/-! ### Bodies -/

namespace Node

variable {v : Visitor ε Unit} {before nodes : List Node} {done : NodeId → Prop}
  {id : NodeId}

theorem Walked.exists_node {R : Ty → Ty → Prop} (h : Walked R done before nodes)
    {node₀ : Node} (hnode₀ : before[id]? = some node₀) :
    ∃ node, nodes[id]? = some node := by
  by_cases hid : done id
  · have hrel := (h id).1 hid
    rw [hnode₀] at hrel
    generalize nodes[id]? = x at hrel ⊢
    cases hrel with
    | some => exact ⟨_, rfl⟩
  · exact ⟨node₀, (h id).2 hid ▸ hnode₀⟩

theorem foldlM_ok {R : Ty → Ty → Prop} {P : NodeId → Prop}
    {descend : List Node → NodeId → Run (Fault ε) Unit (List Node)}
    (hdescend : ∀ {done nodes c}, Walked R done before nodes → P c →
      ∃ nodes', descend nodes c () = (.ok nodes', ()) ∧
        ∃ done', Walked R done' before nodes')
    {parts : List NodeId} (hparts : ∀ c ∈ parts, P c)
    (h : Walked R done before nodes) :
    ∃ nodes', parts.foldlM descend nodes () = (.ok nodes', ()) ∧
      ∃ done', Walked R done' before nodes' := by
  induction parts generalizing done nodes with
  | nil => exact ⟨nodes, rfl, done, h⟩
  | cons c parts ih =>
      obtain ⟨hc, hrest⟩ := List.forall_mem_cons.1 hparts
      obtain ⟨nodes₁, hnodes₁, done₁, h₁⟩ := hdescend h hc
      obtain ⟨nodes₂, hnodes₂, hdone₂⟩ := ih hrest h₁
      refine ⟨nodes₂, ?_, hdone₂⟩
      rw [List.foldlM_cons]
      exact Run.bind_ok_iff.2 ⟨nodes₁, (), hnodes₁, hnodes₂⟩

variable (hv : v.EntersAll)
  (settled : ∀ t t', Ty.Becomes v t t' → t'.visit v = pure t')

include hv settled

theorem visitAt_ok {P : NodeId → Prop}
    {descend : List Node → NodeId → Run (Fault ε) Unit (List Node)}
    (hdescend : ∀ {done nodes c}, Walked (Ty.Becomes v) done before nodes → P c →
      ∃ nodes', descend nodes c () = (.ok nodes', ()) ∧
        ∃ done', Walked (Ty.Becomes v) done' before nodes')
    (hleads : Leads before P id)
    (hid : ∀ node, before[id]? = some node → ∀ t ∈ node.parts, t.Completes v)
    (h : Walked (Ty.Becomes v) done before nodes) :
    ∃ nodes', Node.visitAt v descend nodes id () = (.ok nodes', ()) := by
  obtain ⟨node₀, hnode₀, hparts⟩ := hleads
  obtain ⟨node, hnode⟩ := h.exists_node hnode₀
  obtain ⟨node₀', hnode₀', hchildren⟩ := h.children hnode
  rw [hnode₀] at hnode₀'
  cases hnode₀'
  rw [← hchildren] at hparts
  obtain ⟨nodes₁, hnodes₁, done₁, h₁⟩ := foldlM_ok hdescend hparts h
  obtain ⟨node₁, hnode₁⟩ := h₁.exists_node hnode₀
  have hvisit : ∃ node₂, node₁.visit v () = (.ok node₂, ()) := by
    by_cases hdone : done₁ id
    · have hrel := (h₁ id).1 hdone
      rw [hnode₀, hnode₁] at hrel
      obtain ⟨hrel⟩ := hrel
      rw [Node.visit_eq_pure hv (hrel.mono settled)]
      exact ⟨node₁, rfl⟩
    · apply Node.visit_ok hv
      exact hid node₁ ((h₁ id).2 hdone ▸ hnode₁)
  obtain ⟨node₂, hnode₂⟩ := hvisit
  refine ⟨nodes₁.set id node₂, ?_⟩
  simp only [Node.visitAt, hv.within, ofExcept_at hnode, pure_bind]
  refine Run.bind_ok_iff.2 ⟨nodes₁, (), hnodes₁, ?_⟩
  simp only [ofExcept_at hnode₁, pure_bind]
  exact Run.bind_ok_iff.2 ⟨node₂, (), hnode₂, rfl⟩

theorem visitWithin_ok {depth : Nat} (hwithin : Within before depth id)
    (hparts : ∀ j node, Reaches before id j → before[j]? = some node →
      ∀ t ∈ node.parts, t.Completes v)
    (h : Walked (Ty.Becomes v) done before nodes) :
    ∃ nodes', Node.visitWithin v depth nodes id () = (.ok nodes', ()) := by
  induction depth generalizing done nodes id with
  | zero =>
      exact visitAt_ok hv settled (fun _ hfalse => hfalse.elim) hwithin
        (fun node => hparts id node .refl) h
  | succ depth ih =>
      -- Only the parts of this node matter, so that all of them are in reach.
      have hleads : Leads before (fun c => Refers before id c ∧
          Within before depth c) id := by
        obtain ⟨node, hnode, hchildren⟩ := hwithin
        exact ⟨node, hnode, fun c hc => ⟨⟨node, hnode, hc⟩, hchildren c hc⟩⟩
      refine visitAt_ok hv settled ?_ hleads (fun node => hparts id node .refl) h
      rintro done nodes c h ⟨hc, hwithin⟩
      obtain ⟨nodes', hnodes'⟩ :=
        ih hwithin (fun j node hj => hparts j node (.head hc hj)) h
      have hwalked :=
        visitWithin_walked hv (fun _ _ _ _ ht => ht) settled depth h hnodes'
      exact ⟨nodes', hnodes', _, hwalked.1⟩

end Node

/-- A walk over a body is completed if the body is well-formed and the walk is completed
at every type that the body uses. -/
theorem Body.visit_ok_iff {v : Visitor ε Unit} (hv : v.EntersAll)
    (settled : ∀ t t', Ty.Becomes v t t' → t'.visit v = pure t') {b : Body} :
    (∃ b', b.visit v () = (.ok b', ())) ↔
      b.WellFormed ∧ ∀ t, b.Uses t → t.Completes v := by
  constructor
  · rintro ⟨b', hb'⟩
    obtain ⟨hrel, hends⟩ := Body.rel_of_visit hv (fun _ _ _ _ ht => ht) settled hb'
    exact ⟨ends_iff.1 hends, fun t ht => hrel.uses ht⟩
  · rintro ⟨hwellFormed, huses⟩
    have hstart : Node.Walked (Ty.Becomes v) (fun _ => False) b.nodes b.nodes :=
      fun id => ⟨False.elim, fun _ => rfl⟩
    have hparts (j : NodeId) (node : Node) (hj : Node.Reaches b.nodes b.root j)
        (hnode : b.nodes[j]? = some node) (t : Ty) (ht : t ∈ node.parts) :
        t.Completes v :=
      huses t (.node (reachable_iff.2 hj) hnode ht)
    have hends : b.Ends v.patience := ends_iff.2 hwellFormed
    obtain ⟨nodes, hnodes⟩ := Node.visitWithin_ok hv settled hends hparts hstart
    obtain ⟨bindings, hbindings⟩ :=
      Ty.visitList_ok fun t ht => huses t (.binding ht)
    obtain ⟨templates, htemplates⟩ :=
      Ty.visitList_ok fun t ht => huses t (.template ht)
    refine ⟨{ b with nodes, bindings, templates }, ?_⟩
    simp only [Body.visit, hv.within]
    refine Run.bind_ok_iff.2 ⟨nodes, (), hnodes, ?_⟩
    refine Run.bind_ok_iff.2 ⟨bindings, (), hbindings, ?_⟩
    exact Run.bind_ok_iff.2 ⟨templates, (), htemplates, rfl⟩

end Unerase
