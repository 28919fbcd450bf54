import Mathlib.Data.Set.Card
import Unerase.Proofs.Walk.Tour
import Unerase.Visitor.Log

/-!
How often the walk over a body comes to a node: once for each way that leads to it from the
root. Two ways differ if they go to parts with different numbers, even if both parts are the
same node, so a shared node is visited as often as it is used.

A visitor that does not fail completes the walk if all nodes in reach exist. If one of them is
missing then the walk ends at a missing node (`Body.visit_once_per_way`).
-/

namespace Unerase

variable {ε σ : Type}

namespace Node

/-- Where one comes from a position by going on, each time, to the part with the next of the
numbers. -/
def follow (nodes : List Node) : NodeId → List Nat → Option NodeId
  | id, [] => some id
  | id, part :: way =>
      (nodes[id]?.bind (·.expr.children[part]?)).bind fun child => follow nodes child way

end Node

/-- Where a way from the given position leads to in the body. -/
def Body.follow (b : Body) : NodeId → List Nat → Option NodeId :=
  Node.follow b.nodes

namespace Node

variable {nodes : List Node} {node : Node} {id j child : NodeId} {depth : Nat}

/-! ### Ways -/

theorem follow_cons {part : Nat} {way : List Nat} :
    follow nodes id (part :: way) = some j ↔
      ∃ node child, nodes[id]? = some node ∧ node.expr.children[part]? = some child ∧
        follow nodes child way = some j := by
  simp only [follow, Option.bind_eq_some_iff]
  constructor
  · rintro ⟨child, ⟨node, hnode, hchild⟩, hway⟩
    exact ⟨node, child, hnode, hchild, hway⟩
  · rintro ⟨node, child, hnode, hchild, hway⟩
    exact ⟨child, ⟨node, hnode, hchild⟩, hway⟩

theorem reaches_iff_follow : Reaches nodes id j ↔ ∃ way, follow nodes id way = some j := by
  constructor
  · intro h
    induction h using Relation.ReflTransGen.head_induction_on with
    | refl => exact ⟨[], rfl⟩
    | head hchild _ ih =>
        obtain ⟨way, hway⟩ := ih
        obtain ⟨node, hnode, hmem⟩ := hchild
        obtain ⟨part, hpart⟩ := List.mem_iff_getElem?.1 hmem
        exact ⟨part :: way, follow_cons.2 ⟨node, _, hnode, hpart, hway⟩⟩
  · rintro ⟨way, hway⟩
    induction way generalizing id with
    | nil =>
        cases hway
        exact .refl
    | cons part way ih =>
        obtain ⟨node, child, hnode, hpart, hway⟩ := follow_cons.1 hway
        exact .head ⟨node, hnode, List.mem_of_getElem? hpart⟩ (ih hway)

/-- The ways from one position to another. -/
def ways (nodes : List Node) (id j : NodeId) : Set (List Nat) :=
  {way | follow nodes id way = some j}

/-- The ways to a position whose first step goes to one of the given parts. -/
def waysThrough (nodes : List Node) (children : List NodeId) (j : NodeId) : Set (List Nat) :=
  {way | ∃ part rest child, way = part :: rest ∧ children[part]? = some child ∧
    rest ∈ ways nodes child j}

theorem ways_of_node (hnode : nodes[id]? = some node) :
    ways nodes id j = {way | way = [] ∧ id = j} ∪ waysThrough nodes node.expr.children j := by
  ext way
  cases way with
  | nil => simp [ways, waysThrough, follow]
  | cons part way =>
      simp only [ways, waysThrough, Set.mem_ofPred_eq, Set.mem_union, follow_cons, hnode]
      constructor
      · rintro ⟨_, child, ⟨⟩, hpart, hway⟩
        exact .inr ⟨part, way, child, rfl, hpart, hway⟩
      · rintro (⟨⟨⟩, _⟩ | ⟨_, _, child, ⟨⟩, hpart, hway⟩)
        exact ⟨node, child, rfl, hpart, hway⟩

theorem ways_of_missing (hnode : nodes[id]? = none) :
    ways nodes id j = {way | way = [] ∧ id = j} := by
  ext way
  cases way with
  | nil => simp [ways, follow]
  | cons part way => simp [ways, follow, hnode]

/-- The first number tells the ways through the first part from those through the others. -/
theorem waysThrough_cons (children : List NodeId) :
    waysThrough nodes (child :: children) j =
      (0 :: ·) '' ways nodes child j ∪ List.modifyHead (· + 1) '' waysThrough nodes children j := by
  ext way
  constructor
  · rintro ⟨part, rest, child', rfl, hpart, hrest⟩
    cases part with
    | zero =>
        cases hpart
        exact .inl ⟨rest, hrest, rfl⟩
    | succ part => exact .inr ⟨part :: rest, ⟨part, rest, child', rfl, hpart, hrest⟩, rfl⟩
  · rintro (⟨rest, hrest, rfl⟩ | ⟨_, ⟨part, rest, child', rfl, hpart, hrest⟩, rfl⟩)
    · exact ⟨0, rest, child, rfl, rfl, hrest⟩
    · exact ⟨part + 1, rest, child', rfl, hpart, hrest⟩

/-! ### Counting arrivals -/

theorem encard_nil (id j : NodeId) :
    {way : List Nat | way = [] ∧ id = j}.encard = ([TourStep.arrive id].count (.arrive j) : ℕ) := by
  by_cases h : id = j
  · simp [h]
  · simp [h]

theorem encard_waysThrough {steps : NodeId → List TourStep} {children : List NodeId}
    (h : ∀ child ∈ children,
      (ways nodes child j).encard = ((steps child).count (.arrive j) : ℕ)) :
    (waysThrough nodes children j).encard =
      ((children.flatMap steps).count (.arrive j) : ℕ) := by
  induction children with
  | nil => simp [waysThrough]
  | cons child children ih =>
      obtain ⟨hchild, hrest⟩ := List.forall_mem_cons.1 h
      have hdisjoint : Disjoint ((0 :: ·) '' ways nodes child j)
          (List.modifyHead (· + 1) '' waysThrough nodes children j) := by
        rw [Set.disjoint_left]
        rintro _ ⟨rest, _, rfl⟩ ⟨_, ⟨part, _, _, rfl, _, _⟩, hsame⟩
        exact absurd (List.cons.inj hsame).1 (Nat.succ_ne_zero part)
      have hshift : Set.InjOn (List.modifyHead (· + 1)) (waysThrough nodes children j) := by
        rintro _ ⟨part, rest, _, rfl, _, _⟩ _ ⟨part', rest', _, rfl, _, _⟩ hsame
        obtain ⟨hpart, hrest⟩ := List.cons.inj hsame
        rw [Nat.succ.inj hpart, hrest]
      rw [waysThrough_cons, Set.encard_union_eq hdisjoint, hshift.encard_image,
        Function.Injective.encard_image List.cons_injective, hchild, ih hrest, List.flatMap_cons,
        List.count_append, Nat.cast_add]

theorem encard_ways_of_parts {steps : NodeId → List TourStep}
    (h : ∀ child, Refers nodes id child →
      (ways nodes child j).encard = ((steps child).count (.arrive j) : ℕ)) :
    (ways nodes id j).encard = ((tourAt nodes steps id).count (.arrive j) : ℕ) := by
  cases hnode : nodes[id]? with
  | none => rw [ways_of_missing hnode, tourAt_of_missing hnode, encard_nil]
  | some node =>
      have hdisjoint : Disjoint {way : List Nat | way = [] ∧ id = j}
          (waysThrough nodes node.expr.children j) := by
        rw [Set.disjoint_left]
        rintro _ ⟨rfl, _⟩ ⟨_, _, _, ⟨⟩, _⟩
      have hbehind : [TourStep.written id, .inferred id].count (.arrive j) = 0 := rfl
      have hcount : (tourAt nodes steps id).count (.arrive j) =
          [TourStep.arrive id].count (.arrive j) +
            (node.expr.children.flatMap steps).count (.arrive j) := by
        rw [tourAt_of_node hnode, ← List.singleton_append, List.count_append, List.count_append,
          hbehind, Nat.add_zero]
      rw [ways_of_node hnode, Set.encard_union_eq hdisjoint, encard_nil,
        encard_waysThrough fun child hchild => h child ⟨node, hnode, hchild⟩, hcount, Nat.cast_add]

theorem encard_ways (h : Bounded nodes depth id) :
    (ways nodes id j).encard = ((tour nodes depth id).count (.arrive j) : ℕ) := by
  induction depth generalizing id with
  | zero => exact encard_ways_of_parts fun child hchild => absurd hchild (h child)
  | succ depth ih => exact encard_ways_of_parts fun child hchild => ih (h child hchild)

theorem mem_tourAt {steps : NodeId → List TourStep} {step : TourStep}
    (h : step ∈ tourAt nodes steps id) :
    step.id = id ∨ ∃ child, Refers nodes id child ∧ step ∈ steps child := by
  cases hnode : nodes[id]? with
  | none =>
      rw [tourAt_of_missing hnode] at h
      rw [List.mem_singleton.1 h]
      exact .inl rfl
  | some node =>
      rw [tourAt_of_node hnode] at h
      simp only [List.mem_cons, List.mem_append, List.mem_flatMap, List.not_mem_nil,
        or_false] at h
      rcases h with rfl | ⟨child, hchild, hstep⟩ | rfl | rfl
      · exact .inl rfl
      · exact .inr ⟨child, ⟨node, hnode, hchild⟩, hstep⟩
      · exact .inl rfl
      · exact .inl rfl

theorem reaches_of_mem_tour {step : TourStep} (h : step ∈ tour nodes depth id) :
    Reaches nodes id step.id := by
  induction depth generalizing id with
  | zero =>
      rcases mem_tourAt h with heq | ⟨child, _, ⟨⟩⟩
      exact heq ▸ .refl
  | succ depth ih =>
      rcases mem_tourAt h with heq | ⟨child, hchild, hstep⟩
      · exact heq ▸ .refl
      · exact .head hchild (ih hstep)

theorem arrive_mem_tour_iff (h : Bounded nodes depth id) :
    .arrive j ∈ tour nodes depth id ↔ Reaches nodes id j := by
  rw [reaches_iff_follow, ← List.count_pos_iff, Nat.pos_iff_ne_zero,
    ← Nat.cast_ne_zero (R := ℕ∞), ← encard_ways h, Set.encard_ne_zero]
  rfl

end Node

/-! ### Visitors that do not fail -/

/-- The computation gives a value, from whatever state. -/
def Run.Unfailing {ε α : Type} (x : Run ε σ α) : Prop :=
  ∀ s, ∃ a s', x s = (.ok a, s')

/-- The visitor does not stop by itself. -/
structure Visitor.Unfailing (v : Visitor ε σ) : Prop where
  enter : ∀ site, (v.enter site).Unfailing
  type : ∀ t, (v.type t).Unfailing
  placeholder : ∀ index {origin : Run (Fault ε) σ Path} {bounds : Run (Fault ε) σ (List ItemRef)},
    origin.Unfailing → bounds.Unfailing → (v.placeholder index origin bounds).Unfailing

namespace Run

variable {ε α β : Type}

/-- Both sides are the same computation, and it gives a value. -/
abbrev giving (ε σ : Type) : Comparison ε σ ε σ Unit :=
  guarded Unit (fun _ => True) fun _ => False

theorem giving_eq_iff {x : Run ε σ α} {y : Unit → Run ε σ α} :
    (giving ε σ).Holds Eq x y ↔ y () = x ∧ x.Unfailing := by
  constructor
  · intro h
    have hend (s : σ) : GuardedEnd (fun _ => True) (fun _ => False) Eq (x s) (y () s) :=
      h () s trivial
    refine ⟨funext fun s => (hend s).eq.symm, fun s => ?_⟩
    have h := hend s
    generalize x s = out at h ⊢
    generalize y () s = out' at h
    cases h with
    | ok => exact ⟨_, _, rfl⟩
    | error h => exact h.elim
  · rintro ⟨hy, hx⟩ _ s _
    obtain ⟨a, s', has⟩ := hx s
    show GuardedEnd _ _ Eq (x s) (y () s)
    rw [hy, has]
    exact .ok rfl trivial

theorem Unfailing.bind {x : Run ε σ α} {f : α → Run ε σ β} (hx : x.Unfailing)
    (hf : ∀ a, (f a).Unfailing) : (x >>= f).Unfailing := by
  intro s
  obtain ⟨a, s₁, ha⟩ := hx s
  obtain ⟨b, s₂, hb⟩ := hf a s₁
  exact ⟨b, s₂, Run.bind_ok_iff.2 ⟨a, s₁, ha, hb⟩⟩

end Run

namespace Visitor.Unfailing

variable {v : Visitor ε σ} (hv : v.Unfailing)

include hv

theorem alike : v.Alike (Run.giving (Fault ε) σ) fun _ => v where
  enter site := Run.giving_eq_iff.2 ⟨rfl, hv.enter site⟩
  type t := Run.giving_eq_iff.2 ⟨rfl, hv.type t⟩
  placeholder index origin origin' bounds bounds' horigin hbounds := by
    obtain ⟨horigin', horigin⟩ := Run.giving_eq_iff.1 horigin
    obtain ⟨hbounds', hbounds⟩ := Run.giving_eq_iff.1 hbounds
    refine Run.giving_eq_iff.2 ⟨?_, hv.placeholder index horigin hbounds⟩
    rw [horigin', hbounds']

theorem visit_tys (ts : List Ty) : (Ty.visitList v ts).Unfailing :=
  (Run.giving_eq_iff.1 (hv.alike.visit_tys ts)).2

theorem step {step : TourStep} {nodes : List Node} (h : step.id < nodes.length) :
    (step.run v nodes).Unfailing := by
  have hat : Run.ofExcept (σ := σ) (Node.at (ε := ε) nodes step.id) = pure nodes[step.id] :=
    Node.ofExcept_at (List.getElem?_eq_getElem h)
  cases step with
  | arrive id =>
      refine .bind (hv.enter (.node id)) fun _ => ?_
      exact .bind (fun s => ⟨_, s, congrFun hat s⟩) fun _ s => ⟨_, s, rfl⟩
  | written id =>
      refine .bind (fun s => ⟨_, s, congrFun hat s⟩) fun node => ?_
      exact .bind (Run.giving_eq_iff.1 (hv.alike.visit_expr node.expr)).2 fun _ s => ⟨_, s, rfl⟩
  | inferred id =>
      refine .bind (fun s => ⟨_, s, congrFun hat s⟩) fun node => ?_
      exact .bind (Run.giving_eq_iff.1 (hv.alike.visit_ty node.type)).2 fun _ s => ⟨_, s, rfl⟩

theorem step_missing {step : TourStep} {nodes : List Node} (h : nodes.length ≤ step.id) (s : σ) :
    ∃ s', step.run v nodes s = (.error (.outOfBounds nodes.length step.id), s') := by
  have hat : Run.ofExcept (σ := σ) (Node.at (ε := ε) nodes step.id) =
      .stop (.outOfBounds nodes.length step.id) := by
    simp only [Node.at, List.getElem?_eq_none h]
    rfl
  cases step with
  | arrive id =>
      obtain ⟨walked, s', hwalked⟩ := hv.enter (.node id) s
      refine ⟨s', ?_⟩
      show (v.enter (.node id) >>= fun _ => .ofExcept (Node.at nodes id) >>= fun _ => pure nodes) s
        = _
      rw [Run.bind_apply, hwalked]
      exact congrFun (congrArg (· >>= fun _ => pure nodes) hat) s'
  | written id => exact ⟨s, congrFun (congrArg (· >>= _) hat) s⟩
  | inferred id => exact ⟨s, congrFun (congrArg (· >>= _) hat) s⟩

theorem steps {steps : List TourStep} {nodes : List Node}
    (h : ∀ step ∈ steps, step.id < nodes.length) :
    (steps.foldlM (TourStep.run v) nodes).Unfailing := by
  induction steps generalizing nodes with
  | nil => exact fun s => ⟨nodes, s, rfl⟩
  | cons step steps ih =>
      obtain ⟨hstep, hrest⟩ := List.forall_mem_cons.1 h
      intro s
      obtain ⟨nodes₁, s₁, hnodes₁⟩ := hv.step hstep s
      have hlength := Node.length_eq_of_shape (Node.step_ok hnodes₁).1
      obtain ⟨nodes', s', hnodes'⟩ := ih (fun step hstep => hlength ▸ hrest step hstep) s₁
      exact ⟨nodes', s', Run.bind_ok_iff.2 ⟨nodes₁, s₁, hnodes₁, hnodes'⟩⟩

theorem steps_missing {steps : List TourStep} {nodes : List Node}
    (h : ∃ step ∈ steps, nodes.length ≤ step.id) (s : σ) :
    ∃ step ∈ steps, nodes.length ≤ step.id ∧ ∃ s',
      steps.foldlM (TourStep.run v) nodes s =
        (.error (.outOfBounds nodes.length step.id), s') := by
  induction steps generalizing nodes s with
  | nil =>
      obtain ⟨_, ⟨⟩, _⟩ := h
  | cons step steps ih =>
      rw [List.foldlM_cons, Run.bind_apply]
      by_cases hstep : nodes.length ≤ step.id
      · obtain ⟨s', hs'⟩ := hv.step_missing hstep s
        exact ⟨step, List.mem_cons_self, hstep, s', by rw [hs']⟩
      · obtain ⟨nodes₁, s₁, hnodes₁⟩ := hv.step (Nat.lt_of_not_le hstep) s
        have hlength := Node.length_eq_of_shape (Node.step_ok hnodes₁).1
        have hrest : ∃ step ∈ steps, nodes₁.length ≤ step.id := by
          obtain ⟨step', hmem, hstep'⟩ := h
          rcases List.mem_cons.1 hmem with rfl | hmem
          · exact absurd hstep' hstep
          · exact ⟨step', hmem, hlength ▸ hstep'⟩
        obtain ⟨step', hmem, hstep', s', hs'⟩ := ih hrest s₁
        rw [hlength] at hstep' hs'
        exact ⟨step', List.mem_cons_of_mem _ hmem, hstep', s', by rw [hnodes₁]; exact hs'⟩

end Visitor.Unfailing

/-! ### The walk over a body -/

namespace Body

variable {b : Body} {v : Visitor ε σ}

theorem tour_of_node (hb : b.Acyclic) {id : NodeId} (hid : b.Reachable id) {node : Node}
    (hnode : b.nodes[id]? = some node) :
    b.tour id =
      .arrive id :: (node.expr.children.flatMap b.tour ++ [.written id, .inferred id]) := by
  have hbounded : Node.Bounded b.nodes b.nodes.length id :=
    Node.bounded_of_card (fun j hj => hb j (reachable_iff.2 ((reachable_iff.1 hid).trans hj)))
      Node.card_ahead_le
  exact (Node.tour_eq hbounded).trans (Node.tourAt_of_node hnode)

theorem reachable_of_mem_tour {step : TourStep} (h : step ∈ b.tour b.root) :
    b.Reachable step.id :=
  reachable_iff.2 (Node.reaches_of_mem_tour h)

theorem visit_unreached (hb : b.Acyclic) (hv : v.EntersNodes) {b' : Body} {s s' : σ}
    (h : b.visit v s = (.ok b', s')) {id : NodeId} (hid : ¬ b.Reachable id) :
    b'.nodes[id]? = b.nodes[id]? := by
  rw [visit_eq_tour hv hb] at h
  obtain ⟨_, _, _, h⟩ := Run.bind_ok_iff.1 h
  obtain ⟨nodes, _, hnodes, h⟩ := Run.bind_ok_iff.1 h
  obtain ⟨_, _, _, h⟩ := Run.bind_ok_iff.1 h
  obtain ⟨_, _, _, h⟩ := Run.bind_ok_iff.1 h
  cases h
  exact (Node.steps_ok hnodes).2 id fun step hstep hsame =>
    hid (hsame ▸ reachable_of_mem_tour hstep)

theorem visit_unfailing (hb : b.Acyclic) (hv : v.EntersNodes) (hfail : v.Unfailing)
    (hbounds : ∀ id, b.Reachable id → id < b.nodes.length) : (b.visit v).Unfailing := by
  rw [visit_eq_tour hv hb]
  refine .bind (hfail.enter _) fun _ => .bind ?_ fun _ => ?_
  · exact hfail.steps fun step hstep => hbounds _ (reachable_of_mem_tour hstep)
  · exact .bind (hfail.visit_tys _) fun _ => .bind (hfail.visit_tys _) fun _ s => ⟨_, s, rfl⟩

theorem visit_missing (hb : b.Acyclic) (hv : v.EntersNodes) (hfail : v.Unfailing) {j : NodeId}
    (hj : b.Reachable j) (hbounds : b.nodes.length ≤ j) (s : σ) :
    ∃ id s', b.Reachable id ∧ b.nodes.length ≤ id ∧
      b.visit v s = (.error (.outOfBounds b.nodes.length id), s') := by
  have hstep : ∃ step ∈ b.tour b.root, b.nodes.length ≤ step.id :=
    ⟨_, (Node.arrive_mem_tour_iff hb.bounded).2 (reachable_iff.1 hj), hbounds⟩
  obtain ⟨_, s₁, hs₁⟩ := hfail.enter (.body b.root) s
  obtain ⟨step, hmem, hbounds', s', hs'⟩ := hfail.steps_missing hstep s₁
  refine ⟨step.id, s', reachable_of_mem_tour hmem, hbounds', ?_⟩
  have hwalk (rest : List Node → Run (Fault ε) σ Body) :
      ((b.tour b.root).foldlM (TourStep.run v) b.nodes >>= rest) s₁ =
        (.error (.outOfBounds b.nodes.length step.id), s') := by
    rw [Run.bind_apply, hs']
  rw [visit_eq_tour hv hb, Run.bind_apply, hs₁]
  exact hwalk _

/-- The walk over a body that does not refer back to itself comes to the nodes in reach of the
root and to no others, to each of them once for each way that leads to it. It visits the parts
of a node in order before the types of the node, those that are written in it from left to right
and the inferred one last, and all nodes before the types of the local variables and the
templates. If the visitor does not fail then the walk is
completed, unless there is a position in reach that does not exist. Then it ends at one. -/
theorem visit_once_per_way (hb : b.Acyclic) (hv : v.EntersNodes) :
    (∀ id, {way | b.follow b.root way = some id}.encard =
      ((b.tour b.root).count (.arrive id) : ℕ)) ∧
    (∀ id, .arrive id ∈ b.tour b.root ↔ b.Reachable id) ∧
    (∀ step ∈ b.tour b.root, b.Reachable step.id) ∧
    (∀ id node, b.Reachable id → b.nodes[id]? = some node →
      b.tour id =
        .arrive id :: (node.expr.children.flatMap b.tour ++ [.written id, .inferred id])) ∧
    (b.visit v = (do
      let _ ← v.enter (.body b.root)
      let nodes ← (b.tour b.root).foldlM (TourStep.run v) b.nodes
      let bindings ← Ty.visitList v b.bindings
      let templates ← Ty.visitList v b.templates
      pure { b with nodes, bindings, templates })) ∧
    (∀ id nodes node, nodes[id]? = some node →
      Node.writtenAt id <$> (TourStep.written id).run v nodes =
        some <$> node.expr.written.mapM (Written.visit v)) ∧
    (v.EntersAll → ∀ id nodes node, nodes[id]? = some node →
      Node.partsAt id <$> [TourStep.written id, .inferred id].foldlM (TourStep.run v) nodes =
        some <$> Ty.visitList v node.parts) ∧
    (∀ s b' s', b.visit v s = (.ok b', s') →
      ∀ id, ¬ b.Reachable id → b'.nodes[id]? = b.nodes[id]?) ∧
    (v.Unfailing →
      ((∀ id, b.Reachable id → id < b.nodes.length) → (b.visit v).Unfailing) ∧
      ∀ j, b.Reachable j → b.nodes.length ≤ j → ∀ s, ∃ id s', b.Reachable id ∧
        b.nodes.length ≤ id ∧
        b.visit v s = (.error (.outOfBounds b.nodes.length id), s')) := by
  refine ⟨fun id => Node.encard_ways hb.bounded, fun id => ?_,
    fun step hstep => reachable_of_mem_tour hstep, fun id node hid hnode => ?_,
    visit_eq_tour hv hb, fun id nodes node => Node.writtenAt_written,
    fun hall id nodes node => Node.partsAt_steps hall,
    fun s b' s' h id hid => visit_unreached hb hv h hid, fun hfail => ?_⟩
  · rw [reachable_iff]
    exact Node.arrive_mem_tour_iff hb.bounded
  · exact tour_of_node hb hid hnode
  · exact ⟨visit_unfailing hb hv hfail, fun j hj hbounds => visit_missing hb hv hfail hj hbounds⟩

theorem acyclic_of_forward (h : ∀ p ∈ b.nodes.zipIdx, ∀ child ∈ p.1.expr.children, p.2 < child) :
    b.Acyclic := by
  have hlt (id child : NodeId) (hrefers : Node.Refers b.nodes id child) : id < child := by
    obtain ⟨node, hnode, hchild⟩ := hrefers
    exact h (node, id) (List.mem_zipIdx_iff_getElem?.2 hnode) child hchild
  intro id _ hcircle
  have hself : Relation.TransGen (· < ·) id id := Relation.TransGen.mono hlt id id hcircle
  rw [Relation.transGen_eq_self] at hself
  exact Nat.lt_irrefl id hself

end Body

namespace Sample

/-- The tuple `(x, x as i64, x)`, in which all three elements share the node of `x`. A node
behind it is not used. -/
def shared : Body :=
  ⟨[⟨.tuple [2, 1, 2], .tuple [.prim .i32, .prim .i64, .prim .i32]⟩,
    ⟨.cast 2 (.prim .i64), .prim .i64⟩, ⟨.lit (.int 1), .prim .i32⟩, ⟨.ret none, .never⟩],
    0, [], []⟩

example : shared.tour 0 =
    [.arrive 0, .arrive 2, .written 2, .inferred 2, .arrive 1, .arrive 2, .written 2, .inferred 2,
      .written 1, .inferred 1, .arrive 2, .written 2, .inferred 2, .written 0, .inferred 0] := by
  decide

/-- A node that refers to one that does not exist. -/
def dangling : Body :=
  ⟨[⟨.ret (some 5), .never⟩], 0, [], []⟩

/-- Everything is told to the log, and nothing is replaced or left out. -/
def recorder : Visitor Ty (Array LogEntry) :=
  LogSettings.bodyVisitor ⟨.all, true, fun _ => none, fun _ => false, fun _ => false⟩

theorem recorder_entersNodes : recorder.EntersNodes where
  body _ _ _ _ h := by
    cases h
    rfl
  node _ _ _ _ h := by
    cases h
    rfl

theorem recorder_unfailing : recorder.Unfailing where
  enter _ _ := ⟨_, _, rfl⟩
  type _ _ := ⟨_, _, rfl⟩
  placeholder _ _ _ horigin hbounds :=
    .bind horigin fun _ => .bind hbounds fun _ s => ⟨_, s, rfl⟩

theorem idle_entersNodes : Visitor.idle.EntersNodes where
  body _ _ _ _ h := by
    cases h
    rfl
  node _ _ _ _ h := by
    cases h
    rfl

theorem shared_inBounds {id : NodeId} (h : shared.Reachable id) : id < 4 := by
  cases h with
  | root => exact Nat.zero_lt_succ 3
  | part _ hrefers =>
      obtain ⟨node, hnode, hchild⟩ := hrefers
      have hbounds : ∀ node ∈ shared.nodes, ∀ child ∈ node.expr.children, child < 4 := by decide
      exact hbounds node (List.mem_of_getElem? hnode) id hchild

end Sample

namespace Body

open Sample in
/-- The node that three elements share is visited three times, and the walk is completed. At the
cast, the type that is written and the inferred one are visited. From the node that refers to a
missing one the walk is not completed. -/
theorem visit_once_per_way_shared :
    (shared.Acyclic ∧ recorder.EntersNodes ∧ recorder.Unfailing ∧
      (∀ id, shared.Reachable id → id < shared.nodes.length) ∧
      {way | shared.follow shared.root way = some 2}.encard = (3 : ℕ) ∧
      (shared.visit recorder).Unfailing) ∧
    (Visitor.idle.EntersNodes ∧ Visitor.idle.EntersAll ∧
      Node.partsAt 1 <$>
          [TourStep.written 1, .inferred 1].foldlM (TourStep.run .idle) shared.nodes =
        some <$> Ty.visitList .idle [.prim .i64, .prim .i64]) ∧
    dangling.Acyclic ∧ dangling.Reachable 5 ∧ dangling.nodes.length ≤ 5 ∧
      ∀ s, ∃ id s', dangling.Reachable id ∧ 1 ≤ id ∧
        dangling.visit recorder s = (.error (.outOfBounds 1 id), s') := by
  have hshared : shared.Acyclic := acyclic_of_forward (by decide)
  have hdangling : dangling.Acyclic := acyclic_of_forward (by decide)
  have hreach : dangling.Reachable 5 := .part .root ⟨_, rfl, List.mem_singleton_self 5⟩
  obtain ⟨hways, -, -, -, -, -, -, -, hends⟩ := visit_once_per_way hshared recorder_entersNodes
  obtain ⟨-, -, -, -, -, -, htypes, -⟩ := visit_once_per_way hshared idle_entersNodes
  obtain ⟨-, -, -, -, -, -, -, -, hmissing⟩ := visit_once_per_way hdangling recorder_entersNodes
  refine ⟨⟨hshared, recorder_entersNodes, recorder_unfailing, fun _ h => shared_inBounds h,
    hways 2, (hends recorder_unfailing).1 fun _ h => shared_inBounds h⟩,
    ⟨idle_entersNodes, fun _ => rfl, htypes (fun _ => rfl) 1 shared.nodes _ rfl⟩,
    hdangling, hreach, by decide, (hmissing recorder_unfailing).2 5 hreach (by decide)⟩

end Body

end Unerase
