import Unerase.Proofs.Walk.Ending
import Unerase.Proofs.Walk.Hooks
import Unerase.Proofs.Walk.Written

/-!
The walk over a body that does not refer back to itself, as a list of steps. Which steps
these are and in which order follows from the parts of the nodes alone, and the visitor has
no part in it (`Node.tour`). If the visitor does not turn away from nodes then the walk takes
the steps one after the other, whatever it leaves in the place of types
(`Node.visitWithin_eq_tour`).
-/

namespace Unerase

variable {ε σ : Type}

/-- What the walk over a body does at one of its nodes. -/
inductive TourStep where
  /-- The visitor is told of the node. -/
  | arrive (id : NodeId)
  /-- The types are visited that are written in the node. -/
  | written (id : NodeId)
  /-- The type is visited that was inferred for the node. -/
  | inferred (id : NodeId)
deriving DecidableEq

namespace TourStep

/-- The node at which the step is taken. -/
def id : TourStep → NodeId
  | arrive id | written id | inferred id => id

/-- Takes the step. The node is looked up among those that the steps before have left. -/
def run (v : Visitor ε σ) (nodes : List Node) : TourStep → Run (Fault ε) σ (List Node)
  | arrive id => do
      let _ ← v.enter (.node id)
      let _ ← Run.ofExcept (Node.at nodes id)
      pure nodes
  | written id => do
      let node ← .ofExcept (Node.at nodes id)
      let expr ← node.expr.visit v
      pure (nodes.set id { node with expr })
  | inferred id => do
      let node ← .ofExcept (Node.at nodes id)
      let type ← node.type.visit v
      pure (nodes.set id { node with type })

end TourStep

/-- The visitor does not turn away from a body or a node that it is told of. -/
structure Visitor.EntersNodes (v : Visitor ε σ) : Prop where
  body : ∀ root s walked s', v.enter (.body root) s = (.ok walked, s') → walked = true
  node : ∀ id s walked s', v.enter (.node id) s = (.ok walked, s') → walked = true

namespace Node

/-- The steps at a node, with those at its parts in between. There is only one step at a node
that does not exist. -/
def tourAt (nodes : List Node) (descend : NodeId → List TourStep) (id : NodeId) :
    List TourStep :=
  match nodes[id]? with
  | some node =>
      .arrive id :: (node.expr.children.flatMap descend ++ [.written id, .inferred id])
  | none => [.arrive id]

/-- The steps at a node, at its parts, at their parts and so on, down to some depth. -/
def tour (nodes : List Node) : (depth : Nat) → NodeId → List TourStep
  | 0, id => tourAt nodes (fun _ => []) id
  | depth + 1, id => tourAt nodes (tour nodes depth) id

/-- The parts of all nodes, which a walk does not change. -/
def shape (nodes : List Node) : List (List NodeId) :=
  nodes.map fun node => node.expr.children

/-- What is written in the expression at a position. -/
def writtenAt (id : NodeId) (nodes : List Node) : Option (List Written) :=
  nodes[id]?.map fun node => node.expr.written

/-- The types of the node at a position. -/
def partsAt (id : NodeId) (nodes : List Node) : Option (List Ty) :=
  nodes[id]?.map parts

end Node

/-- All steps of the walk from a node of the body on. No way has more steps than there are
nodes, so this is deep enough. -/
def Body.tour (b : Body) (id : NodeId) : List TourStep :=
  Node.tour b.nodes b.nodes.length id

namespace Node

variable {nodes nodes₀ : List Node} {id child : NodeId} {depth : Nat}

/-! ### The depth of a tour -/

theorem tourAt_of_node {node : Node} {descend : NodeId → List TourStep}
    (hnode : nodes[id]? = some node) :
    tourAt nodes descend id =
      .arrive id :: (node.expr.children.flatMap descend ++ [.written id, .inferred id]) := by
  rw [tourAt, hnode]

theorem tourAt_of_missing {descend : NodeId → List TourStep} (hnode : nodes[id]? = none) :
    tourAt nodes descend id = [.arrive id] := by
  rw [tourAt, hnode]

theorem tourAt_congr {f g : NodeId → List TourStep}
    (h : ∀ child, Refers nodes id child → f child = g child) :
    tourAt nodes f id = tourAt nodes g id := by
  cases hnode : nodes[id]? with
  | none => rw [tourAt_of_missing hnode, tourAt_of_missing hnode]
  | some node =>
      have hparts : node.expr.children.flatMap f = node.expr.children.flatMap g :=
        List.flatMap_congr fun child hchild => h child ⟨node, hnode, hchild⟩
      rw [tourAt_of_node hnode, tourAt_of_node hnode, hparts]

theorem tour_eq (h : Bounded nodes depth id) :
    tour nodes depth id = tourAt nodes (tour nodes depth) id := by
  induction depth generalizing id with
  | zero => exact tourAt_congr fun child hchild => absurd hchild (h child)
  | succ depth ih => exact tourAt_congr fun child hchild => ih (h child hchild)

/-! ### What a step keeps -/

theorem length_eq_of_shape (h : shape nodes = shape nodes₀) : nodes.length = nodes₀.length := by
  simpa [shape] using congrArg List.length h

theorem getElem?_of_shape (h : shape nodes = shape nodes₀) (id : NodeId) :
    nodes[id]?.map (·.expr.children) = nodes₀[id]?.map (·.expr.children) := by
  simpa [shape] using congrArg (·[id]?) h

theorem exists_node_of_shape (h : shape nodes = shape nodes₀) {node₀ : Node}
    (hnode₀ : nodes₀[id]? = some node₀) :
    ∃ node, nodes[id]? = some node ∧ node.expr.children = node₀.expr.children := by
  simpa [hnode₀] using getElem?_of_shape h id

theorem missing_of_shape (h : shape nodes = shape nodes₀) (hnode₀ : nodes₀[id]? = none) :
    nodes[id]? = none := by
  simpa [hnode₀] using getElem?_of_shape h id

theorem shape_set {node node' : Node} (hnode : nodes[id]? = some node)
    (h : node'.expr.children = node.expr.children) : shape (nodes.set id node') = shape nodes := by
  obtain ⟨hid, rfl⟩ := List.getElem?_eq_some_iff.1 hnode
  calc shape (nodes.set id node')
      = (shape nodes).set id nodes[id].expr.children := by rw [shape, List.map_set, h, shape]
    _ = shape (nodes.set id nodes[id]) := List.map_set.symm
    _ = shape nodes := by rw [List.set_getElem_self hid]

end Node

theorem Expr.children_of_visit {v : Visitor ε σ} {e e' : Expr} {s s' : σ}
    (h : e.visit v s = (.ok e', s')) : e'.children = e.children := by
  cases e with
  | letIn _ _ _ | cast _ _ | pathValue _ | callPath _ _ | callMethod _ _ _ _ | struct _ _ =>
      obtain ⟨_, rfl⟩ := Run.exists_of_map_ok h
      rfl
  | closure _ _ _ =>
      obtain ⟨_, _, _, h⟩ := Run.bind_ok_iff.1 h
      obtain ⟨_, rfl⟩ := Run.exists_of_map_ok h
      rfl
  | _ =>
      cases h
      rfl

namespace Node

variable {nodes nodes₀ nodes' : List Node} {id child : NodeId} {v : Visitor ε σ} {s s' : σ}

theorem step_ok {step : TourStep} (h : step.run v nodes s = (.ok nodes', s')) :
    shape nodes' = shape nodes ∧ ∀ j, j ≠ step.id → nodes'[j]? = nodes[j]? := by
  cases step with
  | arrive id =>
      obtain ⟨_, _, _, h⟩ := Run.bind_ok_iff.1 h
      obtain ⟨_, _, _, h⟩ := Run.bind_ok_iff.1 h
      cases h
      exact ⟨rfl, fun _ _ => rfl⟩
  | written id =>
      obtain ⟨node, _, hnode, h⟩ := Run.bind_ok_iff.1 h
      obtain ⟨expr, _, hexpr, h⟩ := Run.bind_ok_iff.1 h
      cases h
      exact ⟨shape_set (at_ok hnode) (Expr.children_of_visit hexpr),
        fun j hj => List.getElem?_set_ne (Ne.symm hj)⟩
  | inferred id =>
      obtain ⟨node, _, hnode, h⟩ := Run.bind_ok_iff.1 h
      obtain ⟨type, _, _, h⟩ := Run.bind_ok_iff.1 h
      cases h
      exact ⟨shape_set (at_ok hnode) rfl, fun j hj => List.getElem?_set_ne (Ne.symm hj)⟩

theorem steps_ok {steps : List TourStep}
    (h : steps.foldlM (TourStep.run v) nodes s = (.ok nodes', s')) :
    shape nodes' = shape nodes ∧
      ∀ j, (∀ step ∈ steps, step.id ≠ j) → nodes'[j]? = nodes[j]? := by
  induction steps generalizing nodes s with
  | nil =>
      cases h
      exact ⟨rfl, fun _ _ => rfl⟩
  | cons step steps ih =>
      rw [List.foldlM_cons] at h
      obtain ⟨nodes₁, s₁, hstep, h⟩ := Run.bind_ok_iff.1 h
      obtain ⟨hshape, hothers⟩ := step_ok hstep
      obtain ⟨hshape', hothers'⟩ := ih h
      refine ⟨hshape'.trans hshape, fun j hj => ?_⟩
      obtain ⟨hne, hnes⟩ := List.forall_mem_cons.1 hj
      exact (hothers' j hnes).trans (hothers j (Ne.symm hne))

/-! ### The walk takes the steps -/

theorem visit_eq_steps {node : Node} (h : nodes[id]? = some node) :
    (node.visit v >>= fun node => pure (nodes.set id node)) =
      [TourStep.written id, .inferred id].foldlM (TourStep.run v) nodes := by
  have hid : id < nodes.length := (List.getElem?_eq_some_iff.1 h).1
  have hat (node' : Node) : (nodes.set id node')[id]? = some node' :=
    List.getElem?_set_self hid
  simp only [List.foldlM_cons, List.foldlM_nil, TourStep.run, Node.visit, ofExcept_at h,
    pure_bind, bind_assoc, bind_pure, ofExcept_at (hat _), List.set_set]

theorem foldlM_eq_steps {descend : List Node → NodeId → Run (Fault ε) σ (List Node)}
    {steps : NodeId → List TourStep} {children : List NodeId}
    (hdescend : ∀ child ∈ children, ∀ nodes, shape nodes = shape nodes₀ →
      descend nodes child = (steps child).foldlM (TourStep.run v) nodes)
    (h : shape nodes = shape nodes₀) :
    children.foldlM descend nodes =
      (children.flatMap steps).foldlM (TourStep.run v) nodes := by
  induction children generalizing nodes with
  | nil => rfl
  | cons child children ih =>
      obtain ⟨hchild, hrest⟩ := List.forall_mem_cons.1 hdescend
      rw [List.foldlM_cons, List.flatMap_cons, List.foldlM_append, hchild nodes h]
      exact Run.bind_congr_ok fun s nodes' s' hsteps => ih hrest ((steps_ok hsteps).1.trans h)

theorem visitAt_eq_steps (hv : v.EntersNodes)
    {descend : List Node → NodeId → Run (Fault ε) σ (List Node)} {steps : NodeId → List TourStep}
    (hdescend : ∀ child, Refers nodes₀ id child → ∀ nodes, shape nodes = shape nodes₀ →
      descend nodes child = (steps child).foldlM (TourStep.run v) nodes)
    (h : shape nodes = shape nodes₀) :
    visitAt v descend nodes id = (tourAt nodes₀ steps id).foldlM (TourStep.run v) nodes := by
  have henter (walk : Run (Fault ε) σ (List Node)) :
      v.within (.node id) nodes walk = v.enter (.node id) >>= fun _ => walk := by
    refine Run.bind_congr_ok fun s walked s' hwalked => ?_
    rw [hv.node id s walked s' hwalked, if_pos rfl]
  rw [visitAt, henter]
  cases hnode₀ : nodes₀[id]? with
  | none =>
      rw [tourAt_of_missing hnode₀]
      simp only [List.foldlM_cons, List.foldlM_nil, TourStep.run, Node.at,
        missing_of_shape h hnode₀, bind_assoc]
      rfl
  | some node₀ =>
      obtain ⟨node, hnode, hsame⟩ := exists_node_of_shape h hnode₀
      have hparts := foldlM_eq_steps (fun child hchild => hdescend child ⟨node₀, hnode₀, hchild⟩) h
      have harrive : TourStep.run v nodes (.arrive id) =
          v.enter (.node id) >>= fun _ => pure nodes := by
        simp only [TourStep.run, ofExcept_at hnode, pure_bind]
      rw [tourAt_of_node hnode₀, List.foldlM_cons, harrive]
      simp only [List.foldlM_append, ofExcept_at hnode, pure_bind, bind_assoc, hsame, hparts]
      refine bind_congr fun _ => Run.bind_congr_ok fun s nodes' s' hsteps => ?_
      -- The parts of the node have been walked, and it is looked up again behind them.
      obtain ⟨node', hnode', -⟩ := exists_node_of_shape ((steps_ok hsteps).1.trans h) hnode₀
      rw [ofExcept_at hnode', pure_bind]
      exact visit_eq_steps hnode'

/-- The step shows what is written in the expression, from left to right, and leaves there what
the visits leave. -/
theorem writtenAt_written {node : Node} (h : nodes[id]? = some node) :
    writtenAt id <$> (TourStep.written id).run v nodes =
      some <$> node.expr.written.mapM (Written.visit v) := by
  have hid : id < nodes.length := (List.getElem?_eq_some_iff.1 h).1
  have hat (node' : Node) : writtenAt id (nodes.set id node') = some node'.expr.written := by
    rw [writtenAt, List.getElem?_set_self hid, Option.map_some]
  simp [TourStep.run, ofExcept_at h, hat, ← Expr.visit_written]

/-- A visitor that walks every part is shown all types of the node by its last two steps. -/
theorem partsAt_steps (hv : v.EntersAll) {node : Node} (h : nodes[id]? = some node) :
    partsAt id <$> [TourStep.written id, .inferred id].foldlM (TourStep.run v) nodes =
      some <$> Ty.visitList v node.parts := by
  have hid : id < nodes.length := (List.getElem?_eq_some_iff.1 h).1
  have hat (node' : Node) : partsAt id (nodes.set id node') = some node'.parts := by
    rw [partsAt, List.getElem?_set_self hid, Option.map_some]
  rw [← visit_eq_steps h]
  simp [hat, ← Node.visit_parts hv]

theorem visitWithin_eq_tour (hv : v.EntersNodes) {depth deeper : Nat}
    (hdepth : Bounded nodes₀ depth id) (hle : depth ≤ deeper) (h : shape nodes = shape nodes₀) :
    visitWithin v deeper nodes id =
      (tour nodes₀ depth id).foldlM (TourStep.run v) nodes := by
  induction depth generalizing nodes id deeper with
  | zero =>
      cases deeper <;>
        exact visitAt_eq_steps hv (fun child hchild => absurd hchild (hdepth child)) h
  | succ depth ih =>
      obtain ⟨d, rfl⟩ : ∃ d, deeper = d + 1 := ⟨deeper - 1, by omega⟩
      exact visitAt_eq_steps hv
        (fun child hchild nodes hnodes => ih (hdepth child hchild) (by omega) hnodes) h

end Node

/-- The walk over a body that does not refer back to itself takes all steps of the tour from
the root, and what comes behind the nodes it visits after them. -/
theorem Body.visit_eq_tour {v : Visitor ε σ} (hv : v.EntersNodes) {b : Body} (hb : b.Acyclic) :
    b.visit v = (do
      let _ ← v.enter (.body b.root)
      let nodes ← (b.tour b.root).foldlM (TourStep.run v) b.nodes
      let bindings ← Ty.visitList v b.bindings
      let templates ← Ty.visitList v b.templates
      pure { b with nodes, bindings, templates }) := by
  have hnodes : Node.visitWithin v (b.depthFor v) b.nodes b.root =
      (b.tour b.root).foldlM (TourStep.run v) b.nodes :=
    Node.visitWithin_eq_tour hv hb.bounded (Nat.le_add_right b.nodes.length v.patience) rfl
  rw [Body.visit, hnodes]
  refine Run.bind_congr_ok fun s walked s' hwalked => ?_
  rw [hv.body b.root s walked s' hwalked, if_pos rfl]

end Unerase
