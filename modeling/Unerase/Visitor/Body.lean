import Unerase.Visitor.Ty

/-!
The walk over a body. It starts at the root and visits the parts of a node before
the node itself, so a node that is shared is visited once for each way that leads
to it. After the nodes come the types of the local variables and the templates.

In a body that refers back to itself the walk goes round and round, and each round
may find types that the round before has left. It ends when the visitor stops it,
or else as endless, once the visitor's patience is used up. Up to its end the walk
is the same for every patience (`Node.visitWithin_eq_of_le`).
-/

namespace Unerase

variable {ε σ : Type}

/-- Visits the types that are written in an expression itself. -/
def Expr.visit (v : Visitor ε σ) : Expr → Run (Fault ε) σ Expr
  | .letIn binding type value => do
      let type ← type.visit v
      pure (.letIn binding type value)
  | .cast value type => do
      let type ← type.visit v
      pure (.cast value type)
  | .pathValue path => do
      let path ← path.visit v
      pure (.pathValue path)
  | .callPath path args => do
      let path ← path.visit v
      pure (.callPath path args)
  | .callMethod receiver method args path => do
      let path ← path.visit v
      pure (.callMethod receiver method args path)
  | .struct target fields => do
      let target ← target.visit v
      pure (.struct target fields)
  | .closure args result body => do
      let args ← TypedName.visitList v args
      let result ← result.visit v
      pure (.closure args result body)
  | .block stmts tail => pure (.block stmts tail)
  | .ret value => pure (.ret value)
  | .ite cond yes no => pure (.ite cond yes no)
  | .lit value => pure (.lit value)
  | .var name binding => pure (.var name binding)
  | .field value name => pure (.field value name)
  | .tuple elems => pure (.tuple elems)

/-- Visits the types of a node, the inferred one last. -/
def Node.visit (v : Visitor ε σ) (node : Node) : Run (Fault ε) σ Node := do
  let expr ← node.expr.visit v
  let type ← node.type.visit v
  pure ⟨expr, type⟩

/-- Visits the node at a position after its parts, each of which is visited by
`descend`. Parts and node are looked up where they are needed, because visiting a
part may change nodes that are shared. -/
def Node.visitAt (v : Visitor ε σ)
    (descend : List Node → NodeId → Run (Fault ε) σ (List Node))
    (nodes : List Node) (id : NodeId) : Run (Fault ε) σ (List Node) :=
  v.within (.node id) nodes do
    let node ← .ofExcept (Node.at nodes id)
    let nodes ← node.expr.children.foldlM descend nodes
    let node ← .ofExcept (Node.at nodes id)
    let node ← node.visit v
    pure (nodes.set id node)

/-- Visits the node at a position, its parts, their parts and so on for at most
`depth` steps. A way that goes on after that is taken to be endless. -/
def Node.visitWithin (v : Visitor ε σ) :
    (depth : Nat) → List Node → NodeId → Run (Fault ε) σ (List Node)
  | 0, nodes, id => Node.visitAt v (fun _ _ => .stop .endless) nodes id
  | depth + 1, nodes, id => Node.visitAt v (Node.visitWithin v depth) nodes id

/-- How many steps a way in the body may have. Without coming back to a node it has
fewer than there are nodes, and the rest is the visitor's patience. -/
def Body.depthFor (v : Visitor ε σ) (b : Body) : Nat :=
  b.nodes.length + v.patience

/-- Visits a body: its nodes from the root on, then the types of local variables and the
templates. -/
def Body.visit (v : Visitor ε σ) (b : Body) : Run (Fault ε) σ Body :=
  v.within (.body b.root) b do
    let nodes ← Node.visitWithin v (b.depthFor v) b.nodes b.root
    let bindings ← Ty.visitList v b.bindings
    let templates ← Ty.visitList v b.templates
    pure { b with nodes, bindings, templates }

/-- `y` does what `x` does wherever `x` comes to an end. -/
def Run.Continues {α : Type} (y x : Run (Fault ε) σ α) : Prop :=
  ∀ s, (x s).1 ≠ .error .endless → y s = x s

theorem Run.Continues.bind {α β : Type} {x y : Run (Fault ε) σ α}
    {f g : α → Run (Fault ε) σ β} (hx : y.Continues x)
    (hf : ∀ a, (g a).Continues (f a)) : (y >>= g).Continues (x >>= f) := by
  intro s hs
  have hxs := hx s
  rw [Run.bind_apply] at hs
  rw [Run.bind_apply, Run.bind_apply]
  revert hs hxs
  cases x s with
  | mk r s' =>
      intro hs hxs
      cases r with
      | error fault =>
          have hne : (Except.error fault : Except (Fault ε) α) ≠ .error .endless := by
            intro h
            cases h
            exact hs rfl
          rw [hxs hne]
      | ok a =>
          rw [hxs (by simp)]
          exact hf a s' hs

theorem Run.Continues.refl {α : Type} (x : Run (Fault ε) σ α) : x.Continues x :=
  fun _ _ => rfl

theorem Run.Continues.foldlM {α β : Type} {f g : β → α → Run (Fault ε) σ β}
    (h : ∀ b a, (g b a).Continues (f b a)) (as : List α) (b : β) :
    (as.foldlM g b).Continues (as.foldlM f b) := by
  induction as generalizing b with
  | nil => exact .refl _
  | cons a as ih => exact (h b a).bind fun b => ih b

theorem Node.visitAt_continues (v : Visitor ε σ)
    {f g : List Node → NodeId → Run (Fault ε) σ (List Node)}
    (h : ∀ nodes id, (g nodes id).Continues (f nodes id)) (nodes : List Node)
    (id : NodeId) :
    (Node.visitAt v g nodes id).Continues (Node.visitAt v f nodes id) := by
  refine .bind (.refl _) fun walked => ?_
  cases walked with
  | false => exact .refl _
  | true =>
      refine .bind (.refl _) fun node => ?_
      exact .bind (.foldlM h _ _) fun nodes => .refl _

theorem Node.visitWithin_succ_continues (v : Visitor ε σ) (depth : Nat)
    (nodes : List Node) (id : NodeId) :
    (Node.visitWithin v (depth + 1) nodes id).Continues
      (Node.visitWithin v depth nodes id) := by
  induction depth generalizing nodes id with
  | zero =>
      exact Node.visitAt_continues v (fun _ _ _ hs => absurd rfl hs) nodes id
  | succ depth ih => exact Node.visitAt_continues v ih nodes id

/-- A walk that comes to an end within some depth goes the same way within any
larger one. -/
theorem Node.visitWithin_eq_of_le (v : Visitor ε σ) {depth deeper : Nat}
    (hle : depth ≤ deeper) (nodes : List Node) (id : NodeId) (s : σ)
    (hs : (Node.visitWithin v depth nodes id s).1 ≠ .error .endless) :
    Node.visitWithin v deeper nodes id s = Node.visitWithin v depth nodes id s := by
  induction hle with
  | refl => rfl
  | step _ ih =>
      rw [← ih]
      exact Node.visitWithin_succ_continues v _ nodes id s (by rw [ih]; exact hs)

end Unerase
