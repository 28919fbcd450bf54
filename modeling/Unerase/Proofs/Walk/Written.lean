import Unerase.Proofs.Relation.Parts
import Unerase.Proofs.Walk.Ty
import Unerase.Visitor.Body

namespace Unerase

variable {ε σ : Type}

/-- What is written at one place of an expression. -/
inductive Written where
  | type (t : Ty)
  | path (p : Path)
  | itemRef (r : ItemRef)

namespace Written

/-- Visits what is written, by the walk for its kind. -/
def visit (v : Visitor ε σ) : Written → Run (Fault ε) σ Written
  | type t => type <$> t.visit v
  | path p => path <$> p.visit v
  | itemRef r => itemRef <$> r.visit v

/-- The types that a walk hands out from it. -/
def parts : Written → List Ty
  | type t => [t]
  | path p => p.parts
  | itemRef r => r.parts

end Written

def TypedName.written (a : TypedName) : Written :=
  .type a.type

/-- What is written in an expression itself, from left to right. -/
def Expr.written : Expr → List Written
  | letIn _ t _ | cast _ t => [.type t]
  | pathValue p | callPath p _ | callMethod _ _ _ p => [.path p]
  | struct r _ => [.itemRef r]
  | closure args result _ => args.map TypedName.written ++ [.type result]
  | block .. | ret _ | ite .. | lit _ | var .. | field .. | tuple _ => []

theorem Expr.parts_eq_flatMap (e : Expr) : e.parts = e.written.flatMap Written.parts := by
  have htypes (args : List TypedName) :
      args.map TypedName.type = (args.map TypedName.written).flatMap Written.parts := by
    rw [List.flatMap_map]
    exact List.map_eq_flatMap
  cases e <;> simp [parts, written, Written.parts, htypes]

theorem TypedName.visit_written (v : Visitor ε σ) (args : List TypedName) :
    List.map written <$> visitList v args = (args.map written).mapM (Written.visit v) := by
  induction args with
  | nil => rfl
  | cons a args ih =>
      simp only [visitList, List.map_cons, List.mapM_cons, ← ih, written, Written.visit]
      simp [written]

/-- What is written in an expression is visited from left to right, and the expression that
comes out has written in it what the visits leave. -/
theorem Expr.visit_written (v : Visitor ε σ) (e : Expr) :
    written <$> e.visit v = e.written.mapM (Written.visit v) := by
  cases e with
  | closure args result body =>
      simp only [written, List.mapM_append, ← TypedName.visit_written]
      simp [visit, written, Written.visit]
  | _ => simp [visit, written, Written.visit]

section Types

variable {v : Visitor ε σ}

theorem Ty.visitList_append (ts us : List Ty) :
    visitList v (ts ++ us) = (do
      let ts ← visitList v ts
      let us ← visitList v us
      pure (ts ++ us)) := by
  induction ts with
  | nil => simp [visitList]
  | cons t ts ih => simp [visitList, ih]

variable (hv : v.EntersAll)

include hv

theorem Args.visit_types (a : Args) : types <$> a.visit v = Ty.visitList v a.types := by
  obtain ⟨types, consts⟩ := a
  simp [visit, hv.within]

theorem ItemRef.visit_parts (r : ItemRef) : parts <$> r.visit v = Ty.visitList v r.parts := by
  obtain ⟨name, args⟩ := r
  simp [visit, hv.within, parts, ← Args.visit_types hv]

theorem Path.visit_parts (p : Path) : parts <$> p.visit v = Ty.visitList v p.parts := by
  cases p with
  | item target => simp [visit, hv.within, parts, ← ItemRef.visit_parts hv]
  | inherent self name args =>
      simp [visit, hv.within, parts, Ty.visitList, ← Args.visit_types hv]
  | known self trait name args =>
      simp [visit, hv.within, parts, Ty.visitList, Ty.visitList_append,
        ← ItemRef.visit_parts hv, ← Args.visit_types hv]
  | unknown self name args =>
      simp [visit, hv.within, parts, Ty.visitList, ← Args.visit_types hv]

theorem Written.visit_parts (w : Written) :
    parts <$> w.visit v = Ty.visitList v w.parts := by
  cases w with
  | type t => simp [visit, parts, Ty.visitList]
  | path p => simp [visit, parts, ← Path.visit_parts hv]
  | itemRef r => simp [visit, parts, ← ItemRef.visit_parts hv]

theorem Written.mapM_visit_parts (ws : List Written) :
    List.flatMap parts <$> ws.mapM (visit v) = Ty.visitList v (ws.flatMap parts) := by
  induction ws with
  | nil => simp [Ty.visitList]
  | cons w ws ih =>
      simp [Ty.visitList_append, ← ih, ← Written.visit_parts hv]

theorem Expr.visit_parts (e : Expr) : parts <$> e.visit v = Ty.visitList v e.parts := by
  have hparts : parts = List.flatMap Written.parts ∘ written := funext parts_eq_flatMap
  calc parts <$> e.visit v
      = List.flatMap Written.parts <$> written <$> e.visit v := by rw [hparts, comp_map]
    _ = Ty.visitList v e.parts := by
      rw [visit_written, Written.mapM_visit_parts hv, parts_eq_flatMap]

/-- The types of a node are visited from left to right, the inferred one last, and the node
that comes out has the types that the visits leave. -/
theorem Node.visit_parts (node : Node) :
    parts <$> node.visit v = Ty.visitList v node.parts := by
  simp [visit, parts, Ty.visitList_append, Ty.visitList, ← Expr.visit_parts hv]

end Types

end Unerase
