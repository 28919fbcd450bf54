import Unerase.Proofs.Relation.Body

/-!
The parts of types and of bodies as lists. The parts of a type are the types that a walk
hands out from it, from left to right; those of an expression are the types that are
written in it. Related types have related parts, one by one, and a relation that holds of
every part with itself relates the whole to itself.
-/

namespace Unerase

/-- The types that a walk hands out from a reference to an item. -/
def ItemRef.parts (r : ItemRef) : List Ty :=
  r.args.types

/-- The types that a walk hands out from a path. -/
def Path.parts : Path → List Ty
  | .item target => target.parts
  | .inherent self _ args => self :: args.types
  | .known self trait _ args => self :: (trait.parts ++ args.types)
  | .unknown self _ args => self :: args.types

/-- The types that a walk hands out from a type. Those of a placeholder are in its origin
and in its bounds. -/
def Ty.parts : Ty → List Ty
  | .never | .prim _ | .param _ => []
  | .path p => p.parts
  | .dyn trait markers => trait.parts ++ markers.flatMap ItemRef.parts
  | .erased origin _ bounds => origin.parts ++ bounds.flatMap ItemRef.parts
  | .array elem _ => [elem]
  | .slice elem => [elem]
  | .tuple elems => elems
  | .ref _ target => [target]
  | .ptr _ target => [target]
  | .fn args result => args ++ [result]

/-- The types that are written in an expression itself. -/
def Expr.parts : Expr → List Ty
  | .letIn _ type _ => [type]
  | .pathValue path => path.parts
  | .callPath path _ => path.parts
  | .callMethod _ _ _ path => path.parts
  | .struct target _ => target.parts
  | .cast _ type => [type]
  | .closure args result _ => args.map TypedName.type ++ [result]
  | .block .. | .ret _ | .ite .. | .lit _ | .var .. | .field .. | .tuple _ => []

/-- The types of a node: those that are written in its expression, and the inferred one. -/
def Node.parts (node : Node) : List Ty :=
  node.expr.parts ++ [node.type]

/-- The type stands in the body where a walk comes to it: in a node that is in use, as
the type of a local variable, or as a template. -/
inductive Body.Uses (b : Body) (t : Ty) : Prop
  | node {id : NodeId} {node : Node} :
      b.Reachable id → b.nodes[id]? = some node → t ∈ node.parts → Body.Uses b t
  | binding : t ∈ b.bindings → Body.Uses b t
  | template : t ∈ b.templates → Body.Uses b t

/-- All types in a body, whether their nodes are in use or not. -/
def Body.allTypes (b : Body) : List Ty :=
  b.nodes.flatMap Node.parts ++ (b.bindings ++ b.templates)

theorem Body.Uses.mem_allTypes {b : Body} {t : Ty} (h : b.Uses t) :
    t ∈ b.allTypes := by
  simp only [Body.allTypes, List.mem_append, List.mem_flatMap]
  cases h with
  | node _ hnode ht => exact .inl ⟨_, List.mem_of_getElem? hnode, ht⟩
  | binding ht => exact .inr (.inl ht)
  | template ht => exact .inr (.inr ht)

section Related

variable {R : Ty → Ty → Prop}

theorem ItemRef.Rel.parts {r s : ItemRef} (h : r.Rel R s) :
    List.Forall₂ R r.parts s.parts := by
  obtain ⟨⟨types⟩⟩ := h
  exact types

theorem ItemRef.parts_related {rs ss : List ItemRef}
    (h : List.Forall₂ (ItemRef.Rel R) rs ss) :
    List.Forall₂ R (rs.flatMap ItemRef.parts) (ss.flatMap ItemRef.parts) :=
  List.rel_flatMap h fun _ _ hrs => hrs.parts

theorem Path.Rel.parts {p q : Path} (h : p.Rel R q) :
    List.Forall₂ R p.parts q.parts := by
  cases h with
  | item target => exact target.parts
  | inherent self args =>
      obtain ⟨types⟩ := args
      exact .cons self types
  | known self trait args =>
      obtain ⟨types⟩ := args
      exact .cons self (List.rel_append trait.parts types)
  | unknown self args =>
      obtain ⟨types⟩ := args
      exact .cons self types

theorem Ty.Parts.parts {t u : Ty} (h : Ty.Parts R t u) :
    List.Forall₂ R t.parts u.parts := by
  cases h with
  | never | prim | param => exact .nil
  | path p => exact p.parts
  | dyn trait markers =>
      exact List.rel_append trait.parts (ItemRef.parts_related markers)
  | array elem => exact .cons elem .nil
  | slice elem => exact .cons elem .nil
  | tuple elems => exact elems
  | ref target => exact .cons target .nil
  | ptr target => exact .cons target .nil
  | fn args result => exact List.rel_append args (.cons result .nil)

theorem TypedName.types_related {as bs : List TypedName}
    (h : List.Forall₂ (TypedName.Rel R) as bs) :
    List.Forall₂ R (as.map TypedName.type) (bs.map TypedName.type) :=
  List.rel_map (fun _ _ hab => hab.type) h

theorem Expr.Rel.parts {e e' : Expr} (h : e.Rel R e') :
    List.Forall₂ R e.parts e'.parts := by
  cases h with
  | letIn type => exact .cons type .nil
  | pathValue path => exact path.parts
  | callPath path => exact path.parts
  | callMethod path => exact path.parts
  | struct target => exact target.parts
  | cast type => exact .cons type .nil
  | closure args result =>
      exact List.rel_append (TypedName.types_related args) (.cons result .nil)
  | _ => exact .nil

theorem Node.Rel.parts {n m : Node} (h : n.Rel R m) :
    List.Forall₂ R n.parts m.parts :=
  List.rel_append h.expr.parts (.cons h.type .nil)

end Related

theorem Body.Rel.uses {R : Ty → Ty → Prop} {b b' : Body} (h : b.Rel R b') {t : Ty}
    (ht : b.Uses t) : ∃ u, R t u := by
  cases ht with
  | @node id node hid hnode hmem =>
      have hrel := h.reached id hid
      rw [hnode] at hrel
      generalize b'.nodes[id]? = x at hrel
      cases hrel with
      | some hrel =>
          obtain ⟨u, -, hu⟩ := forall₂_exists hrel.parts hmem
          exact ⟨u, hu⟩
  | binding hmem =>
      obtain ⟨u, -, hu⟩ := forall₂_exists h.bindings hmem
      exact ⟨u, hu⟩
  | template hmem =>
      obtain ⟨u, -, hu⟩ := forall₂_exists h.templates hmem
      exact ⟨u, hu⟩

section Self

variable {R : Ty → Ty → Prop}

theorem Args.rel_of_types {a : Args} (h : ∀ t ∈ a.types, R t t) : a.Rel R a := by
  obtain ⟨types, consts⟩ := a
  exact .intro (List.forall₂_same.2 h)

theorem ItemRef.rel_of_parts {r : ItemRef} (h : ∀ t ∈ r.parts, R t t) :
    r.Rel R r := by
  obtain ⟨name, args⟩ := r
  exact .intro (Args.rel_of_types h)

theorem ItemRef.forall₂_of_parts {rs : List ItemRef}
    (h : ∀ t ∈ rs.flatMap ItemRef.parts, R t t) :
    List.Forall₂ (ItemRef.Rel R) rs rs := by
  apply List.forall₂_same.2
  intro r hr
  exact ItemRef.rel_of_parts fun t ht => h t (List.mem_flatMap_of_mem hr ht)

theorem Path.rel_of_parts {p : Path} (h : ∀ t ∈ p.parts, R t t) : p.Rel R p := by
  cases p with
  | item target => exact .item (ItemRef.rel_of_parts h)
  | inherent self name args =>
      obtain ⟨hself, hargs⟩ := List.forall_mem_cons.1 h
      exact .inherent hself (Args.rel_of_types hargs)
  | known self trait name args =>
      obtain ⟨hself, hrest⟩ := List.forall_mem_cons.1 h
      obtain ⟨htrait, hargs⟩ := List.forall_mem_append.1 hrest
      exact .known hself (ItemRef.rel_of_parts htrait) (Args.rel_of_types hargs)
  | unknown self name args =>
      obtain ⟨hself, hargs⟩ := List.forall_mem_cons.1 h
      exact .unknown hself (Args.rel_of_types hargs)

theorem Ty.Parts.of_parts {t : Ty} (ht : t.isErased = false)
    (h : ∀ u ∈ t.parts, R u u) : Ty.Parts R t t := by
  cases t with
  | never => exact .never
  | prim p => exact .prim p
  | param p => exact .param p
  | path p => exact .path (Path.rel_of_parts h)
  | dyn trait markers =>
      obtain ⟨htrait, hmarkers⟩ := List.forall_mem_append.1 h
      exact .dyn (ItemRef.rel_of_parts htrait) (ItemRef.forall₂_of_parts hmarkers)
  | erased => cases ht
  | array elem size => exact .array (h elem (by simp [Ty.parts]))
  | slice elem => exact .slice (h elem (by simp [Ty.parts]))
  | tuple elems => exact .tuple (List.forall₂_same.2 h)
  | ref kind target => exact .ref (h target (by simp [Ty.parts]))
  | ptr mutable target => exact .ptr (h target (by simp [Ty.parts]))
  | fn args result =>
      obtain ⟨hargs, hresult⟩ := List.forall_mem_append.1 h
      exact .fn (List.forall₂_same.2 hargs) (hresult result (by simp))

theorem TypedName.forall₂_of_types {as : List TypedName}
    (h : ∀ t ∈ as.map TypedName.type, R t t) :
    List.Forall₂ (TypedName.Rel R) as as := by
  apply List.forall₂_same.2
  intro a ha
  exact ⟨rfl, h a.type (List.mem_map_of_mem ha)⟩

theorem Expr.rel_of_parts {e : Expr} (h : ∀ t ∈ e.parts, R t t) : e.Rel R e := by
  cases e with
  | letIn => exact .letIn (h _ (by simp [Expr.parts]))
  | pathValue => exact .pathValue (Path.rel_of_parts h)
  | callPath => exact .callPath (Path.rel_of_parts h)
  | callMethod => exact .callMethod (Path.rel_of_parts h)
  | struct => exact .struct (ItemRef.rel_of_parts h)
  | cast => exact .cast (h _ (by simp [Expr.parts]))
  | closure =>
      obtain ⟨hargs, hresult⟩ := List.forall_mem_append.1 h
      exact .closure (TypedName.forall₂_of_types hargs) (hresult _ (by simp))
  | _ => constructor

theorem Node.rel_of_parts {n : Node} (h : ∀ t ∈ n.parts, R t t) : n.Rel R n := by
  obtain ⟨hexpr, htype⟩ := List.forall_mem_append.1 h
  exact ⟨Expr.rel_of_parts hexpr, htype n.type (by simp)⟩

theorem Body.rel_of_uses {b : Body} (h : ∀ t, b.Uses t → R t t) : b.Rel R b where
  root := rfl
  reached id hid := by
    cases hnode : b.nodes[id]? with
    | none => exact .none
    | some node => exact .some (Node.rel_of_parts fun t ht => h t (.node hid hnode ht))
  unreached _ _ := rfl
  bindings := List.forall₂_same.2 fun t ht => h t (.binding ht)
  templates := List.forall₂_same.2 fun t ht => h t (.template ht)

end Self

end Unerase
