import Unerase.Body
import Unerase.Proofs.Relation.Ty

namespace Unerase

/-- The same name with a related type. -/
structure TypedName.Rel (R : Ty → Ty → Prop) (a b : TypedName) : Prop where
  name : a.name = b.name
  type : R a.type b.type

/-- Expressions of the same kind with the same parts and related types. -/
inductive Expr.Rel (R : Ty → Ty → Prop) : Expr → Expr → Prop
  | block {stmts : List NodeId} {tail : Option NodeId} :
      Expr.Rel R (.block stmts tail) (.block stmts tail)
  | letIn {binding : Nat} {type type' : Ty} {value : Option NodeId} :
      R type type' →
      Expr.Rel R (.letIn binding type value) (.letIn binding type' value)
  | ret {value : Option NodeId} : Expr.Rel R (.ret value) (.ret value)
  | ite {cond yes : NodeId} {no : Option NodeId} :
      Expr.Rel R (.ite cond yes no) (.ite cond yes no)
  | lit {value : Literal} : Expr.Rel R (.lit value) (.lit value)
  | var {name : String} {binding : Nat} :
      Expr.Rel R (.var name binding) (.var name binding)
  | pathValue {path path' : Path} :
      path.Rel R path' → Expr.Rel R (.pathValue path) (.pathValue path')
  | callPath {path path' : Path} {args : List NodeId} :
      path.Rel R path' → Expr.Rel R (.callPath path args) (.callPath path' args)
  | callMethod {receiver : NodeId} {method : String} {args : List NodeId}
      {path path' : Path} :
      path.Rel R path' →
      Expr.Rel R (.callMethod receiver method args path)
        (.callMethod receiver method args path')
  | field {value : NodeId} {name : String} :
      Expr.Rel R (.field value name) (.field value name)
  | tuple {elems : List NodeId} : Expr.Rel R (.tuple elems) (.tuple elems)
  | struct {target target' : ItemRef} {fields : List (String × NodeId)} :
      target.Rel R target' →
      Expr.Rel R (.struct target fields) (.struct target' fields)
  | cast {value : NodeId} {type type' : Ty} :
      R type type' → Expr.Rel R (.cast value type) (.cast value type')
  | closure {args args' : List TypedName} {result result' : Ty} {body : NodeId} :
      List.Forall₂ (TypedName.Rel R) args args' → R result result' →
      Expr.Rel R (.closure args result body) (.closure args' result' body)

/-- Related expressions with related inferred types. -/
structure Node.Rel (R : Ty → Ty → Prop) (n m : Node) : Prop where
  expr : n.expr.Rel R m.expr
  type : R n.type m.type

/-- The second body is the first one with other types. A type in use is related to
the one in its place, and a node that is not in use stays as it is. -/
structure Body.Rel (R : Ty → Ty → Prop) (b b' : Body) : Prop where
  root : b'.root = b.root
  reached : ∀ id, b.Reachable id →
    Option.Rel (Node.Rel R) b.nodes[id]? b'.nodes[id]?
  unreached : ∀ id, ¬ b.Reachable id → b'.nodes[id]? = b.nodes[id]?
  bindings : List.Forall₂ R b.bindings b'.bindings
  templates : List.Forall₂ R b.templates b'.templates

/-- The bodies differ in types only. The types in all nodes are related by `N`, in use or
not, and those of the local variables and the templates by `R`. -/
structure Body.RelAll (N R : Ty → Ty → Prop) (b d : Body) : Prop where
  root : b.root = d.root
  nodes : List.Forall₂ (Node.Rel N) b.nodes d.nodes
  bindings : List.Forall₂ R b.bindings d.bindings
  templates : List.Forall₂ R b.templates d.templates

@[simp] theorem TypedName.rel_eq : TypedName.Rel Eq = Eq := by
  funext a b
  obtain ⟨name, type⟩ := a
  obtain ⟨name', type'⟩ := b
  refine propext ⟨fun h => ?_, fun h => h ▸ ⟨rfl, rfl⟩⟩
  obtain ⟨rfl, rfl⟩ := h
  rfl

section Self

variable {R : Ty → Ty → Prop} (h : ∀ t, R t t)

include h

theorem TypedName.rel_self (as : List TypedName) :
    List.Forall₂ (TypedName.Rel R) as as :=
  List.forall₂_same.2 fun a _ => ⟨rfl, h a.type⟩

theorem Expr.rel_self (e : Expr) : e.Rel R e := by
  have hereditary : Ty.Hereditary R := .of_refl h
  cases e with
  | letIn => exact .letIn (h _)
  | pathValue => exact .pathValue (hereditary.path _)
  | callPath => exact .callPath (hereditary.path _)
  | callMethod => exact .callMethod (hereditary.path _)
  | struct => exact .struct (hereditary.itemRef _)
  | cast => exact .cast (h _)
  | closure => exact .closure (TypedName.rel_self h _) (h _)
  | _ => constructor

theorem Node.rel_self (n : Node) : n.Rel R n :=
  ⟨Expr.rel_self h n.expr, h n.type⟩

end Self

theorem Expr.Rel.eq {e e' : Expr} (h : e.Rel Eq e') : e = e' := by
  cases h <;> simp_all

theorem Node.Rel.eq {n m : Node} (h : n.Rel Eq m) : n = m := by
  obtain ⟨expr, type⟩ := n
  obtain ⟨expr', type'⟩ := m
  obtain ⟨hexpr, rfl⟩ := h
  cases hexpr.eq
  rfl

theorem Body.relAll_refl (b : Body) : b.RelAll Eq Eq b :=
  ⟨rfl, List.forall₂_same.2 fun n _ => Node.rel_self (fun _ => rfl) n,
    List.forall₂_refl _, List.forall₂_refl _⟩

theorem Body.RelAll.eq {b d : Body} (h : b.RelAll Eq Eq d) : b = d := by
  obtain ⟨nodes, root, bindings, templates⟩ := b
  obtain ⟨nodes', root', bindings', templates'⟩ := d
  obtain ⟨hroot, hnodes, hbindings, htemplates⟩ := h
  cases List.forall₂_eq_eq_eq ▸ hnodes.imp fun _ _ => Node.Rel.eq
  cases List.forall₂_eq_eq_eq ▸ hbindings
  cases List.forall₂_eq_eq_eq ▸ htemplates
  cases hroot
  rfl

theorem Expr.Rel.children {R : Ty → Ty → Prop} {e e' : Expr} (h : e.Rel R e') :
    e'.children = e.children := by
  cases h <;> rfl

section Mono

variable {R S : Ty → Ty → Prop} (h : ∀ t u, R t u → S t u)

include h

theorem TypedName.Rel.mono {a b : TypedName} (hab : a.Rel R b) : a.Rel S b :=
  ⟨hab.name, h _ _ hab.type⟩

theorem Expr.Rel.mono {e e' : Expr} (he : e.Rel R e') : e.Rel S e' := by
  cases he with
  | letIn type => exact .letIn (h _ _ type)
  | pathValue path => exact .pathValue (path.mono h)
  | callPath path => exact .callPath (path.mono h)
  | callMethod path => exact .callMethod (path.mono h)
  | struct target => exact .struct (target.mono h)
  | cast type => exact .cast (h _ _ type)
  | closure args result =>
      exact .closure (args.imp fun _ _ arg => arg.mono h) (h _ _ result)
  | _ => constructor

theorem Node.Rel.mono {n m : Node} (hn : n.Rel R m) : n.Rel S m :=
  ⟨hn.expr.mono h, h _ _ hn.type⟩

theorem Body.Rel.mono {b b' : Body} (hb : b.Rel R b') : b.Rel S b' where
  root := hb.root
  reached id hid := optionRel_mono (fun _ _ node => node.mono h) (hb.reached id hid)
  unreached := hb.unreached
  bindings := hb.bindings.imp h
  templates := hb.templates.imp h

end Mono

/-! ### What is related to the same -/

section Unique

variable {R S : Ty → Ty → Prop} (h : ∀ t u v, R t u → S t v → u = v)

include h

theorem TypedName.Rel.unique {a b c : TypedName} (hb : a.Rel R b) (hc : a.Rel S c) :
    b = c := by
  have hname : b.name = c.name := hb.name.symm.trans hc.name
  have htype : b.type = c.type := h _ _ _ hb.type hc.type
  cases b
  congr

theorem Expr.Rel.unique {e e₁ e₂ : Expr} (h₁ : e.Rel R e₁) (h₂ : e.Rel S e₂) : e₁ = e₂ := by
  cases h₁ with
  | letIn type =>
      cases h₂ with
      | letIn type' => rw [h _ _ _ type type']
  | pathValue path =>
      cases h₂ with
      | pathValue path' => rw [path.unique h path']
  | callPath path =>
      cases h₂ with
      | callPath path' => rw [path.unique h path']
  | callMethod path =>
      cases h₂ with
      | callMethod path' => rw [path.unique h path']
  | struct target =>
      cases h₂ with
      | struct target' => rw [target.unique h target']
  | cast type =>
      cases h₂ with
      | cast type' => rw [h _ _ _ type type']
  | closure args result =>
      cases h₂ with
      | closure args' result' =>
          rw [forall₂_unique args args' fun _ _ _ a b => a.unique h b,
            h _ _ _ result result']
  | _ =>
      cases h₂
      rfl

theorem Node.Rel.unique {n n₁ n₂ : Node} (h₁ : n.Rel R n₁) (h₂ : n.Rel S n₂) :
    n₁ = n₂ := by
  have hexpr : n₁.expr = n₂.expr := h₁.expr.unique h h₂.expr
  have htype : n₁.type = n₂.type := h _ _ _ h₁.type h₂.type
  cases n₁
  congr

theorem Body.Rel.unique {b b₁ b₂ : Body} (h₁ : b.Rel R b₁) (h₂ : b.Rel S b₂) :
    b₁ = b₂ := by
  have hnodes : b₁.nodes = b₂.nodes := by
    apply List.ext_getElem?
    intro id
    by_cases hid : b.Reachable id
    · exact optionRel_unique (h₁.reached id hid) (h₂.reached id hid)
        fun _ _ _ n m => n.unique h m
    · exact (h₁.unreached id hid).trans (h₂.unreached id hid).symm
  have hroot : b₁.root = b₂.root := h₁.root.trans h₂.root.symm
  have hbindings : b₁.bindings = b₂.bindings :=
    forall₂_unique h₁.bindings h₂.bindings h
  have htemplates : b₁.templates = b₂.templates :=
    forall₂_unique h₁.templates h₂.templates h
  cases b₁
  congr

end Unique

end Unerase
