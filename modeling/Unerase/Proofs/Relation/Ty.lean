import Unerase.Proofs.Relation.List
import Unerase.Ty.Basic

/-!
Relations between the parts of types. Two types correspond at their parts if they
are built alike and the types that a walk hands out from them are related one by
one; what is not a type is the same in both. The same goes for paths, references
and argument lists.

A placeholder has no counterpart at its parts. What it corresponds to is for each
relation to say, and therefore no constructor of `Ty.Parts` is for placeholders.
-/

namespace Unerase

/-- Argument lists with related types and the same constants. -/
inductive Args.Rel (R : Ty → Ty → Prop) : Args → Args → Prop
  | intro {types types' : List Ty} {consts : List Const} :
      List.Forall₂ R types types' → Args.Rel R ⟨types, consts⟩ ⟨types', consts⟩

/-- References to the same item with related arguments. -/
inductive ItemRef.Rel (R : Ty → Ty → Prop) : ItemRef → ItemRef → Prop
  | intro {name : ItemName} {args args' : Args} :
      args.Rel R args' → ItemRef.Rel R ⟨name, args⟩ ⟨name, args'⟩

/-- Paths of the same kind and member name with related types. -/
inductive Path.Rel (R : Ty → Ty → Prop) : Path → Path → Prop
  | item {target target' : ItemRef} :
      target.Rel R target' → Path.Rel R (.item target) (.item target')
  | inherent {self self' : Ty} {name : String} {args args' : Args} :
      R self self' → args.Rel R args' →
      Path.Rel R (.inherent self name args) (.inherent self' name args')
  | known {self self' : Ty} {trait trait' : ItemRef} {name : String}
      {args args' : Args} :
      R self self' → trait.Rel R trait' → args.Rel R args' →
      Path.Rel R (.known self trait name args) (.known self' trait' name args')
  | unknown {self self' : Ty} {name : String} {args args' : Args} :
      R self self' → args.Rel R args' →
      Path.Rel R (.unknown self name args) (.unknown self' name args')

/-- Types that are not placeholders, built alike from related types. -/
inductive Ty.Parts (R : Ty → Ty → Prop) : Ty → Ty → Prop
  | never : Ty.Parts R .never .never
  | prim (p : Prim) : Ty.Parts R (.prim p) (.prim p)
  | path {p p' : Path} : p.Rel R p' → Ty.Parts R (.path p) (.path p')
  | param (p : Param) : Ty.Parts R (.param p) (.param p)
  | dyn {trait trait' : ItemRef} {markers markers' : List ItemRef} :
      trait.Rel R trait' → List.Forall₂ (ItemRef.Rel R) markers markers' →
      Ty.Parts R (.dyn trait markers) (.dyn trait' markers')
  | array {elem elem' : Ty} {size : Const} :
      R elem elem' → Ty.Parts R (.array elem size) (.array elem' size)
  | slice {elem elem' : Ty} :
      R elem elem' → Ty.Parts R (.slice elem) (.slice elem')
  | tuple {elems elems' : List Ty} :
      List.Forall₂ R elems elems' → Ty.Parts R (.tuple elems) (.tuple elems')
  | ref {kind : RefKind} {target target' : Ty} :
      R target target' → Ty.Parts R (.ref kind target) (.ref kind target')
  | ptr {mutable : Bool} {target target' : Ty} :
      R target target' → Ty.Parts R (.ptr mutable target) (.ptr mutable target')
  | fn {args args' : List Ty} {result result' : Ty} :
      List.Forall₂ R args args' → R result result' →
      Ty.Parts R (.fn args result) (.fn args' result')

/-- The relation holds of a type with itself if it does so at all parts of the
type. In a placeholder these are the parts of the origin and of the bounds. -/
structure Ty.Hereditary (R : Ty → Ty → Prop) : Prop where
  parts : ∀ t, Ty.Parts R t t → R t t
  erased : ∀ origin index bounds, Path.Rel R origin origin →
    List.Forall₂ (ItemRef.Rel R) bounds bounds →
    R (.erased origin index bounds) (.erased origin index bounds)

mutual

/-- Induction over types: a hereditary relation holds of every type with itself. -/
theorem Ty.Hereditary.ty {R : Ty → Ty → Prop} (h : Ty.Hereditary R) :
    ∀ t : Ty, R t t
  | .never => h.parts _ .never
  | .prim p => h.parts _ (.prim p)
  | .path p => h.parts _ (.path (h.path p))
  | .param p => h.parts _ (.param p)
  | .dyn trait markers =>
      h.parts _ (.dyn (h.itemRef trait) (h.itemRefs markers))
  | .erased origin index bounds =>
      h.erased origin index bounds (h.path origin) (h.itemRefs bounds)
  | .array elem _ => h.parts _ (.array (h.ty elem))
  | .slice elem => h.parts _ (.slice (h.ty elem))
  | .tuple elems => h.parts _ (.tuple (h.tys elems))
  | .ref _ target => h.parts _ (.ref (h.ty target))
  | .ptr _ target => h.parts _ (.ptr (h.ty target))
  | .fn args result => h.parts _ (.fn (h.tys args) (h.ty result))
termination_by structural t => t

theorem Ty.Hereditary.path {R : Ty → Ty → Prop} (h : Ty.Hereditary R) :
    ∀ p : Path, p.Rel R p
  | .item target => .item (h.itemRef target)
  | .inherent self _ args => .inherent (h.ty self) (h.args args)
  | .known self trait _ args =>
      .known (h.ty self) (h.itemRef trait) (h.args args)
  | .unknown self _ args => .unknown (h.ty self) (h.args args)
termination_by structural p => p

theorem Ty.Hereditary.itemRef {R : Ty → Ty → Prop} (h : Ty.Hereditary R) :
    ∀ r : ItemRef, r.Rel R r
  | ⟨_, args⟩ => .intro (h.args args)
termination_by structural r => r

theorem Ty.Hereditary.args {R : Ty → Ty → Prop} (h : Ty.Hereditary R) :
    ∀ a : Args, a.Rel R a
  | ⟨types, _⟩ => .intro (h.tys types)
termination_by structural a => a

theorem Ty.Hereditary.tys {R : Ty → Ty → Prop} (h : Ty.Hereditary R) :
    ∀ ts : List Ty, List.Forall₂ R ts ts
  | [] => .nil
  | t :: ts => .cons (h.ty t) (h.tys ts)
termination_by structural ts => ts

theorem Ty.Hereditary.itemRefs {R : Ty → Ty → Prop} (h : Ty.Hereditary R) :
    ∀ rs : List ItemRef, List.Forall₂ (ItemRef.Rel R) rs rs
  | [] => .nil
  | r :: rs => .cons (h.itemRef r) (h.itemRefs rs)
termination_by structural rs => rs

end

section Mono

variable {R S : Ty → Ty → Prop} (h : ∀ t u, R t u → S t u)

include h

theorem Args.Rel.mono {a b : Args} : a.Rel R b → a.Rel S b
  | .intro types => .intro (types.imp h)

theorem ItemRef.Rel.mono {r s : ItemRef} : r.Rel R s → r.Rel S s
  | .intro args => .intro (args.mono h)

theorem Path.Rel.mono {p q : Path} : p.Rel R q → p.Rel S q
  | .item target => .item (target.mono h)
  | .inherent self args => .inherent (h _ _ self) (args.mono h)
  | .known self trait args => .known (h _ _ self) (trait.mono h) (args.mono h)
  | .unknown self args => .unknown (h _ _ self) (args.mono h)

theorem Ty.Parts.mono {t u : Ty} : Ty.Parts R t u → Ty.Parts S t u
  | .never => .never
  | .prim p => .prim p
  | .path p => .path (p.mono h)
  | .param p => .param p
  | .dyn trait markers =>
      .dyn (trait.mono h) (markers.imp fun _ _ marker => marker.mono h)
  | .array elem => .array (h _ _ elem)
  | .slice elem => .slice (h _ _ elem)
  | .tuple elems => .tuple (elems.imp h)
  | .ref target => .ref (h _ _ target)
  | .ptr target => .ptr (h _ _ target)
  | .fn args result => .fn (args.imp h) (h _ _ result)

end Mono

section Unique

variable {R S : Ty → Ty → Prop} (h : ∀ t u v, R t u → S t v → u = v)

include h

theorem Args.Rel.unique {a b c : Args} (hb : a.Rel R b) (hc : a.Rel S c) :
    b = c := by
  obtain ⟨hb⟩ := hb
  obtain ⟨hc⟩ := hc
  rw [forall₂_unique hb hc h]

theorem ItemRef.Rel.unique {r s s' : ItemRef} (hs : r.Rel R s)
    (hs' : r.Rel S s') : s = s' := by
  obtain ⟨hs⟩ := hs
  obtain ⟨hs'⟩ := hs'
  rw [hs.unique h hs']

theorem Path.Rel.unique {p q q' : Path} (hq : p.Rel R q) (hq' : p.Rel S q') :
    q = q' := by
  cases hq with
  | item target =>
      obtain ⟨target'⟩ := hq'
      rw [target.unique h target']
  | inherent self args =>
      rcases hq' with - | ⟨self', args'⟩
      rw [h _ _ _ self self', args.unique h args']
  | known self trait args =>
      rcases hq' with - | - | ⟨self', trait', args'⟩
      rw [h _ _ _ self self', trait.unique h trait', args.unique h args']
  | unknown self args =>
      rcases hq' with - | - | - | ⟨self', args'⟩
      rw [h _ _ _ self self', args.unique h args']

theorem Ty.Parts.unique {t u v : Ty} (hu : Ty.Parts R t u)
    (hv : Ty.Parts S t v) : u = v := by
  cases hu with
  | never => cases hv; rfl
  | prim => cases hv; rfl
  | param => cases hv; rfl
  | path p =>
      cases hv with
      | path p' => rw [p.unique h p']
  | dyn trait markers =>
      cases hv with
      | dyn trait' markers' =>
          rw [trait.unique h trait', forall₂_unique markers markers'
            fun _ _ _ marker marker' => marker.unique h marker']
  | array elem =>
      cases hv with
      | array elem' => rw [h _ _ _ elem elem']
  | slice elem =>
      cases hv with
      | slice elem' => rw [h _ _ _ elem elem']
  | tuple elems =>
      cases hv with
      | tuple elems' => rw [forall₂_unique elems elems' h]
  | ref target =>
      cases hv with
      | ref target' => rw [h _ _ _ target target']
  | ptr target =>
      cases hv with
      | ptr target' => rw [h _ _ _ target target']
  | fn args result =>
      cases hv with
      | fn args' result' =>
          rw [forall₂_unique args args' h, h _ _ _ result result']

end Unique

theorem Ty.Hereditary.of_refl {R : Ty → Ty → Prop} (h : ∀ t, R t t) :
    Ty.Hereditary R :=
  ⟨fun t _ => h t, fun _ _ _ _ _ => h _⟩

theorem Ty.hereditary_eq : Ty.Hereditary Eq :=
  .of_refl fun _ => rfl

private theorem eq_unique (t u v : Ty) (hu : t = u) (hv : t = v) : u = v :=
  hu.symm.trans hv

@[simp] theorem ItemRef.rel_eq : ItemRef.Rel Eq = Eq := by
  funext r s
  exact propext ⟨(Ty.hereditary_eq.itemRef r).unique eq_unique,
    fun h => h ▸ Ty.hereditary_eq.itemRef r⟩

@[simp] theorem Path.rel_eq : Path.Rel Eq = Eq := by
  funext p q
  exact propext ⟨(Ty.hereditary_eq.path p).unique eq_unique,
    fun h => h ▸ Ty.hereditary_eq.path p⟩

theorem Ty.Parts.eq {t u : Ty} (h : Ty.Parts Eq t u) : t = u := by
  cases h <;> simp_all

end Unerase
