import Unerase.Proofs.Walk.Crate

/-!
The walk under visitors that do not go everywhere. Whatever a visitor does when it is told
of a part, it does at the same parts as another visitor whose answers compare with its own.
So the walks over a type, a body or a crate compare if the answers do
(`Visitor.Alike.visit_ty`, `Visitor.Alike.visit_body`, `Visitor.Alike.visit_crate`).
-/

namespace Unerase

variable {ε σ ε' σ' ι : Type}

namespace Run.Comparison

variable {L : Comparison ε σ ε' σ' ι} {α β γ : Type}

theorem bindSame {R : β → γ → Prop} {x : Run ε σ α} {y : ι → Run ε' σ' α}
    {f : α → Run ε σ β} {g : ι → α → Run ε' σ' γ} (hx : L.Holds Eq x y)
    (hf : ∀ a, L.Holds R (f a) fun i => g i a) :
    L.Holds R (x >>= f) fun i => y i >>= g i :=
  L.bind hx fun a _ hab => hab ▸ hf a

theorem mapSame {x : Run ε σ α} {y : ι → Run ε' σ' α} (hx : L.Holds Eq x y) (f : α → β) :
    L.Holds Eq (x >>= fun a => Pure.pure (f a)) fun i => y i >>= fun a => Pure.pure (f a) :=
  bindSame hx fun _ => L.pure rfl

theorem mapMSame {f : α → Run ε σ β} {g : ι → α → Run ε' σ' β}
    (h : ∀ a, L.Holds Eq (f a) fun i => g i a) (as : List α) :
    L.Holds Eq (as.mapM f) fun i => as.mapM (g i) := by
  induction as with
  | nil =>
      simp only [List.mapM_nil]
      exact L.pure rfl
  | cons a as ih =>
      simp only [List.mapM_cons]
      exact bindSame (h a) fun _ => mapSame ih _

theorem foldlMSame {f : β → α → Run ε σ β} {g : ι → β → α → Run ε' σ' β}
    (h : ∀ b a, L.Holds Eq (f b a) fun i => g i b a) (as : List α) (b : β) :
    L.Holds Eq (as.foldlM f b) fun i => as.foldlM (g i) b :=
  L.foldlM (fun a _ b _ hb => hb ▸ h b a) rfl

end Run.Comparison

/-- The answers of the visitors compare, at types and placeholders and at all other parts
that are not bodies of functions or statics. -/
structure Visitor.Alike (L : Run.Comparison (Fault ε) σ (Fault ε') σ' ι) (v : Visitor ε σ)
    (w : ι → Visitor ε' σ') : Prop where
  enter : ∀ site, L.Holds Eq (v.enter site) fun i => (w i).enter site
  type : ∀ t, L.Holds Eq (v.type t) fun i => (w i).type t
  placeholder : ∀ index {origin : Run (Fault ε) σ Path} {origin' : ι → Run (Fault ε') σ' Path}
    {bounds : Run (Fault ε) σ (List ItemRef)} {bounds' : ι → Run (Fault ε') σ' (List ItemRef)},
    L.Holds Eq origin origin' → L.Holds Eq bounds bounds' →
    L.Holds Eq (v.placeholder index origin bounds)
      fun i => (w i).placeholder index (origin' i) (bounds' i)

namespace Visitor.Alike

variable {L : Run.Comparison (Fault ε) σ (Fault ε') σ' ι}

theorem of_default {enter : Site → Run (Fault ε) σ Bool}
    {type : Ty → Run (Fault ε) σ (Option Ty)} {body : Body → Run (Fault ε) σ Body}
    {enter' : ι → Site → Run (Fault ε') σ' Bool} {type' : ι → Ty → Run (Fault ε') σ' (Option Ty)}
    {body' : ι → Body → Run (Fault ε') σ' Body}
    (henter : ∀ site, L.Holds Eq (enter site) fun i => enter' i site)
    (htype : ∀ t, L.Holds Eq (type t) fun i => type' i t) :
    Visitor.Alike L { enter, type, body }
      fun i => { enter := enter' i, type := type' i, body := body' i } where
  enter := henter
  type := htype
  placeholder _ _ _ _ _ horigin hbounds := L.bindSame horigin fun _ => L.mapSame hbounds _

variable {v : Visitor ε σ} {w : ι → Visitor ε' σ'} (h : v.Alike L w)

include h

theorem within {α : Type} (site : Site) (unchanged : α) {walk : Run (Fault ε) σ α}
    {walk' : ι → Run (Fault ε') σ' α} (hwalk : L.Holds Eq walk walk') :
    L.Holds Eq (v.within site unchanged walk)
      fun i => (w i).within site unchanged (walk' i) := by
  refine L.bindSame (h.enter site) fun walked => ?_
  cases walked with
  | true => exact hwalk
  | false => exact L.pure rfl

theorem reach {t : Ty} (hwalk : L.Holds Eq (t.walk v) fun i => t.walk (w i)) :
    L.Holds Eq (t.visit v) fun i => t.visit (w i) := by
  simp only [Ty.visit_eq_reach]
  refine L.bindSame (h.type t) fun replacement => ?_
  cases replacement with
  | none => exact hwalk
  | some t' => exact L.pure rfl

end Visitor.Alike

section Types

variable {L : Run.Comparison (Fault ε) σ (Fault ε') σ' ι} {v : Visitor ε σ}
  {w : ι → Visitor ε' σ'}

mutual

theorem Visitor.Alike.walk_ty (h : v.Alike L w) : ∀ t : Ty,
    L.Holds Eq (t.walk v) fun i => t.walk (w i)
  | .never => L.pure rfl
  | .prim _ => L.pure rfl
  | .path p => L.mapSame (h.visit_path p) _
  | .param _ => L.pure rfl
  | .dyn trait markers =>
      L.bindSame (h.visit_itemRef trait) fun _ => L.mapSame (h.visit_itemRefs markers) _
  | .erased origin index bounds =>
      h.placeholder index (h.visit_path origin) (h.visit_itemRefs bounds)
  | .array elem _ => L.mapSame (h.reach (h.walk_ty elem)) _
  | .slice elem => L.mapSame (h.reach (h.walk_ty elem)) _
  | .tuple elems => L.mapSame (h.visit_tys elems) _
  | .ref _ target => L.mapSame (h.reach (h.walk_ty target)) _
  | .ptr _ target => L.mapSame (h.reach (h.walk_ty target)) _
  | .fn args result =>
      L.bindSame (h.visit_tys args) fun _ => L.mapSame (h.reach (h.walk_ty result)) _
termination_by structural t => t

theorem Visitor.Alike.visit_path (h : v.Alike L w) : ∀ p : Path,
    L.Holds Eq (p.visit v) fun i => p.visit (w i)
  | .item target => h.within _ _ (L.mapSame (h.visit_itemRef target) _)
  | .inherent self _ args =>
      h.within _ _ (L.bindSame (h.reach (h.walk_ty self)) fun _ =>
        L.mapSame (h.visit_args args) _)
  | .known self trait _ args =>
      h.within _ _ (L.bindSame (h.reach (h.walk_ty self)) fun _ =>
        L.bindSame (h.visit_itemRef trait) fun _ => L.mapSame (h.visit_args args) _)
  | .unknown self _ args =>
      h.within _ _ (L.bindSame (h.reach (h.walk_ty self)) fun _ =>
        L.mapSame (h.visit_args args) _)
termination_by structural p => p

theorem Visitor.Alike.visit_itemRef (h : v.Alike L w) : ∀ r : ItemRef,
    L.Holds Eq (r.visit v) fun i => r.visit (w i)
  | ⟨_, args⟩ => h.within _ _ (L.mapSame (h.visit_args args) _)
termination_by structural r => r

theorem Visitor.Alike.visit_args (h : v.Alike L w) : ∀ a : Args,
    L.Holds Eq (a.visit v) fun i => a.visit (w i)
  | ⟨types, _⟩ => h.within _ _ (L.mapSame (h.visit_tys types) _)
termination_by structural a => a

theorem Visitor.Alike.visit_tys (h : v.Alike L w) : ∀ ts : List Ty,
    L.Holds Eq (Ty.visitList v ts) fun i => Ty.visitList (w i) ts
  | [] => L.pure rfl
  | t :: ts => L.bindSame (h.reach (h.walk_ty t)) fun _ => L.mapSame (h.visit_tys ts) _
termination_by structural ts => ts

theorem Visitor.Alike.visit_itemRefs (h : v.Alike L w) : ∀ rs : List ItemRef,
    L.Holds Eq (ItemRef.visitList v rs) fun i => ItemRef.visitList (w i) rs
  | [] => L.pure rfl
  | r :: rs => L.bindSame (h.visit_itemRef r) fun _ => L.mapSame (h.visit_itemRefs rs) _
termination_by structural rs => rs

end

theorem Visitor.Alike.visit_ty (h : v.Alike L w) (t : Ty) :
    L.Holds Eq (t.visit v) fun i => t.visit (w i) :=
  h.reach (h.walk_ty t)

variable (h : v.Alike L w)

include h

theorem Visitor.Alike.visit_option (t? : Option Ty) :
    L.Holds Eq (Ty.visitOption v t?) fun i => Ty.visitOption (w i) t? := by
  cases t? with
  | none => exact L.pure rfl
  | some t => exact L.mapSame (h.visit_ty t) _

theorem Visitor.Alike.visit_typedNames (as : List TypedName) :
    L.Holds Eq (TypedName.visitList v as) fun i => TypedName.visitList (w i) as := by
  induction as with
  | nil => exact L.pure rfl
  | cons a as ih => exact L.bindSame (h.visit_ty a.type) fun _ => L.mapSame ih _

end Types

/-! ### Bodies -/

section Bodies

variable {L : Run.Comparison (Fault ε) σ (Fault ε') σ' ι} {v : Visitor ε σ}
  {w : ι → Visitor ε' σ'} (h : v.Alike L w)

include h

namespace Visitor.Alike

theorem visit_expr (e : Expr) : L.Holds Eq (e.visit v) fun i => e.visit (w i) := by
  cases e with
  | letIn _ type _ => exact L.mapSame (h.visit_ty type) _
  | cast _ type => exact L.mapSame (h.visit_ty type) _
  | pathValue path => exact L.mapSame (h.visit_path path) _
  | callPath path _ => exact L.mapSame (h.visit_path path) _
  | callMethod _ _ _ path => exact L.mapSame (h.visit_path path) _
  | struct target _ => exact L.mapSame (h.visit_itemRef target) _
  | closure args result _ =>
      exact L.bindSame (h.visit_typedNames args) fun _ => L.mapSame (h.visit_ty result) _
  | _ => exact L.pure rfl

theorem visit_node (node : Node) :
    L.Holds Eq (node.visit v) fun i => node.visit (w i) :=
  L.bindSame (h.visit_expr node.expr) fun _ => L.mapSame (h.visit_ty node.type) _

variable (hL : L.KeepsFaults)

include hL

theorem visit_at {f : List Node → NodeId → Run (Fault ε) σ (List Node)}
    {g : ι → List Node → NodeId → Run (Fault ε') σ' (List Node)}
    (hfg : ∀ nodes id, L.Holds Eq (f nodes id) fun i => g i nodes id) (nodes : List Node)
    (id : NodeId) :
    L.Holds Eq (Node.visitAt v f nodes id) fun i => Node.visitAt (w i) (g i) nodes id := by
  have hat (nodes : List Node) :
      L.Holds Eq (.ofExcept (Node.at nodes id)) fun _ => .ofExcept (Node.at nodes id) :=
    Node.at_related hL (List.forall₂_same.2 fun _ _ => rfl) id
  refine h.within _ _ (L.bindSame (hat nodes) fun node => ?_)
  refine L.bindSame (L.foldlMSame hfg node.expr.children nodes) fun nodes => ?_
  exact L.bindSame (hat nodes) fun node => L.mapSame (h.visit_node node) _

theorem visit_within (depth : Nat) (nodes : List Node) (id : NodeId) :
    L.Holds Eq (Node.visitWithin v depth nodes id)
      fun i => Node.visitWithin (w i) depth nodes id := by
  induction depth generalizing nodes id with
  | zero => exact h.visit_at hL (fun _ _ => hL.endless Eq) nodes id
  | succ depth ih => exact h.visit_at hL ih nodes id

theorem visit_body (hpatience : ∀ i, (w i).patience = v.patience) (b : Body) :
    L.Holds Eq (b.visit v) fun i => b.visit (w i) := by
  simp only [Body.visit, Body.depthFor, hpatience]
  refine h.within _ _ (L.bindSame (h.visit_within hL _ b.nodes b.root) fun _ => ?_)
  exact L.bindSame (h.visit_tys b.bindings) fun _ => L.mapSame (h.visit_tys b.templates) _

end Visitor.Alike

end Bodies

/-! ### Crates -/

section Crates

variable {L : Run.Comparison (Fault ε) σ (Fault ε') σ' ι} {v : Visitor ε σ}
  {w : ι → Visitor ε' σ'}

namespace Visitor.Alike

section Signatures

variable (h : v.Alike L w)

include h

theorem visit_typeParam (p : TypeParam) :
    L.Holds Eq (p.visit v) fun i => p.visit (w i) :=
  L.mapSame (h.visit_option p.default?) _

theorem visit_bound (b : Bound) : L.Holds Eq (b.visit v) fun i => b.visit (w i) := by
  cases b with
  | implements type trait =>
      exact L.bindSame (h.visit_ty type) fun _ => L.mapSame (h.visit_itemRef trait) _
  | equal type other =>
      exact L.bindSame (h.visit_ty type) fun _ => L.mapSame (h.visit_ty other) _

theorem visit_generics (g : Generics) : L.Holds Eq (g.visit v) fun i => g.visit (w i) := by
  refine h.within _ _ (L.bindSame (L.mapMSame h.visit_typeParam g.types) fun _ => ?_)
  refine L.bindSame (h.visit_typedNames g.consts) fun _ => ?_
  exact L.mapSame (L.mapMSame h.visit_bound g.bounds) _

theorem visit_struct (name : ItemName) (s : Struct) :
    L.Holds Eq (s.visit v name) fun i => s.visit (w i) name := by
  refine h.within _ _ (L.bindSame (h.visit_generics s.generics) fun _ => ?_)
  exact L.mapSame (h.visit_typedNames s.fields) _

theorem visit_enum (name : ItemName) (e : Enum) :
    L.Holds Eq (e.visit v name) fun i => e.visit (w i) name := by
  refine h.within _ _ (L.bindSame (h.visit_generics e.generics) fun _ => ?_)
  exact L.mapSame (L.mapMSame (fun a => L.mapSame (h.visit_tys a.fields) _) e.variants) _

theorem visit_typeAlias (a : TypeAlias) : L.Holds Eq (a.visit v) fun i => a.visit (w i) :=
  L.bindSame (h.visit_generics a.generics) fun _ => L.mapSame (h.visit_ty a.type) _

theorem visit_assocType (a : AssocType) : L.Holds Eq (a.visit v) fun i => a.visit (w i) :=
  L.bindSame (h.visit_itemRefs a.bounds) fun _ => L.mapSame (h.visit_option a.default?) _

end Signatures

variable (h : v.Alike L w) (bodies : ∀ b, L.Holds Eq (v.body b) fun i => (w i).body b)

include bodies

theorem handOver (b? : Option Body) :
    L.Holds Eq (Body.handOver v b?) fun i => Body.handOver (w i) b? := by
  cases b? with
  | none => exact L.pure rfl
  | some b => exact L.mapSame (bodies b) _

include h

theorem visit_function (site : FunctionSite) (f : Function) :
    L.Holds Eq (f.visit v site) fun i => f.visit (w i) site := by
  refine h.within _ _ (L.bindSame (h.visit_generics f.generics) fun _ => ?_)
  refine L.bindSame (h.visit_typedNames f.args) fun _ => ?_
  exact L.bindSame (h.visit_ty f.result) fun _ => L.mapSame (handOver bodies f.body?) _

theorem visit_methods (site : String → FunctionSite) (methods : Table Function) :
    L.Holds Eq (Function.visitTable v site methods)
      fun i => Function.visitTable (w i) site methods :=
  L.mapSame (L.mapMSame (fun entry =>
    L.mapSame (h.visit_function bodies (site entry.1) entry.2) _) methods.entries) _

theorem visit_static (name : ItemName) (s : Static) :
    L.Holds Eq (s.visit v name) fun i => s.visit (w i) name := by
  refine h.within _ _ (L.bindSame (h.visit_ty s.type) fun _ => ?_)
  exact L.mapSame (handOver bodies s.body?) _

theorem visit_trait (name : ItemName) (t : Trait) :
    L.Holds Eq (t.visit v name) fun i => t.visit (w i) name := by
  refine h.within _ _ (L.bindSame (h.visit_generics t.generics) fun _ => ?_)
  refine L.bindSame (L.mapMSame (fun entry =>
    L.mapSame (h.visit_assocType entry.2) _) t.types.entries) fun _ => ?_
  exact L.mapSame (h.visit_methods bodies _ t.methods) _

theorem visit_inherentImpl (block : InherentImpl) :
    L.Holds Eq (block.visit v) fun i => block.visit (w i) := by
  refine h.within _ _ (L.bindSame (h.visit_generics block.generics) fun _ => ?_)
  refine L.bindSame (h.visit_ty block.self) fun self => ?_
  exact L.mapSame (h.visit_methods bodies (.inherent self) block.methods) _

theorem visit_traitImpl (block : TraitImpl) :
    L.Holds Eq (block.visit v) fun i => block.visit (w i) := by
  refine h.within _ _ (L.bindSame (h.visit_generics block.generics) fun _ => ?_)
  refine L.bindSame (h.visit_itemRef block.trait) fun trait => ?_
  refine L.bindSame (h.visit_ty block.self) fun self => ?_
  refine L.bindSame (L.mapMSame (fun entry =>
    L.mapSame (h.visit_ty entry.2) _) block.types.entries) fun _ => ?_
  exact L.mapSame (h.visit_methods bodies (.ofTrait trait.name (some self)) block.methods) _

end Visitor.Alike

mutual

theorem Visitor.Alike.visit_item (h : v.Alike L w)
    (bodies : ∀ b, L.Holds Eq (v.body b) fun i => (w i).body b) :
    ∀ (name : ItemName) (item : Item),
      L.Holds Eq (item.visit v name) fun i => item.visit (w i) name
  | name, .module ⟨entries⟩ =>
      h.within _ _ (h.within _ _ (L.mapSame (h.visit_entries bodies name entries) _))
  | _, .function f => h.within _ _ (L.mapSame (h.visit_function bodies _ f) _)
  | name, .struct s => h.within _ _ (L.mapSame (h.visit_struct name s) _)
  | name, .enum e => h.within _ _ (L.mapSame (h.visit_enum name e) _)
  | _, .typeAlias a => h.within _ _ (L.mapSame (h.visit_typeAlias a) _)
  | name, .static s => h.within _ _ (L.mapSame (h.visit_static bodies name s) _)
  | name, .trait t => h.within _ _ (L.mapSame (h.visit_trait bodies name t) _)

theorem Visitor.Alike.visit_entries (h : v.Alike L w)
    (bodies : ∀ b, L.Holds Eq (v.body b) fun i => (w i).body b) :
    ∀ (name : ItemName) (entries : List (String × Item)),
      L.Holds Eq (Item.visitEntries v name entries)
        fun i => Item.visitEntries (w i) name entries
  | _, [] => L.pure rfl
  | name, (segment, item) :: entries =>
      L.bindSame (h.visit_item bodies (name.child segment) item) fun _ =>
        L.mapSame (h.visit_entries bodies name entries) _

end

theorem Visitor.Alike.visit_crate (h : v.Alike L w)
    (bodies : ∀ b, L.Holds Eq (v.body b) fun i => (w i).body b) (c : Crate) :
    L.Holds Eq (c.visit v) fun i => c.visit (w i) := by
  have items : L.Holds Eq (c.items.visit v (.root c.name))
      fun i => c.items.visit (w i) (.root c.name) :=
    h.within _ _ (L.mapSame (h.visit_entries bodies _ c.items.entries) _)
  refine h.within _ _ (L.bindSame items fun _ => ?_)
  refine L.bindSame (L.mapMSame (h.visit_inherentImpl bodies) c.inherentImpls) fun _ => ?_
  exact L.mapSame (L.mapMSame (h.visit_traitImpl bodies) c.traitImpls) _

end Crates

end Unerase
