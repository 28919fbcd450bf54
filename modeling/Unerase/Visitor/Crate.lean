import Unerase.Crate
import Unerase.Visitor.Ty

/-!
The walk over the items of a crate and over everything in their signatures:
first the modules in order of declaration, then the impl blocks of types, then
those of traits. Generic parameters come before what they are parameters of.
Bodies are handed to the visitor.
-/

namespace Unerase

variable {ε σ : Type}

def TypeParam.visit (v : Visitor ε σ) (p : TypeParam) :
    Run (Fault ε) σ TypeParam := do
  let default? ← Ty.visitOption v p.default?
  pure { p with default? }

def Bound.visit (v : Visitor ε σ) : Bound → Run (Fault ε) σ Bound
  | .implements type trait => do
      let type ← type.visit v
      let trait ← trait.visit v
      pure (.implements type trait)
  | .equal type other => do
      let type ← type.visit v
      let other ← other.visit v
      pure (.equal type other)

/-- Visits generic parameters: the defaults of type parameters, the types of
constant parameters, and the conditions. -/
def Generics.visit (v : Visitor ε σ) (g : Generics) :
    Run (Fault ε) σ Generics :=
  v.within (.generics g) g do
    let types ← g.types.mapM (TypeParam.visit v)
    let consts ← TypedName.visitList v g.consts
    let bounds ← g.bounds.mapM (Bound.visit v)
    pure { types, consts, bounds }

/-- Calls the visitor with the body, if there is one. -/
def Body.handOver (v : Visitor ε σ) :
    Option Body → Run (Fault ε) σ (Option Body)
  | none => pure none
  | some body => do
      let body ← v.body body
      pure (some body)

/-- Visits the signature of a function, and then hands its body over. -/
def Function.visit (v : Visitor ε σ) (site : FunctionSite) (f : Function) :
    Run (Fault ε) σ Function :=
  v.within (.function site) f do
    let generics ← f.generics.visit v
    let args ← TypedName.visitList v f.args
    let result ← f.result.visit v
    let body? ← Body.handOver v f.body?
    pure { generics, args, result, body? }

/-- Visits methods in order. Each is announced at the site that its name gives. -/
def Function.visitTable (v : Visitor ε σ) (site : String → FunctionSite)
    (methods : Table Function) : Run (Fault ε) σ (Table Function) := do
  let entries ← methods.entries.mapM fun (name, method) => do
    let method ← method.visit v (site name)
    pure (name, method)
  pure ⟨entries⟩

def Struct.visit (v : Visitor ε σ) (name : ItemName) (s : Struct) :
    Run (Fault ε) σ Struct :=
  v.within (.struct name) s do
    let generics ← s.generics.visit v
    let fields ← TypedName.visitList v s.fields
    pure { generics, fields }

def Enum.visit (v : Visitor ε σ) (name : ItemName) (e : Enum) :
    Run (Fault ε) σ Enum :=
  v.within (.enum name) e do
    let generics ← e.generics.visit v
    let variants ← e.variants.mapM fun variant => do
      let fields ← Ty.visitList v variant.fields
      pure { variant with fields }
    pure { generics, variants }

/-- Visits a type alias, which is not announced by itself. -/
def TypeAlias.visit (v : Visitor ε σ) (a : TypeAlias) :
    Run (Fault ε) σ TypeAlias := do
  let generics ← a.generics.visit v
  let type ← a.type.visit v
  pure { generics, type }

def Static.visit (v : Visitor ε σ) (name : ItemName) (s : Static) :
    Run (Fault ε) σ Static :=
  v.within (.static name) s do
    let type ← s.type.visit v
    let body? ← Body.handOver v s.body?
    pure { type, body? }

def AssocType.visit (v : Visitor ε σ) (a : AssocType) :
    Run (Fault ε) σ AssocType := do
  let bounds ← ItemRef.visitList v a.bounds
  let default? ← Ty.visitOption v a.default?
  pure { bounds, default? }

/-- Visits a trait: its parameters, its associated types, and its methods. -/
def Trait.visit (v : Visitor ε σ) (name : ItemName) (t : Trait) :
    Run (Fault ε) σ Trait :=
  v.within (.trait name) t do
    let generics ← t.generics.visit v
    let types ← t.types.entries.mapM fun (key, type) => do
      let type ← type.visit v
      pure (key, type)
    let methods ← Function.visitTable v (.ofTrait name none) t.methods
    pure { generics, types := ⟨types⟩, methods }

/-- Visits an impl block of a type. Methods are announced with the self type as
the visit has left it. -/
def InherentImpl.visit (v : Visitor ε σ) (block : InherentImpl) :
    Run (Fault ε) σ InherentImpl :=
  v.within (.inherentImpl block.self) block do
    let generics ← block.generics.visit v
    let self ← block.self.visit v
    let methods ← Function.visitTable v (.inherent self) block.methods
    pure { generics, self, methods }

/-- Visits an impl block of a trait. Methods are announced with the self type as
the visit has left it. -/
def TraitImpl.visit (v : Visitor ε σ) (block : TraitImpl) :
    Run (Fault ε) σ TraitImpl :=
  v.within (.traitImpl block.trait block.self) block do
    let generics ← block.generics.visit v
    let trait ← block.trait.visit v
    let self ← block.self.visit v
    let types ← block.types.entries.mapM fun (key, type) => do
      let type ← type.visit v
      pure (key, type)
    let methods ← Function.visitTable v (.ofTrait trait.name (some self)) block.methods
    pure { generics, trait, self, types := ⟨types⟩, methods }

mutual

variable (v : Visitor ε σ)

/-- Announces an item of any kind, and then visits it as what it is. -/
def Item.visit (name : ItemName) (item : Item) : Run (Fault ε) σ Item :=
  v.within (.item name) item <|
    match item with
    | .module ⟨entries⟩ =>
        v.within (.module name) (.module ⟨entries⟩) do
          let entries ← Item.visitEntries name entries
          pure (.module ⟨entries⟩)
    | .function f => do
        let f ← f.visit v (.free name)
        pure (.function f)
    | .struct s => do
        let s ← s.visit v name
        pure (.struct s)
    | .enum e => do
        let e ← e.visit v name
        pure (.enum e)
    | .typeAlias a => do
        let a ← a.visit v
        pure (.typeAlias a)
    | .static s => do
        let s ← s.visit v name
        pure (.static s)
    | .trait t => do
        let t ← t.visit v name
        pure (.trait t)
termination_by structural item

def Item.visitEntries (name : ItemName) :
    List (String × Item) → Run (Fault ε) σ (List (String × Item))
  | [] => pure []
  | (segment, item) :: entries => do
      let item ← item.visit (name.child segment)
      let entries ← Item.visitEntries name entries
      pure ((segment, item) :: entries)
termination_by structural entries => entries

end

/-- Visits the root module of a crate. -/
def Items.visit (v : Visitor ε σ) (name : ItemName) (items : Items) :
    Run (Fault ε) σ Items :=
  v.within (.module name) items do
    let entries ← Item.visitEntries v name items.entries
    pure ⟨entries⟩

theorem Item.visit_module (v : Visitor ε σ) (name : ItemName) (items : Items) :
    Item.visit v name (.module items) =
      v.within (.item name) (.module items)
        (Item.module <$> items.visit v name) := by
  simp only [Item.visit, Items.visit, Visitor.within, map_bind]
  congr 1
  funext walked
  cases walked with
  | false => rfl
  | true =>
      simp only [if_true]
      congr 1
      funext walked
      cases walked <;> simp

/-- Visits a crate: its items, its impl blocks of types, and those of traits. -/
def Crate.visit (v : Visitor ε σ) (c : Crate) : Run (Fault ε) σ Crate :=
  v.within (.crate c.name) c do
    let items ← c.items.visit v (.root c.name)
    let inherentImpls ← c.inherentImpls.mapM (InherentImpl.visit v)
    let traitImpls ← c.traitImpls.mapM (TraitImpl.visit v)
    pure { c with items, inherentImpls, traitImpls }

end Unerase
