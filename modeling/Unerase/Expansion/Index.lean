import Unerase.Crate
import Unerase.Expansion.ImplBinding
import Unerase.Ty.Fit
import Unerase.Ty.Subst

/-!
An index of the functions of a crate that own templates, and the search for the
template behind a placeholder. The index is a snapshot: it does not follow later
changes of the crate.
-/

namespace Unerase

/-- What is kept of a function: its parameters and its templates. -/
structure FunctionEntry where
  generics : Generics
  templates : List Ty
deriving DecidableEq

/-- What the index keeps of a function. -/
def FunctionEntry.ofFunction (f : Function) : FunctionEntry :=
  ⟨f.generics, f.templates⟩

/-- What is kept of an impl block of a type. -/
structure ImplEntry where
  generics : Generics
  self : Ty
  methods : Table FunctionEntry

/-- What the index keeps of a block. -/
def ImplEntry.ofInherentImpl (block : InherentImpl) : ImplEntry :=
  ⟨block.generics, block.self, block.methods.map FunctionEntry.ofFunction⟩

/-- The functions of a crate by name and its impl blocks, in order of
declaration. -/
structure Index where
  functions : List (ItemName × FunctionEntry)
  impls : List ImplEntry

namespace Index

def empty : Index := ⟨[], []⟩

/-- The index of a crate as it is now. Traits and their impl blocks are not part of it. -/
def ofCrate (c : Crate) : Index where
  functions := c.functions.map fun (name, f) => (name, .ofFunction f)
  impls := c.inherentImpls.map .ofInherentImpl

/-- The entry of the function with a name. -/
def getFunction? (index : Index) (name : ItemName) : Option FunctionEntry :=
  index.functions.lookup name

/-- The first impl block that may apply to the receiver and has a method of the
given name, together with that method. -/
def findMethod? (index : Index) (receiver : Ty) (name : String) :
    Option (ImplEntry × FunctionEntry) :=
  index.impls.findSome? fun block =>
    if block.self.fits receiver then
      (block.methods.get? name).map fun f => (block, f)
    else none

/-- The function that an origin names, and the values that the origin gives to
the parameters of its templates. -/
def resolve (index : Index) (origin : Path) :
    Except (Fault ExpansionError) (FunctionEntry × Subst) :=
  match origin with
  | .unknown .. => .error (.error (.unresolved origin))
  | .known .. => .error (.error (.unsupported origin .traitMethod))
  | .item ⟨name, args⟩ =>
      match index.getFunction? name with
      | some f => .ok (f, .ofFunction args)
      | none => .error (.error (.notFound origin .function))
  | .inherent self name args =>
      match index.findMethod? self name with
      | none => .error (.error (.notFound origin .inherentMethod))
      | some (block, f) =>
          match block.self.matchWith (ImplBinding.matcher origin) self
              (ImplBinding.unbound block.generics) with
          | (.error e, _) => .error (.error e)
          | (.ok (), bound) => do
              let impl ← bound.toArgs origin block.generics
              .ok (f, .ofInherent self impl args)

/-- The template that a key names, before its parameters are replaced. -/
def template (index : Index) (key : TemplateKey) :
    Except (Fault ExpansionError) (Ty × Subst) := do
  let (f, s) ← index.resolve key.origin
  match f.templates[key.index]? with
  | some t => .ok (t, s)
  | none => .error (.error (.outOfRange key f.templates.length))

end Index

/-- A template with its parameters replaced. If one of them has no value, the
error carries the template. -/
def Subst.instantiate (s : Subst) (template : Ty) : Except ExpansionError Ty :=
  match template.subst s with
  | .ok t => .ok t
  | .error p => .error (.uncovered p template)

/-- The type that a key stands for, in which placeholders may remain. -/
def Index.unfold (index : Index) (key : TemplateKey) :
    Except (Fault ExpansionError) Ty := do
  let (t, s) ← index.template key
  match s.instantiate t with
  | .ok t => .ok t
  | .error e => .error (.error e)

end Unerase
