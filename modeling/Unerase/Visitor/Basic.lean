import Unerase.Item
import Unerase.Ty.Text

/-!
Visitors. A walk over a program comes to its parts in a fixed order and rebuilds
the program from what it is left with. A visitor directs the walk: it is told of
every part before the part is walked, may replace types, and may stop the walk.
-/

namespace Unerase

/-- Where a function is declared, and its name there. -/
inductive FunctionSite where
  | free (name : ItemName)
  /-- A method in an impl block of a type. -/
  | inherent (self : Ty) (name : String)
  /-- A method in a trait, or in an impl block of the trait for a type. -/
  | ofTrait (trait : ItemName) (self? : Option Ty) (name : String)
deriving DecidableEq

/-- The full name of the function for a reader. -/
def FunctionSite.text : FunctionSite → String
  | free name => name.text
  | inherent self name => "<" ++ self.text ++ ">::" ++ name
  | ofTrait trait (some self) name =>
      "<" ++ self.text ++ " as " ++ trait.text ++ ">::" ++ name
  | ofTrait trait none name => trait.text ++ "::" ++ name

/-- A part of a program that a visitor is told of, other than a type. A type alias is told
of as an item only, and has no walk of its own. -/
inductive Site where
  | path (p : Path)
  | itemRef (r : ItemRef)
  | args (a : Args)
  | crate (name : String)
  | module (name : ItemName)
  | item (name : ItemName)
  | function (site : FunctionSite)
  | struct (name : ItemName)
  | enum (name : ItemName)
  | static (name : ItemName)
  | trait (name : ItemName)
  | inherentImpl (self : Ty)
  | traitImpl (trait : ItemRef) (self : Ty)
  | generics (g : Generics)
  /-- A body, given by the position of its outermost node. -/
  | body (root : NodeId)
  | node (id : NodeId)
deriving DecidableEq

/-- The director of a walk that carries a state `σ` and may be stopped with an
`ε`. Each default leads to a walk that visits everything outside bodies and
changes nothing. -/
structure Visitor (ε σ : Type) where
  /-- Told of a part before it is walked. The answer is whether to walk it; a part
  that is not walked stays as it is. -/
  enter : Site → Run (Fault ε) σ Bool := fun _ => pure true
  /-- Told of a type before it is walked. A type in the answer takes its place and
  is not walked. -/
  type : Ty → Run (Fault ε) σ (Option Ty) := fun _ => pure none
  /-- How to walk a placeholder with the given position, of which the origin and
  the bounds can be visited. -/
  placeholder : (index : Nat) → (origin : Run (Fault ε) σ Path) →
      (bounds : Run (Fault ε) σ (List ItemRef)) → Run (Fault ε) σ Ty :=
    fun index origin bounds => do
      let origin ← origin
      let bounds ← bounds
      pure (.erased origin index bounds)
  /-- Called with each body that the walk over items comes to. -/
  body : Body → Run (Fault ε) σ Body := pure
  /-- How many steps to go on in a body after as many steps as it has nodes. A body
  that does not refer back to itself is complete before that. -/
  patience : Nat := 1048576

namespace Visitor

variable {ε σ α : Type}

/-- Announces a part and walks it if the visitor agrees. -/
def within (v : Visitor ε σ) (site : Site) (unchanged : α)
    (walk : Run (Fault ε) σ α) : Run (Fault ε) σ α := do
  let walked ← v.enter site
  if walked then walk else pure unchanged

/-- Announces a type and walks it if the visitor does not replace it. -/
def reach (v : Visitor ε σ) (t : Ty) (walk : Run (Fault ε) σ Ty) :
    Run (Fault ε) σ Ty := do
  match ← v.type t with
  | some replacement => pure replacement
  | none => walk

end Visitor

end Unerase
