import Unerase.Visitor.Basic

/-!
The walk over types and paths. Parts are visited from left to right. Constants
are not visited.
-/

namespace Unerase

mutual

variable {ε σ : Type} (v : Visitor ε σ)

/-- Shows a type to the visitor, and walks it unless it is replaced. -/
def Ty.visit (t : Ty) : Run (Fault ε) σ Ty :=
  v.reach t <|
    match t with
    | .never => pure .never
    | .prim p => pure (.prim p)
    | .path p => do
        let p ← p.visit
        pure (.path p)
    | .param p => pure (.param p)
    | .dyn trait markers => do
        let trait ← trait.visit
        let markers ← ItemRef.visitList markers
        pure (.dyn trait markers)
    | .erased origin index bounds =>
        v.placeholder index origin.visit (ItemRef.visitList bounds)
    | .array elem size => do
        let elem ← elem.visit
        pure (.array elem size)
    | .slice elem => do
        let elem ← elem.visit
        pure (.slice elem)
    | .tuple elems => do
        let elems ← Ty.visitList elems
        pure (.tuple elems)
    | .ref kind target => do
        let target ← target.visit
        pure (.ref kind target)
    | .ptr mutable target => do
        let target ← target.visit
        pure (.ptr mutable target)
    | .fn args result => do
        let args ← Ty.visitList args
        let result ← result.visit
        pure (.fn args result)
termination_by structural t

/-- Visits what a path is made of: self type, trait and arguments. -/
def Path.visit (p : Path) : Run (Fault ε) σ Path :=
  v.within (.path p) p <|
    match p with
    | .item target => do
        let target ← target.visit
        pure (.item target)
    | .inherent self name args => do
        let self ← self.visit
        let args ← args.visit
        pure (.inherent self name args)
    | .known self trait name args => do
        let self ← self.visit
        let trait ← trait.visit
        let args ← args.visit
        pure (.known self trait name args)
    | .unknown self name args => do
        let self ← self.visit
        let args ← args.visit
        pure (.unknown self name args)
termination_by structural p

/-- Visits the arguments of a reference to an item. -/
def ItemRef.visit (r : ItemRef) : Run (Fault ε) σ ItemRef :=
  v.within (.itemRef r) r <|
    match r with
    | ⟨name, args⟩ => do
        let args ← args.visit
        pure ⟨name, args⟩
termination_by structural r

/-- Visits the types among generic arguments. -/
def Args.visit (a : Args) : Run (Fault ε) σ Args :=
  v.within (.args a) a <|
    match a with
    | ⟨types, consts⟩ => do
        let types ← Ty.visitList types
        pure ⟨types, consts⟩
termination_by structural a

/-- Visits types one after the other. -/
def Ty.visitList : List Ty → Run (Fault ε) σ (List Ty)
  | [] => pure []
  | t :: ts => do
      let t ← t.visit
      let ts ← Ty.visitList ts
      pure (t :: ts)
termination_by structural ts => ts

def ItemRef.visitList : List ItemRef → Run (Fault ε) σ (List ItemRef)
  | [] => pure []
  | r :: rs => do
      let r ← r.visit
      let rs ← ItemRef.visitList rs
      pure (r :: rs)
termination_by structural rs => rs

end

/-- The walk over the parts of a type. -/
def Ty.walk {ε σ : Type} (v : Visitor ε σ) : Ty → Run (Fault ε) σ Ty
  | .never => pure .never
  | .prim p => pure (.prim p)
  | .path p => do
      let p ← p.visit v
      pure (.path p)
  | .param p => pure (.param p)
  | .dyn trait markers => do
      let trait ← trait.visit v
      let markers ← ItemRef.visitList v markers
      pure (.dyn trait markers)
  | .erased origin index bounds =>
      v.placeholder index (origin.visit v) (ItemRef.visitList v bounds)
  | .array elem size => do
      let elem ← elem.visit v
      pure (.array elem size)
  | .slice elem => do
      let elem ← elem.visit v
      pure (.slice elem)
  | .tuple elems => do
      let elems ← Ty.visitList v elems
      pure (.tuple elems)
  | .ref kind target => do
      let target ← target.visit v
      pure (.ref kind target)
  | .ptr mutable target => do
      let target ← target.visit v
      pure (.ptr mutable target)
  | .fn args result => do
      let args ← Ty.visitList v args
      let result ← result.visit v
      pure (.fn args result)

theorem Ty.visit_eq_reach {ε σ : Type} (v : Visitor ε σ) (t : Ty) :
    t.visit v = v.reach t (t.walk v) := by
  cases t <;> rfl

def Ty.visitOption {ε σ : Type} (v : Visitor ε σ) :
    Option Ty → Run (Fault ε) σ (Option Ty)
  | none => pure none
  | some t => do
      let t ← t.visit v
      pure (some t)

/-- Visits the types of names one after the other. -/
def TypedName.visitList {ε σ : Type} (v : Visitor ε σ) :
    List TypedName → Run (Fault ε) σ (List TypedName)
  | [] => pure []
  | ⟨name, type⟩ :: rest => do
      let type ← type.visit v
      let rest ← TypedName.visitList v rest
      pure (⟨name, type⟩ :: rest)

end Unerase
