import Unerase.Ty.Equality

/-!
Substitution of types and constants for generic parameters. There are three
sources of values, one per kind of slot: the self type, the arguments of the impl
block, and the arguments of the function. A substitution fails at the first
parameter for which its source has no value.
-/

namespace Unerase

/-- Values for generic parameters. A source may be absent altogether. -/
structure Subst where
  self? : Option Ty
  impl? : Option Args
  method? : Option Args
deriving DecidableEq

namespace Subst

/-- The values at a call of a function with generic arguments. -/
def ofFunction (args : Args) : Subst :=
  ⟨none, none, some args⟩

/-- The values at a call of a method of an impl block. -/
def ofInherent (self : Ty) (impl method : Args) : Subst :=
  ⟨some self, some impl, some method⟩

/-- The type for a parameter. -/
def getType? (s : Subst) (p : Param) : Option Ty :=
  match p.slot with
  | .self => s.self?
  | .impl index => s.impl?.bind fun args => args.types[index]?
  | .method index => s.method?.bind fun args => args.types[index]?

/-- The constant for a parameter. No constant stands for the self type. -/
def getConst? (s : Subst) (p : Param) : Option Const :=
  match p.slot with
  | .self => none
  | .impl index => s.impl?.bind fun args => args.consts[index]?
  | .method index => s.method?.bind fun args => args.consts[index]?

end Subst

/-- The value found for a parameter, or else the parameter as the error. -/
def Param.orUncovered {α : Type} (p : Param) : Option α → Except Param α
  | some a => .ok a
  | none => .error p

/-- Replaces the parameter that a constant may be. -/
def Const.subst (s : Subst) : Const → Except Param Const
  | .param p => p.orUncovered (s.getConst? p)
  | .lit value => .ok (.lit value)

def Const.substList (s : Subst) : List Const → Except Param (List Const)
  | [] => .ok []
  | c :: cs => do
      let c ← c.subst s
      let cs ← Const.substList s cs
      .ok (c :: cs)

mutual

variable (s : Subst)

/-- Replaces every parameter in a type, from left to right. A placeholder stays a
placeholder: replaced are the parameters in its origin and in its bounds. -/
def Ty.subst : Ty → Except Param Ty
  | .never => .ok .never
  | .prim p => .ok (.prim p)
  | .path p => do
      let p ← p.subst
      .ok (.path p)
  | .param p => p.orUncovered (s.getType? p)
  | .dyn trait markers => do
      let trait ← trait.subst
      let markers ← ItemRef.substList markers
      .ok (.dyn trait markers)
  | .erased origin index bounds => do
      let origin ← origin.subst
      let bounds ← ItemRef.substList bounds
      .ok (.erased origin index bounds)
  | .array elem size => do
      let elem ← elem.subst
      let size ← size.subst s
      .ok (.array elem size)
  | .slice elem => do
      let elem ← elem.subst
      .ok (.slice elem)
  | .tuple elems => do
      let elems ← Ty.substList elems
      .ok (.tuple elems)
  | .ref kind target => do
      let target ← target.subst
      .ok (.ref kind target)
  | .ptr mutable target => do
      let target ← target.subst
      .ok (.ptr mutable target)
  | .fn args result => do
      let args ← Ty.substList args
      let result ← result.subst
      .ok (.fn args result)
termination_by structural t => t

/-- Replaces every parameter in a path. -/
def Path.subst : Path → Except Param Path
  | .item target => do
      let target ← target.subst
      .ok (.item target)
  | .inherent self name args => do
      let self ← self.subst
      let args ← args.subst
      .ok (.inherent self name args)
  | .known self trait name args => do
      let self ← self.subst
      let trait ← trait.subst
      let args ← args.subst
      .ok (.known self trait name args)
  | .unknown self name args => do
      let self ← self.subst
      let args ← args.subst
      .ok (.unknown self name args)
termination_by structural p => p

def ItemRef.subst : ItemRef → Except Param ItemRef
  | ⟨name, args⟩ => do
      let args ← args.subst
      .ok ⟨name, args⟩
termination_by structural r => r

def Args.subst : Args → Except Param Args
  | ⟨types, consts⟩ => do
      let types ← Ty.substList types
      let consts ← Const.substList s consts
      .ok ⟨types, consts⟩
termination_by structural a => a

def Ty.substList : List Ty → Except Param (List Ty)
  | [] => .ok []
  | t :: ts => do
      let t ← t.subst
      let ts ← Ty.substList ts
      .ok (t :: ts)
termination_by structural ts => ts

def ItemRef.substList : List ItemRef → Except Param (List ItemRef)
  | [] => .ok []
  | r :: rs => do
      let r ← r.subst
      let rs ← ItemRef.substList rs
      .ok (r :: rs)
termination_by structural rs => rs

end

end Unerase
