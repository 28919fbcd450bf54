import Unerase.ItemName

/-!
The types of a typed program. A type in which nothing is erased is an ordinary
type expression. An erased type is a placeholder: it hides a concrete type
behind the function that produces it and a position in that function's list of
templates.
-/

namespace Unerase

/-- The built-in types. -/
inductive Prim where
  | bool | char | str
  | u8 | u16 | u32 | u64 | usize
  | i8 | i16 | i32 | i64 | isize
  | f32 | f64
deriving DecidableEq

/-- The parameter list that a parameter belongs to, and its position in it. -/
inductive Slot where
  /-- The type on which a method is defined. -/
  | self
  /-- A parameter of the enclosing impl block. -/
  | impl (index : Nat)
  /-- A parameter of the function itself. -/
  | method (index : Nat)
deriving DecidableEq

/-- A use of a generic parameter. The slot says which parameter is meant; the
name is for display, although two uses are equal only if it agrees as well. -/
structure Param where
  name : String
  slot : Slot
deriving DecidableEq

/-- A constant argument, such as the length of an array. -/
inductive Const where
  | lit (value : Nat)
  | param (p : Param)
deriving DecidableEq

/-- Whether a reference may be shared, or gives access to change its target. -/
inductive RefKind where
  | shared | unique
deriving DecidableEq

mutual

/-- A type, which may hold placeholders at any depth. -/
inductive Ty where
  /-- The type of expressions that do not return. -/
  | never
  | prim (p : Prim)
  /-- A named type, or an associated type. -/
  | path (p : Path)
  | param (p : Param)
  /-- An object of a trait, with marker traits. -/
  | dyn (trait : ItemRef) (markers : List ItemRef)
  /-- The placeholder for template `index` of the function at `origin`. The
  bounds are the traits that the hidden type is known to have. -/
  | erased (origin : Path) (index : Nat) (bounds : List ItemRef)
  | array (elem : Ty) (size : Const)
  | slice (elem : Ty)
  | tuple (elems : List Ty)
  | ref (kind : RefKind) (target : Ty)
  | ptr (mutable : Bool) (target : Ty)
  | fn (args : List Ty) (result : Ty)

/-- A reference to an item, possibly through a type. -/
inductive Path where
  /-- An item reached by its own name. -/
  | item (target : ItemRef)
  /-- An item declared in an impl block of a type. -/
  | inherent (self : Ty) (name : String) (args : Args)
  /-- An item that a type has through a given trait. -/
  | known (self : Ty) (trait : ItemRef) (name : String) (args : Args)
  /-- An item that a type has through a trait still to be found. -/
  | unknown (self : Ty) (name : String) (args : Args)

/-- The name of an item together with its generic arguments. -/
structure ItemRef where
  name : ItemName
  args : Args

/-- Generic arguments: types, then constants. -/
structure Args where
  types : List Ty
  consts : List Const

end

namespace Args

def isEmpty (a : Args) : Bool :=
  a.types.isEmpty && a.consts.isEmpty

end Args

/-- The type is itself a placeholder. -/
def Ty.isErased : Ty → Bool
  | .erased .. => true
  | _ => false

mutual

/-- Some placeholder occurs in the type. -/
def Ty.hasErased : Ty → Bool
  | .never | .prim _ | .param _ => false
  | .path p => p.hasErased
  | .dyn trait markers => trait.hasErased || ItemRef.anyErased markers
  | .erased .. => true
  | .array elem _ | .slice elem => elem.hasErased
  | .tuple elems => Ty.anyErased elems
  | .ref _ target | .ptr _ target => target.hasErased
  | .fn args result => Ty.anyErased args || result.hasErased
termination_by structural t => t

/-- Some placeholder occurs in the self type, the trait or the arguments. -/
def Path.hasErased : Path → Bool
  | .item target => target.hasErased
  | .inherent self _ args | .unknown self _ args =>
      self.hasErased || args.hasErased
  | .known self trait _ args =>
      self.hasErased || trait.hasErased || args.hasErased
termination_by structural p => p

def ItemRef.hasErased : ItemRef → Bool
  | ⟨_, args⟩ => args.hasErased
termination_by structural r => r

def Args.hasErased : Args → Bool
  | ⟨types, _⟩ => Ty.anyErased types
termination_by structural a => a

def Ty.anyErased : List Ty → Bool
  | [] => false
  | t :: ts => t.hasErased || Ty.anyErased ts
termination_by structural ts => ts

def ItemRef.anyErased : List ItemRef → Bool
  | [] => false
  | r :: rs => r.hasErased || ItemRef.anyErased rs
termination_by structural rs => rs

end

theorem Ty.anyErased_eq_any (ts : List Ty) :
    Ty.anyErased ts = ts.any Ty.hasErased := by
  induction ts with
  | nil => simp [Ty.anyErased]
  | cons t ts ih => simp [Ty.anyErased, ih]

theorem ItemRef.anyErased_eq_any (rs : List ItemRef) :
    ItemRef.anyErased rs = rs.any ItemRef.hasErased := by
  induction rs with
  | nil => simp [ItemRef.anyErased]
  | cons r rs ih => simp [ItemRef.anyErased, ih]

end Unerase
