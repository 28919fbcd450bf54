import Unerase.Body
import Unerase.Table

/-!
The items of a compilation unit: functions, type definitions, statics, traits
and modules, and beside them the impl blocks.

Items are compared with `==`, which ignores the order of modules, methods and
associated types and compares floating-point literals as numbers.
-/

namespace Unerase

/-- A type parameter, possibly with a default. -/
structure TypeParam where
  name : String
  default? : Option Ty
deriving DecidableEq

/-- A condition on generic parameters. -/
inductive Bound where
  /-- The type has the trait. -/
  | implements (type : Ty) (trait : ItemRef)
  /-- The two types are the same. -/
  | equal (type other : Ty)
deriving DecidableEq

/-- A list of generic parameters with the conditions on them. -/
structure Generics where
  types : List TypeParam
  consts : List TypedName
  bounds : List Bound
deriving DecidableEq

namespace Generics

/-- There are no parameters. Conditions alone do not count. -/
def isEmpty (g : Generics) : Bool :=
  g.types.isEmpty && g.consts.isEmpty

end Generics

/-- A function. A method that a trait leaves open has no body. -/
structure Function where
  generics : Generics
  args : List TypedName
  result : Ty
  body? : Option Body
deriving BEq

/-- The types behind the placeholders in the signature of a function, in the
order in which they are written there. -/
def Function.templates (f : Function) : List Ty :=
  match f.body? with
  | some body => body.templates
  | none => []

/-- A record type with its fields. -/
structure Struct where
  generics : Generics
  fields : List TypedName
deriving DecidableEq

/-- One of the alternatives of an enum. -/
structure Variant where
  name : String
  fields : List Ty
deriving DecidableEq

/-- A type with several alternatives. -/
structure Enum where
  generics : Generics
  variants : List Variant
deriving DecidableEq

/-- Another name for a type. -/
structure TypeAlias where
  generics : Generics
  type : Ty
deriving DecidableEq

/-- A global variable, with the expression that it starts with. -/
structure Static where
  type : Ty
  body? : Option Body
deriving BEq

/-- A type that comes with a trait: what is known of it, and its default. -/
structure AssocType where
  bounds : List ItemRef
  default? : Option Ty
deriving DecidableEq

/-- A trait with its associated types and its methods. -/
structure Trait where
  generics : Generics
  types : Table AssocType
  methods : Table Function
deriving BEq

/-- An impl block of a type. Its self type is a pattern over the parameters of
the block. -/
structure InherentImpl where
  generics : Generics
  self : Ty
  methods : Table Function
deriving BEq

/-- An impl block of a trait for a type. -/
structure TraitImpl where
  generics : Generics
  trait : ItemRef
  self : Ty
  types : Table Ty
  methods : Table Function
deriving BEq

/-- What a name in a module may stand for. -/
inductive Item where
  | module (items : Table Item)
  | function (f : Function)
  | struct (s : Struct)
  | enum (e : Enum)
  | typeAlias (a : TypeAlias)
  | static (s : Static)
  | trait (t : Trait)

/-- The contents of a module. -/
abbrev Items := Table Item

mutual

/-- Compares two items of the same kind; items of different kinds differ. -/
def Item.equal : Item → Item → Bool
  | .module ⟨entries⟩, other =>
      match other with
      | .module items =>
          entries.length == items.entries.length &&
            Item.equalEntries entries items
      | _ => false
  | .function f, other => match other with | .function g => f == g | _ => false
  | .struct s, other => match other with | .struct r => s == r | _ => false
  | .enum e, other => match other with | .enum d => e == d | _ => false
  | .typeAlias a, other => match other with | .typeAlias b => a == b | _ => false
  | .static s, other => match other with | .static r => s == r | _ => false
  | .trait t, other => match other with | .trait u => t == u | _ => false
termination_by structural item => item

/-- Every entry has an equal item under its name in the other module. -/
def Item.equalEntries : List (String × Item) → Items → Bool
  | [], _ => true
  | (name, item) :: entries, items =>
      (match items.get? name with
      | some other => item.equal other
      | none => false) && Item.equalEntries entries items
termination_by structural entries => entries

end

instance : BEq Item := ⟨Item.equal⟩

theorem Item.equalEntries_eq_all (entries : List (String × Item))
    (items : Items) :
    Item.equalEntries entries items = entries.all fun entry =>
      match items.get? entry.1 with
      | some other => entry.2 == other
      | none => false := by
  induction entries with
  | nil => simp [Item.equalEntries]
  | cons entry entries ih =>
      obtain ⟨name, item⟩ := entry
      simp only [Item.equalEntries, ih, List.all_cons]
      rfl

theorem Item.module_beq_module (a b : Items) :
    (Item.module a == Item.module b) = (a == b) := by
  show Item.equal _ _ = Table.equal a b
  simp only [Item.equal, Item.equalEntries_eq_all, Table.equal]
  congr 2
  funext entry
  cases b.get? entry.1 <;> rfl

end Unerase
