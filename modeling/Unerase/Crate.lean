import Unerase.Item

/-!
Compilation units, and access to their items by name. Reading and writing
follow a name from the root through one module per segment. Writing creates the
modules that are missing on the way, and is refused, without any change, if the
name belongs to another crate, has no segments, or leads through an item that is
not a module.
-/

namespace Unerase

namespace Items

/-- The item at the end of a path of segments. -/
def find? (items : Items) : List String → Option Item
  | [] => none
  | [name] => items.get? name
  | name :: rest =>
      match items.get? name with
      | some (.module inner) => Items.find? inner rest
      | _ => none

/-- Does something in the module called `name`, which is created if there is
none. Under any other item the name is refused, and `item` handed back. -/
def within {α : Type} (name : String) (item : Item) (x : Run Item Items α) :
    Run Item Items α :=
  fun items =>
    match items.get? name with
    | none =>
        match x ∅ with
        | (r, inner) => (r, items.insert name (.module inner))
    | some (.module inner) =>
        match x inner with
        | (r, inner) => (r, items.insert name (.module inner))
    | some _ => (.error item, items)

/-- Puts an item at the end of a path of segments. The answer is what was there
before. If the path is refused, the item is handed back. -/
def place (item : Item) : List String → Run Item Items (Option Item)
  | [] => .stop item
  | [name] => fun items => (.ok (items.get? name), items.insert name item)
  | name :: rest => within name item (place item rest)

end Items

mutual

/-- The functions in an item of the given name, in order of declaration. -/
def Item.functions (name : ItemName) : Item → List (ItemName × Function)
  | .module ⟨entries⟩ => Item.functionsOf name entries
  | .function f => [(name, f)]
  | .struct _ | .enum _ | .typeAlias _ | .static _ | .trait _ => []
termination_by structural item => item

/-- The functions in the module of the given name with these entries. -/
def Item.functionsOf (name : ItemName) :
    List (String × Item) → List (ItemName × Function)
  | [] => []
  | (segment, item) :: entries =>
      item.functions (name.child segment) ++ Item.functionsOf name entries
termination_by structural entries => entries

end

mutual

/-- No module and no trait in the item gives a name twice. -/
def Item.Unique : Item → Prop
  | .module ⟨entries⟩ =>
      (Table.mk entries).Unique ∧ Item.UniqueEntries entries
  | .trait t => t.types.Unique ∧ t.methods.Unique
  | .function _ | .struct _ | .enum _ | .typeAlias _ | .static _ => True
termination_by structural item => item

/-- The same of every item of a module. The names in the module itself are not looked at. -/
def Item.UniqueEntries : List (String × Item) → Prop
  | [] => True
  | (_, item) :: entries => item.Unique ∧ Item.UniqueEntries entries
termination_by structural entries => entries

end

/-- A compilation unit: its name, the contents of its root module, and its impl
blocks in order of declaration. -/
structure Crate where
  name : String
  items : Items
  inherentImpls : List InherentImpl
  traitImpls : List TraitImpl
deriving BEq

namespace Crate

/-- The name of an item of the crate, given by its segments. -/
def itemName (c : Crate) (segments : List String) : ItemName :=
  ⟨c.name, segments⟩

/-- The item with a name. An item of another crate is not found. -/
def get? (c : Crate) (name : ItemName) : Option Item :=
  if name.crate = c.name then c.items.find? name.segments else none

/-- The function with a name, if the item with this name is one. -/
def getFunction? (c : Crate) (name : ItemName) : Option Function :=
  match c.get? name with
  | some (.function f) => some f
  | _ => none

/-- Puts an item under a name. The answer is the item that had the name before.
If the name is refused, the item is handed back. -/
def insert (name : ItemName) (item : Item) : Run Item Crate (Option Item) :=
  fun c =>
    if name.crate = c.name then
      match Items.place item name.segments c.items with
      | (r, items) => (r, { c with items })
    else (.error item, c)

def addInherentImpl (c : Crate) (block : InherentImpl) : Crate :=
  { c with inherentImpls := c.inherentImpls ++ [block] }

def addTraitImpl (c : Crate) (block : TraitImpl) : Crate :=
  { c with traitImpls := c.traitImpls ++ [block] }

/-- All functions outside impl blocks and traits with their names, in order of
declaration. -/
def functions (c : Crate) : List (ItemName × Function) :=
  Item.functionsOf (.root c.name) c.items.entries

/-- No module, trait or impl block of the crate gives a name twice. Crates that
are built by `Table.ofList` and `insert` have this form. -/
structure Unique (c : Crate) : Prop where
  items : c.items.Unique ∧ Item.UniqueEntries c.items.entries
  inherentImpls : ∀ block ∈ c.inherentImpls, block.methods.Unique
  traitImpls : ∀ block ∈ c.traitImpls,
    block.types.Unique ∧ block.methods.Unique

end Crate

end Unerase
