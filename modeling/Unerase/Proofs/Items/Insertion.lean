import Unerase.Proofs.Relation.Addition

/-!
A crate as a store of items by name. An item that has been inserted is found under its name
and what lies in it below, the modules above the name have one entry set, and under every
other name there is what there was before (`Crate.inserted_of_insert`). An entry that is set
keeps its place, and a new one goes last, so that the functions elsewhere in the crate are
listed in the same order as before.
-/

namespace Unerase

/-- One entry of the second table is set, in the place that it had or behind all others, and
the other entries are those of the first table. -/
structure Table.Sets {α : Type} (before : Table α) (key : String) (value : α)
    (after : Table α) : Prop where
  keys : after.keys = if key ∈ before.keys then before.keys else before.keys ++ [key]
  value : after.get? key = some value
  others : ∀ other ≠ key, after.get? other = before.get? other

theorem Table.sets_insert {α : Type} (t : Table α) (key : String) (value : α) :
    t.Sets key value (t.insert key value) where
  keys := t.keys_insert key value
  value := by rw [get?_insert, if_pos rfl]
  others other h := by rw [get?_insert, if_neg h]

/-- The item at the end of a path of segments that starts in the item. -/
def Item.find? (item : Item) : List String → Option Item
  | [] => some item
  | name :: rest =>
      match item with
      | .module items => Items.find? items (name :: rest)
      | _ => none

theorem Item.find?_module {items : Items} : ∀ {segments : List String}, segments ≠ [] →
    (Item.module items).find? segments = items.find? segments
  | [], h => absurd rfl h
  | _ :: _, _ => rfl

namespace Items

variable {item : Item} {name : String} {segments rest other : List String}
  {items items' : Items} {previous? : Option Item}

theorem find?_cons (items : Items) (name : String) (rest : List String) :
    items.find? (name :: rest) = (items.get? name).bind fun item => item.find? rest := by
  cases rest with
  | nil => cases h : items.get? name <;> simp [find?, Item.find?, h]
  | cons next rest =>
      simp only [find?]
      cases items.get? name with
      | none => rfl
      | some item => cases item <;> rfl

theorem find?_empty : ∀ segments, find? ∅ segments = none
  | [] => rfl
  | name :: rest => find?_cons ∅ name rest

/-- The item is put at the end of the path. Each module on the way is one that there is, or
a new one under a name that was free. -/
inductive Placed (item : Item) : List String → Items → Option Item → Items → Prop
  | last (name : String) (items : Items) :
      Placed item [name] items (items.get? name) (items.insert name item)
  | inside {name : String} {rest : List String} {items inner inner' : Items}
      {previous? : Option Item} :
      (items.get? name = some (.module inner) ∨ items.get? name = none ∧ inner = ∅) →
      Placed item rest inner previous? inner' →
      Placed item (name :: rest) items previous? (items.insert name (.module inner'))

theorem placed_of_place : ∀ {segments : List String} {items items' : Items}
    {previous? : Option Item}, place item segments items = (.ok previous?, items') →
    Placed item segments items previous? items'
  | [], _, _, _, h => by cases h
  | [name], items, _, _, h => by
      cases h
      exact .last name items
  | name :: next :: rest, items, items', previous?, h => by
      simp only [place_cons, within] at h
      split at h
      · rename_i hget
        rcases hinner : place item (next :: rest) ∅ with ⟨r, inner'⟩
        rw [hinner] at h
        cases h
        exact .inside (.inr ⟨hget, rfl⟩) (placed_of_place hinner)
      · rename_i inner hget
        rcases hinner : place item (next :: rest) inner with ⟨r, inner'⟩
        rw [hinner] at h
        cases h
        exact .inside (.inl hget) (placed_of_place hinner)
      · cases h

namespace Placed

theorem ne_nil (h : Placed item segments items previous? items') : segments ≠ [] := by
  cases h <;> simp

theorem find?_inner {inner : Items}
    (hget : items.get? name = some (.module inner) ∨ items.get? name = none ∧ inner = ∅)
    (hrest : rest ≠ []) : items.find? (name :: rest) = inner.find? rest := by
  rw [find?_cons]
  rcases hget with hget | ⟨hget, rfl⟩
  · rw [hget, Option.bind_some, Item.find?_module hrest]
  · rw [hget, Option.bind_none, find?_empty]

theorem find?_insert_module (items : Items) {inner : Items} (hrest : rest ≠ []) :
    find? (items.insert name (.module inner)) (name :: rest) = inner.find? rest :=
  find?_inner (.inl (items.sets_insert name _).value) hrest

theorem find?_insert_of_ne {key : String} {value : Item} (h : name ≠ key) :
    find? (items.insert key value) (name :: rest) = items.find? (name :: rest) := by
  rw [find?_cons, find?_cons, Table.get?_insert, if_neg h]

theorem previous (h : Placed item segments items previous? items') :
    previous? = items.find? segments := by
  induction h with
  | last => rfl
  | inside hget hinner ih => rw [ih, find?_inner hget hinner.ne_nil]

theorem find?_append (h : Placed item segments items previous? items')
    (more : List String) : items'.find? (segments ++ more) = item.find? more := by
  induction h with
  | last name items =>
      rw [List.singleton_append, find?_cons, Table.get?_insert, if_pos rfl, Option.bind_some]
  | inside _ hinner ih =>
      have hmore := List.append_ne_nil_of_left_ne_nil hinner.ne_nil more
      rw [List.cons_append, find?_insert_module _ hmore, ih]

theorem sets (h : Placed item segments items previous? items') :
    ∃ name rest entry, segments = name :: rest ∧ items.Sets name entry items' ∧
      items'.find? [name] = some entry := by
  cases h with
  | last name =>
      exact ⟨name, [], item, rfl, items.sets_insert name item,
        (items.sets_insert name item).value⟩
  | @inside name rest _ inner inner' _ =>
      exact ⟨name, rest, .module inner', rfl, items.sets_insert name _,
        (items.sets_insert name _).value⟩

theorem above (h : Placed item segments items previous? items') :
    ∀ {front : List String} {name : String} {rest : List String}, front ≠ [] →
      segments = front ++ name :: rest →
      ∃ before entry after,
        (items.find? front = some (.module before) ∨
          items.find? front = none ∧ before = ∅) ∧
        items'.find? front = some (.module after) ∧ before.Sets name entry after ∧
        items'.find? (front ++ [name]) = some entry := by
  induction h with
  | last =>
      intro front name rest hfront hsegments
      obtain ⟨segment, front, rfl⟩ := List.exists_cons_of_ne_nil hfront
      simp at hsegments
  | @inside segment segments items inner inner' previous? hget hinner ih =>
      intro front name rest hfront hsegments
      obtain ⟨segment', front, rfl⟩ := List.exists_cons_of_ne_nil hfront
      obtain ⟨rfl, hrest⟩ := List.cons_eq_cons.1 hsegments
      have hmore : front ++ [name] ≠ [] := by simp
      rw [List.cons_append, find?_insert_module _ hmore]
      by_cases hfront : front = []
      · subst hfront
        obtain ⟨first, rest', entry, hfirst, hsets, hentry⟩ := hinner.sets
        obtain ⟨rfl, -⟩ := List.cons_eq_cons.1 (hrest.symm.trans hfirst)
        refine ⟨inner, entry, inner', hget, ?_, hsets, hentry⟩
        exact (items.sets_insert segment _).value
      · rw [find?_inner hget hfront, find?_insert_module _ hfront]
        exact ih hfront hrest

theorem find?_other (h : Placed item segments items previous? items') :
    ∀ {other : List String}, ¬ segments <+: other → ¬ other <+: segments →
      items'.find? other = items.find? other := by
  induction h with
  | last name items =>
      intro other hbelow habove
      cases other with
      | nil => rfl
      | cons segment rest =>
          refine find?_insert_of_ne fun hname => hbelow ?_
          rw [hname]
          exact List.prefix_append [name] rest
  | @inside name rest items inner inner' _ hget _ ih =>
      intro other hbelow habove
      cases other with
      | nil => rfl
      | cons segment other =>
          by_cases hname : segment = name
          · subst hname
            -- The module on the way stands above the end of the path itself.
            have hother : other ≠ [] := by
              rintro rfl
              exact habove (List.prefix_append [segment] rest)
            rw [find?_insert_module _ hother, find?_inner hget hother]
            apply ih
            · exact fun hprefix => hbelow (List.cons_prefix_cons.2 ⟨rfl, hprefix⟩)
            · exact fun hprefix => habove (List.cons_prefix_cons.2 ⟨rfl, hprefix⟩)
          · exact find?_insert_of_ne hname

end Placed

end Items

/-! ### Functions -/

/-- The functions whose names do not start with the path. -/
def Function.outside (path : List String) (fs : List (ItemName × Function)) :
    List (ItemName × Function) :=
  fs.filter fun entry => ¬ path <+: entry.1.segments

theorem Function.outside_append (path : List String) (fs gs : List (ItemName × Function)) :
    outside path (fs ++ gs) = outside path fs ++ outside path gs :=
  List.filter_append fs gs

theorem Item.functions_module (name : ItemName) (items : Items) :
    (Item.module items).functions name = functionsOf name items.entries := rfl

theorem Item.outside_functions (name : ItemName) (item : Item) :
    Function.outside name.segments (item.functions name) = [] := by
  apply List.filter_eq_nil_iff.2
  intro entry hentry
  simpa using prefix_of_mem_functions hentry

theorem Item.outside_insertEntry {path : List String} {base : ItemName} {key : String}
    {value : Item} {entries : List (String × Item)}
    (h : Function.outside path (value.functions (base.child key)) = Function.outside path
      ((entries.lookup key).elim [] fun old => old.functions (base.child key))) :
    Function.outside path (functionsOf base (Table.insertEntry key value entries)) =
      Function.outside path (functionsOf base entries) := by
  induction entries with
  | nil =>
      simp only [Table.insertEntry, functionsOf, List.append_nil, h]
      rfl
  | cons entry entries ih =>
      obtain ⟨name, old⟩ := entry
      rw [functionsOf, Function.outside_append]
      by_cases hname : name = key
      · subst hname
        rw [List.lookup_cons_self] at h
        rw [Table.insertEntry, if_pos rfl, functionsOf, Function.outside_append, h]
        rfl
      · have hbeq : (key == name) = false := beq_false_of_ne (Ne.symm hname)
        rw [List.lookup_cons, hbeq] at h
        rw [Table.insertEntry, if_neg hname, functionsOf, Function.outside_append, ih h]

theorem Items.Placed.outside {item : Item} {segments : List String} {items items' : Items}
    {previous? : Option Item} (h : Placed item segments items previous? items') :
    ∀ base : ItemName,
      Function.outside (base.segments ++ segments) (Item.functionsOf base items'.entries) =
        Function.outside (base.segments ++ segments)
          (Item.functionsOf base items.entries) := by
  induction h with
  | last name items =>
      intro base
      have hnone : ∀ other : Item, Function.outside (base.segments ++ [name])
          (other.functions (base.child name)) = [] := Item.outside_functions (base.child name)
      apply Item.outside_insertEntry
      cases items.entries.lookup name with
      | none => exact hnone item
      | some old => exact (hnone item).trans (hnone old).symm
  | @inside name rest items inner inner' _ hget _ ih =>
      intro base
      have hinner := ih (base.child name)
      rw [ItemName.child, List.append_assoc, List.singleton_append] at hinner
      apply Item.outside_insertEntry
      rw [Item.functions_module]
      refine hinner.trans ?_
      rcases hget with hget | ⟨hget, rfl⟩
      · have hlookup : items.entries.lookup name = some (.module inner) := hget
        rw [hlookup]
        rfl
      · have hlookup : items.entries.lookup name = none := hget
        rw [hlookup]
        rfl

/-! ### Crates -/

namespace Crate

/-- What it means that an item has been inserted in a crate under a name. -/
structure Inserted (c : Crate) (name : ItemName) (item : Item) (previous? : Option Item)
    (c' : Crate) : Prop where
  /-- The answer is what stood under the name before. -/
  previous : previous? = c.get? name
  /-- The item stands under the name. -/
  stored : c'.get? name = some item
  /-- Below the name stands what lies in the item. -/
  below : ∀ rest, c'.get? (c.itemName (name.segments ++ rest)) = item.find? rest
  /-- Of the items that are not in a module, one is set. -/
  root : ∃ segment rest entry, name.segments = segment :: rest ∧
    c.items.Sets segment entry c'.items ∧ c'.get? (c.itemName [segment]) = some entry
  /-- Above the name are modules. Each of them has one entry set, the one on the way to the
  name. A module that is new has no other entries. -/
  above : ∀ front segment rest, front ≠ [] → name.segments = front ++ segment :: rest →
    ∃ before entry after,
      (c.get? (c.itemName front) = some (.module before) ∨
        c.get? (c.itemName front) = none ∧ before = ∅) ∧
      c'.get? (c.itemName front) = some (.module after) ∧ before.Sets segment entry after ∧
      c'.get? (c.itemName (front ++ [segment])) = some entry
  /-- Under every other name is what was there before. -/
  other : ∀ q : ItemName, (q.crate = c.name → q.segments ≠ [] →
      ¬ name.segments <+: q.segments ∧ ¬ q.segments <+: name.segments) →
    c'.get? q = c.get? q
  /-- The functions that are neither under the name nor below it are listed as before. -/
  functions : Function.outside name.segments c'.functions =
    Function.outside name.segments c.functions
  /-- The name of the crate and its impl blocks stay. -/
  rest : c' = { c with items := c'.items }

/-- If an item is accepted under a name, it has been inserted under this name. -/
theorem inserted_of_insert {c c' : Crate} {name : ItemName} {item : Item}
    {previous? : Option Item} (h : insert name item c = (.ok previous?, c')) :
    c.Inserted name item previous? c' := by
  rw [insert] at h
  split at h
  · rename_i hcrate
    rcases hplace : Items.place item name.segments c.items with ⟨r, items'⟩
    rw [hplace] at h
    cases h
    have hplaced := Items.placed_of_place hplace
    have hget : ∀ segments, get? c (c.itemName segments) = c.items.find? segments :=
      fun segments => if_pos rfl
    have hget' : ∀ segments, get? { c with items := items' } (c.itemName segments) =
        Items.find? items' segments := fun segments => if_pos rfl
    exact {
      previous := by rw [get?, if_pos hcrate, hplaced.previous]
      stored := by
        rw [get?, if_pos hcrate, ← List.append_nil name.segments, hplaced.find?_append]
        rfl
      below := fun rest => by rw [hget', hplaced.find?_append]
      root := by
        simp only [hget']
        exact hplaced.sets
      above := fun front segment rest hfront hsegments => by
        simp only [hget, hget']
        exact hplaced.above hfront hsegments
      other := fun q hq => by
        simp only [get?]
        split
        · rename_i hqcrate
          by_cases hqsegments : q.segments = []
          · rw [hqsegments]
            rfl
          · obtain ⟨hbelow, habove⟩ := hq hqcrate hqsegments
            exact hplaced.find?_other hbelow habove
        · rfl
      functions := hplaced.outside (.root c.name)
      rest := rfl }
  · cases h

end Crate

/-! ### A path into a new module -/

namespace Sample

/-- A function of which only the name matters. -/
def declared : Item :=
  .function ⟨⟨[], [], []⟩, [], .never, none⟩

/-- A module with two functions in front of a third one. -/
def store (entries : List (String × Item)) : Crate :=
  ⟨"sample", ⟨[("m", .module ⟨("f", declared) :: ("g", declared) :: entries⟩),
    ("h", declared)]⟩, [], []⟩

end Sample

/-- The path leads through a module that there is and through one that there is not. The
functions of both stay in front of the one that comes behind the first module. -/
theorem Crate.inserted_of_insert_nested :
    Crate.insert ⟨"sample", ["m", "n", "k"]⟩ Sample.declared (Sample.store []) =
      (.ok none, Sample.store [("n", .module ⟨[("k", Sample.declared)]⟩)]) ∧
    (Sample.store []).Inserted ⟨"sample", ["m", "n", "k"]⟩ Sample.declared none
      (Sample.store [("n", .module ⟨[("k", Sample.declared)]⟩)]) ∧
    (Sample.store [("n", .module ⟨[("k", Sample.declared)]⟩)]).functions.map
      (fun entry => entry.1.segments) = [["m", "f"], ["m", "g"], ["m", "n", "k"], ["h"]] :=
  ⟨rfl, inserted_of_insert rfl, rfl⟩

end Unerase
