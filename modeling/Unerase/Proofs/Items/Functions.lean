import Unerase.Proofs.Items.Insertion
import Unerase.Proofs.Relation.ReorderedIndex

/-!
Three ways to a function: the list of all functions, a look-up by name that goes down one
module per segment, and the index in which templates are looked up. The list has each
function that is found by name, once, and follows the order of declaration: of two functions
the one comes first whose way is declared first where their ways part. The index knows the
same functions (`Crate.functions_agree`).
-/

namespace Unerase

namespace ItemName

variable {n : ItemName} {segment : String} {path : List String}

/-- The name at the end of a path that starts at the name `n`. -/
def follow (n : ItemName) (path : List String) : ItemName :=
  { n with segments := n.segments ++ path }

theorem follow_child : (n.child segment).follow path = n.follow (segment :: path) := by
  simp [follow, child]

theorem follow_nil : n.follow [] = n := by
  simp [follow]

end ItemName

namespace Items

variable {name segment : String} {item : Item} {entries : List (String × Item)}
  {path path' : List String}

/-- The first path comes before the second one in the order of declaration. Where they part,
the first one takes the entry that is declared earlier. -/
inductive Before : Items → List String → List String → Prop
  | part {items : Items} {first second : String} (path path' : List String) :
      [first, second].Sublist items.keys →
      Before items (first :: path) (second :: path')
  | inside {items inner : Items} {segment : String} {path path' : List String} :
      items.get? segment = some (.module inner) → Before inner path path' →
      Before items (segment :: path) (segment :: path')

theorem find?_of_cons : find? ⟨(name, item) :: entries⟩ (segment :: path) =
    if segment = name then item.find? path else find? ⟨entries⟩ (segment :: path) := by
  rw [find?_cons, find?_cons, Table.get?, Table.get?]
  by_cases hname : segment = name
  · subst hname
    rw [List.lookup_cons_self, if_pos rfl, Option.bind_some]
  · rw [List.lookup_cons, beq_false_of_ne hname, if_neg hname]

theorem mem_keys_of_find? (h : find? ⟨entries⟩ (segment :: path) = some item) :
    segment ∈ entries.map Prod.fst := by
  rw [find?_cons, Option.bind_eq_some_iff] at h
  obtain ⟨other, hget, -⟩ := h
  exact List.mem_map.2 ⟨_, mem_of_lookup hget, rfl⟩

theorem Before.cons (h : Before ⟨entries⟩ path path') (hname : name ∉ entries.map Prod.fst) :
    Before ⟨(name, item) :: entries⟩ path path' := by
  cases h with
  | part path path' hkeys => exact .part path path' (hkeys.cons name)
  | @inside _ _ segment _ _ hget hinner =>
      refine .inside ?_ hinner
      have hsegment : segment ∈ entries.map Prod.fst :=
        List.mem_map.2 ⟨_, mem_of_lookup hget, rfl⟩
      have hne : segment ≠ name := fun heq => hname (heq ▸ hsegment)
      rwa [Table.get?, List.lookup_cons, beq_false_of_ne hne]

end Items

namespace Item

mutual

/-- The functions in an item are those at the ends of paths that start in the item. -/
theorem mem_functions_iff : ∀ {name n : ItemName} {item : Item} {f : Function},
    item.Unique → ((n, f) ∈ item.functions name ↔
      ∃ path, n = name.follow path ∧ item.find? path = some (.function f))
  | name, n, .module ⟨entries⟩, f, ⟨hkeys, hentries⟩ => by
      refine (mem_functionsOf_iff hkeys hentries).trans (exists_congr fun path => ?_)
      cases path with
      | nil => simp [find?, Items.find?]
      | cons => rw [find?_module (by simp)]
  | name, n, .function g, f, _ => by
      constructor
      · intro h
        cases List.mem_singleton.1 h
        exact ⟨[], ItemName.follow_nil.symm, rfl⟩
      · rintro ⟨_ | ⟨_, _⟩, rfl, hfind⟩
        · cases hfind
          rw [ItemName.follow_nil]
          exact List.mem_singleton.2 rfl
        · cases hfind
  | _, _, .struct _, _, _ | _, _, .enum _, _, _ | _, _, .typeAlias _, _, _
  | _, _, .static _, _, _ | _, _, .trait _, _, _ => by
      refine ⟨nofun, ?_⟩
      rintro ⟨_ | ⟨_, _⟩, -, hfind⟩ <;> cases hfind

theorem mem_functionsOf_iff : ∀ {name n : ItemName} {entries : List (String × Item)}
    {f : Function}, (entries.map Prod.fst).Nodup → UniqueEntries entries →
    ((n, f) ∈ functionsOf name entries ↔
      ∃ path, n = name.follow path ∧ Items.find? ⟨entries⟩ path = some (.function f))
  | name, n, [], f, _, _ => by
      refine ⟨nofun, ?_⟩
      rintro ⟨path, -, hfind⟩
      cases (Items.find?_empty path).symm.trans hfind
  | name, n, (segment, item) :: entries, f, hkeys, ⟨hitem, hitems⟩ => by
      obtain ⟨hsegment, hkeys⟩ := List.nodup_cons.1 hkeys
      rw [functionsOf, List.mem_append, mem_functions_iff hitem,
        mem_functionsOf_iff hkeys hitems]
      simp only [ItemName.follow_child]
      constructor
      · rintro (⟨path, hn, hfind⟩ | ⟨path, hn, hfind⟩)
        · exact ⟨segment :: path, hn, by rw [Items.find?_of_cons, if_pos rfl, hfind]⟩
        · cases path with
          | nil => cases hfind
          | cons first path =>
              have hne : first ≠ segment := fun heq =>
                hsegment (heq ▸ Items.mem_keys_of_find? hfind)
              exact ⟨first :: path, hn, by rw [Items.find?_of_cons, if_neg hne, hfind]⟩
      · rintro ⟨_ | ⟨first, path⟩, hn, hfind⟩
        · cases hfind
        · rw [Items.find?_of_cons] at hfind
          split at hfind
          · rename_i heq
            exact .inl ⟨path, heq ▸ hn, hfind⟩
          · exact .inr ⟨first :: path, hn, hfind⟩

end

/-- The names lie below `base`, and the way to the first one is declared first. -/
def NamesBefore (base : ItemName) (items : Items) (a b : ItemName × Function) : Prop :=
  ∃ path path', a.1 = base.follow path ∧ b.1 = base.follow path' ∧ items.Before path path'

mutual

theorem functions_pairwise : ∀ {name : ItemName} {items : Items},
    (Item.module items).Unique →
    ((Item.module items).functions name).Pairwise (NamesBefore name items)
  | name, ⟨entries⟩, ⟨hkeys, hentries⟩ => functionsOf_pairwise hkeys hentries

theorem functionsOf_pairwise : ∀ {name : ItemName} {entries : List (String × Item)},
    (entries.map Prod.fst).Nodup → UniqueEntries entries →
    (functionsOf name entries).Pairwise (NamesBefore name ⟨entries⟩)
  | _, [], _, _ => .nil
  | name, (segment, item) :: entries, hkeys, ⟨hitem, hitems⟩ => by
      obtain ⟨hsegment, hkeys⟩ := List.nodup_cons.1 hkeys
      rw [functionsOf]
      refine List.pairwise_append.2 ⟨?_, ?_, ?_⟩
      · cases item with
        | module inner =>
            refine (functions_pairwise hitem).imp ?_
            rintro a b ⟨path, path', ha, hb, hbefore⟩
            rw [ItemName.follow_child] at ha hb
            exact ⟨_, _, ha, hb, .inside List.lookup_cons_self hbefore⟩
        | function => exact List.pairwise_singleton _ _
        | _ => exact .nil
      · refine (functionsOf_pairwise hkeys hitems).imp ?_
        rintro a b ⟨path, path', ha, hb, hbefore⟩
        exact ⟨path, path', ha, hb, hbefore.cons hsegment⟩
      · rintro ⟨a, f⟩ ha ⟨b, g⟩ hb
        obtain ⟨path, ha, -⟩ := (mem_functions_iff hitem).1 ha
        obtain ⟨path', hb, hfind⟩ := (mem_functionsOf_iff hkeys hitems).1 hb
        rw [ItemName.follow_child] at ha
        cases path' with
        | nil => cases hfind
        | cons first path' =>
            refine ⟨_, _, ha, hb, .part path path' ?_⟩
            exact (List.singleton_sublist.2 (Items.mem_keys_of_find? hfind)).cons_cons segment

end

end Item

theorem FunctionEntry.ofFunction_eq_iff {f : Function} {entry : FunctionEntry} :
    FunctionEntry.ofFunction f = entry ↔ entry.generics = f.generics ∧
      entry.templates = f.body?.elim [] Body.templates := by
  obtain ⟨generics, args, result, body?⟩ := f
  obtain ⟨generics', templates⟩ := entry
  cases body? <;> simp [ofFunction, Function.templates, eq_comm]

theorem lookup_eq_some_iff_mem {κ α : Type} [BEq κ] [LawfulBEq κ] {as : List (κ × α)}
    (h : (as.map Prod.fst).Nodup) {k : κ} {a : α} : as.lookup k = some a ↔ (k, a) ∈ as := by
  refine ⟨mem_of_lookup, fun hmem => ?_⟩
  obtain ⟨before, after, rfl⟩ := List.append_of_mem hmem
  have hperm : (before ++ (k, a) :: after).Perm ((k, a) :: (before ++ after)) :=
    List.perm_middle
  rw [lookup_perm hperm h, List.lookup_cons_self]

namespace Crate

variable {c : Crate}

theorem getFunction?_eq_some_iff {name : ItemName} {f : Function} :
    c.getFunction? name = some f ↔
      name.crate = c.name ∧ c.items.find? name.segments = some (.function f) := by
  have hget : c.getFunction? name = some f ↔ c.get? name = some (.function f) := by
    rw [getFunction?]
    split
    · rename_i g hg
      simp [hg]
    · rename_i hne
      exact iff_of_false (Option.some_ne_none f).symm (hne f)
  rw [hget, get?]
  split
  · rename_i hcrate
    exact (and_iff_right hcrate).symm
  · rename_i hcrate
    exact iff_of_false (Option.some_ne_none _).symm fun h => hcrate h.1

/-- The first function comes before the second one in the order of declaration. -/
def DeclaresBefore (c : Crate) (a b : ItemName) : Prop :=
  c.items.Before a.segments b.segments

/-- In a crate that gives no name twice, the functions are listed each once and in the order
of declaration, and those that are listed are those that are found by name. The index of the
crate finds the same functions, with their parameters and their templates. -/
theorem functions_agree (hc : c.items.Unique ∧ Item.UniqueEntries c.items.entries) :
    (∀ name f, (name, f) ∈ c.functions ↔ c.getFunction? name = some f) ∧
      (c.functions.map Prod.fst).Nodup ∧
      c.functions.Pairwise (fun a b => c.DeclaresBefore a.1 b.1) ∧
      ∀ name entry, (Index.ofCrate c).getFunction? name = some entry ↔
        ∃ f, c.getFunction? name = some f ∧ entry.generics = f.generics ∧
          entry.templates = f.body?.elim [] Body.templates := by
  obtain ⟨hkeys, hitems⟩ := hc
  have hmem (name : ItemName) (f : Function) :
      (name, f) ∈ c.functions ↔ c.getFunction? name = some f := by
    rw [functions, Item.mem_functionsOf_iff hkeys hitems, getFunction?_eq_some_iff]
    constructor
    · rintro ⟨path, rfl, hfind⟩
      exact ⟨rfl, hfind⟩
    · rintro ⟨hcrate, hfind⟩
      exact ⟨name.segments, by rw [← hcrate]; rfl, hfind⟩
  have hnodup : (c.functions.map Prod.fst).Nodup := Item.functionsOf_nodup hkeys hitems
  refine ⟨hmem, hnodup, ?_, fun name entry => ?_⟩
  · refine (Item.functionsOf_pairwise hkeys hitems).imp ?_
    rintro a b ⟨path, path', ha, hb, hbefore⟩
    rw [DeclaresBefore, ha, hb]
    exact hbefore
  · have hindex : (Index.ofCrate c).getFunction? name =
        (c.functions.lookup name).map FunctionEntry.ofFunction :=
      lookup_map FunctionEntry.ofFunction c.functions name
    simp only [hindex, Option.map_eq_some_iff, lookup_eq_some_iff_mem hnodup, hmem,
      FunctionEntry.ofFunction_eq_iff]

end Crate

/-! ### Functions with the same name in different modules -/

namespace Sample

/-- The module `m` has another module and a struct behind its two functions. -/
def scattered : Crate :=
  store [("n", .module ⟨[("f", declared), ("k", declared)]⟩), ("s", .struct ⟨⟨[], [], []⟩, []⟩)]

end Sample

/-- There is an `f` in both modules, and the outer one is listed first. -/
theorem Crate.functions_agree_nested :
    (Sample.scattered.items.Unique ∧ Item.UniqueEntries Sample.scattered.items.entries) ∧
      Sample.scattered.functions.map (fun entry => entry.1.segments) =
        [["m", "f"], ["m", "g"], ["m", "n", "f"], ["m", "n", "k"], ["h"]] ∧
      Sample.scattered.functions.Pairwise
        (fun a b => Sample.scattered.DeclaresBefore a.1 b.1) ∧
      (Index.ofCrate Sample.scattered).getFunction? ⟨"sample", ["m", "n", "f"]⟩ =
        some ⟨⟨[], [], []⟩, []⟩ := by
  have hunique : Sample.scattered.items.Unique ∧
      Item.UniqueEntries Sample.scattered.items.entries := by
    simp [Sample.scattered, Sample.store, Sample.declared, Table.Unique, Table.keys,
      Item.UniqueEntries, Item.Unique]
  obtain ⟨-, -, hordered, hindex⟩ := functions_agree hunique
  exact ⟨hunique, rfl, hordered, (hindex _ _).2 ⟨_, rfl, rfl, rfl⟩⟩

end Unerase
