import Unerase.Proofs.Items.BodyEquality
import Unerase.Proofs.Items.Functions
import Unerase.Proofs.Relation.Index

/-!
What `==` says of items. Tables are compared without regard to order. Since no table gives a
name twice, those are equal that have equal values under every name (`Table.beq_iff`), and by
this the comparison of traits, impl blocks and items is symmetric and transitive at any depth.
It holds between an item and the item itself exactly if there is no literal in its bodies that
is not a number (`Item.beq_self_iff`), and then between any two orders of the tables in the item
as well (`Item.Reordered.beq`).
-/

namespace Unerase

/-! ### Tables -/

namespace Table

variable {α : Type} {a b c : Table α}

theorem get?_eq_some_iff (ha : a.Unique) {key : String} {x : α} :
    a.get? key = some x ↔ (key, x) ∈ a.entries :=
  lookup_eq_some_iff_mem ha

theorem get?_eq_none_iff {key : String} : a.get? key = none ↔ key ∉ a.keys := by
  rw [get?, List.lookup_eq_none_iff]
  constructor
  · intro h hkey
    obtain ⟨entry, hentry, rfl⟩ := List.mem_map.1 hkey
    simpa using h entry hentry
  · intro h entry hentry
    rw [bne_iff_ne]
    rintro rfl
    exact h (List.mem_map_of_mem hentry)

theorem mem_values_of_get? {key : String} {x : α} (h : a.get? key = some x) : x ∈ a.values :=
  List.mem_map_of_mem (mem_of_lookup h)

variable [BEq α]

theorem beq_iff_entries : (a == b) = true ↔ a.entries.length = b.entries.length ∧
    ∀ key x, (key, x) ∈ a.entries → ∃ y, b.get? key = some y ∧ (x == y) = true := by
  show equal a b = true ↔ _
  rw [equal, Bool.and_eq_true, beq_iff_eq, List.all_eq_true]
  refine and_congr_right fun _ => ⟨fun h key x hx => ?_, fun h entry hentry => ?_⟩
  · have hkey := h (key, x) hx
    cases hy : b.get? key with
    | none => simp [hy] at hkey
    | some y => exact ⟨y, rfl, by simpa [hy] using hkey⟩
  · obtain ⟨y, hy, hxy⟩ := h entry.1 entry.2 hentry
    rw [hy]
    exact hxy

theorem beq_iff (ha : a.Unique) (hb : b.Unique) : (a == b) = true ↔
    ∀ key, Option.Rel (fun x y => (x == y) = true) (a.get? key) (b.get? key) := by
  rw [beq_iff_entries]
  constructor
  · rintro ⟨hlength, hentries⟩ key
    have hsubset : a.keys ⊆ b.keys := by
      intro key hkey
      obtain ⟨⟨_, x⟩, hmem, rfl⟩ := List.mem_map.1 hkey
      obtain ⟨y, hy, _⟩ := hentries _ x hmem
      by_contra hnone
      rw [get?_eq_none_iff.2 hnone] at hy
      cases hy
    have hperm : a.keys.Perm b.keys :=
      (List.subperm_of_subset ha hsubset).perm_of_length_le (by simp [keys, hlength])
    cases hx : a.get? key with
    | none =>
        rw [get?_eq_none_iff.2 fun hkey => get?_eq_none_iff.1 hx (hperm.mem_iff.2 hkey)]
        exact .none
    | some x =>
        obtain ⟨y, hy, hxy⟩ := hentries key x ((get?_eq_some_iff ha).1 hx)
        rw [hy]
        exact .some hxy
  · intro h
    have hnone (key : String) : a.get? key = none ↔ b.get? key = none := by
      rw [← Option.not_isSome_iff_eq_none, ← Option.not_isSome_iff_eq_none,
        optionRel_isSome (h key)]
    have hperm : a.keys.Perm b.keys := by
      rw [List.perm_ext_iff_of_nodup ha hb]
      exact fun key => not_iff_not.1 (get?_eq_none_iff.symm.trans
        ((hnone key).trans get?_eq_none_iff))
    refine ⟨by simpa [keys] using hperm.length_eq, fun key x hx => ?_⟩
    exact optionRel_of_some ((get?_eq_some_iff ha).2 hx ▸ h key)

theorem beq_symm (ha : a.Unique) (hb : b.Unique)
    (hvalues : ∀ x ∈ a.values, ∀ y ∈ b.values, (x == y) = true → (y == x) = true)
    (h : (a == b) = true) : (b == a) = true := by
  rw [beq_iff ha hb] at h
  exact (beq_iff hb ha).2 fun key => optionRel_symm
    (fun x hx y hy => hvalues x (mem_values_of_get? hx) y (mem_values_of_get? hy)) (h key)

theorem beq_trans (ha : a.Unique) (hb : b.Unique) (hc : c.Unique)
    (hvalues : ∀ x ∈ a.values, ∀ y ∈ b.values, ∀ z ∈ c.values,
      (x == y) = true → (y == z) = true → (x == z) = true)
    (h : (a == b) = true) (h' : (b == c) = true) : (a == c) = true := by
  rw [beq_iff ha hb] at h
  rw [beq_iff hb hc] at h'
  exact (beq_iff ha hc).2 fun key => optionRel_trans
    (fun x hx y hy z hz => hvalues x (mem_values_of_get? hx) y (mem_values_of_get? hy) z
      (mem_values_of_get? hz)) (h key) (h' key)

theorem beq_self_iff (ha : a.Unique) :
    (a == a) = true ↔ ∀ x ∈ a.values, (x == x) = true := by
  rw [beq_iff_entries]
  constructor
  · rintro ⟨-, h⟩ x hx
    obtain ⟨⟨key, _⟩, hmem, rfl⟩ := List.mem_map.1 hx
    obtain ⟨y, hy, hxy⟩ := h key _ hmem
    rw [(get?_eq_some_iff ha).2 hmem] at hy
    cases hy
    exact hxy
  · intro h
    refine ⟨rfl, fun key x hx => ⟨x, (get?_eq_some_iff ha).2 hx, ?_⟩⟩
    exact h x (List.mem_map_of_mem (f := Prod.snd) hx)

theorem beq_of_reordered (ha : a.Unique)
    (h : a.Reordered (fun x y => (x == y) = true) b) : (a == b) = true := by
  obtain ⟨hperm, hrel⟩ := h
  rw [beq_iff_entries]
  refine ⟨hperm.length_eq.trans hrel.forall₂.length_eq, fun key x hx => ?_⟩
  have hkey := hrel.get? key
  rw [get?, ← lookup_perm hperm ha, (lookup_eq_some_iff_mem ha).2 hx] at hkey
  exact optionRel_of_some hkey

theorem beq_of_perm (ha : a.Unique) (hperm : a.entries.Perm b.entries)
    (h : ∀ x ∈ a.values, (x == x) = true) : (a == b) = true := by
  refine beq_of_reordered ha (.intro hperm (rel_of_forall₂ (List.forall₂_same.2 ?_)))
  exact fun entry hentry =>
    ⟨rfl, h entry.2 (List.mem_map_of_mem (f := Prod.snd) (hperm.mem_iff.2 hentry))⟩

end Table

/-! ### Traits and impl blocks -/

section Methods

variable {α : Type} [BEq α] {a b c : Table α}

theorem Table.beq_symm_of_values [PartialEquivBEq α] (ha : a.Unique) (hb : b.Unique)
    (h : (a == b) = true) : (b == a) = true :=
  beq_symm ha hb (fun _ _ _ _ => PartialEquivBEq.symm) h

theorem Table.beq_trans_of_values [PartialEquivBEq α] (ha : a.Unique) (hb : b.Unique)
    (hc : c.Unique) (h : (a == b) = true) (h' : (b == c) = true) : (a == c) = true :=
  beq_trans ha hb hc (fun _ _ _ _ _ _ => PartialEquivBEq.trans) h h'

theorem Function.table_beq_self_iff {methods : Table Function} (h : methods.Unique) :
    (methods == methods) = true ↔
      ∀ place ∈ methods.values.flatMap Function.places, place.NaNFree := by
  simp only [Table.beq_self_iff h, Function.beq_self_iff, List.forall_mem_flatMap]

end Methods

namespace Trait

variable {t u w : Trait}

/-- No name is given twice in the trait. -/
def Unique (t : Trait) : Prop :=
  t.types.Unique ∧ t.methods.Unique

theorem beq_iff : (t == u) = true ↔
    t.generics = u.generics ∧ (t.types == u.types) = true ∧ (t.methods == u.methods) = true := by
  show (t.generics == u.generics && (t.types == u.types && t.methods == u.methods)) = true ↔ _
  simp

theorem beq_symm (ht : t.Unique) (hu : u.Unique) (h : (t == u) = true) : (u == t) = true := by
  obtain ⟨hgenerics, htypes, hmethods⟩ := beq_iff.1 h
  exact beq_iff.2 ⟨hgenerics.symm, Table.beq_symm_of_values ht.1 hu.1 htypes,
    Table.beq_symm_of_values ht.2 hu.2 hmethods⟩

theorem beq_trans (ht : t.Unique) (hu : u.Unique) (hw : w.Unique) (h : (t == u) = true)
    (h' : (u == w) = true) : (t == w) = true := by
  obtain ⟨hgenerics, htypes, hmethods⟩ := beq_iff.1 h
  obtain ⟨hgenerics', htypes', hmethods'⟩ := beq_iff.1 h'
  exact beq_iff.2 ⟨hgenerics.trans hgenerics',
    Table.beq_trans_of_values ht.1 hu.1 hw.1 htypes htypes',
    Table.beq_trans_of_values ht.2 hu.2 hw.2 hmethods hmethods'⟩

theorem beq_self_iff (ht : t.Unique) :
    (t == t) = true ↔ ∀ place ∈ t.places, place.NaNFree := by
  rw [beq_iff, Function.table_beq_self_iff ht.2, Table.beq_self_iff ht.1, places,
    List.forall_mem_append]
  exact ⟨fun h => ⟨Place.naNFree_types _, h.2.2⟩,
    fun h => ⟨rfl, fun _ _ => beq_self_eq_true _, h.2⟩⟩

theorem Reordered.beq (h : t.Reordered u) (ht : t.Unique)
    (hplaces : ∀ place ∈ t.places, place.NaNFree) : (t == u) = true := by
  obtain ⟨-, htypes, hmethods⟩ := beq_iff.1 ((beq_self_iff ht).2 hplaces)
  exact beq_iff.2 ⟨h.generics,
    Table.beq_of_perm ht.1 h.types ((Table.beq_self_iff ht.1).1 htypes),
    Table.beq_of_perm ht.2 h.methods ((Table.beq_self_iff ht.2).1 hmethods)⟩

end Trait

namespace InherentImpl

variable {a b c : InherentImpl}

theorem beq_iff : (a == b) = true ↔
    a.generics = b.generics ∧ a.self = b.self ∧ (a.methods == b.methods) = true := by
  show (a.generics == b.generics && (a.self == b.self && a.methods == b.methods)) = true ↔ _
  simp

theorem beq_symm (ha : a.methods.Unique) (hb : b.methods.Unique) (h : (a == b) = true) :
    (b == a) = true := by
  obtain ⟨hgenerics, hself, hmethods⟩ := beq_iff.1 h
  exact beq_iff.2
    ⟨hgenerics.symm, hself.symm, Table.beq_symm_of_values ha hb hmethods⟩

theorem beq_trans (ha : a.methods.Unique) (hb : b.methods.Unique) (hc : c.methods.Unique)
    (h : (a == b) = true) (h' : (b == c) = true) : (a == c) = true := by
  obtain ⟨hgenerics, hself, hmethods⟩ := beq_iff.1 h
  obtain ⟨hgenerics', hself', hmethods'⟩ := beq_iff.1 h'
  exact beq_iff.2 ⟨hgenerics.trans hgenerics', hself.trans hself',
    Table.beq_trans_of_values ha hb hc hmethods hmethods'⟩

theorem beq_self_iff (ha : a.methods.Unique) :
    (a == a) = true ↔ ∀ place ∈ a.places, place.NaNFree := by
  rw [beq_iff, Function.table_beq_self_iff ha, places, List.forall_mem_append]
  exact ⟨fun h => ⟨Place.naNFree_types _, h.2.2⟩, fun h => ⟨rfl, rfl, h.2⟩⟩

theorem Reordered.beq (h : a.Reordered b) (ha : a.methods.Unique)
    (hplaces : ∀ place ∈ a.places, place.NaNFree) : (a == b) = true := by
  obtain ⟨-, -, hmethods⟩ := beq_iff.1 ((beq_self_iff ha).2 hplaces)
  exact beq_iff.2 ⟨h.generics, h.self,
    Table.beq_of_perm ha h.methods ((Table.beq_self_iff ha).1 hmethods)⟩

end InherentImpl

namespace TraitImpl

variable {a b c : TraitImpl}

/-- No name is given twice in the block. -/
def Unique (a : TraitImpl) : Prop :=
  a.types.Unique ∧ a.methods.Unique

theorem beq_iff : (a == b) = true ↔
    a.generics = b.generics ∧ a.trait = b.trait ∧ a.self = b.self ∧
      (a.types == b.types) = true ∧ (a.methods == b.methods) = true := by
  show (a.generics == b.generics && (a.trait == b.trait && (a.self == b.self &&
    (a.types == b.types && a.methods == b.methods)))) = true ↔ _
  simp

theorem beq_symm (ha : a.Unique) (hb : b.Unique) (h : (a == b) = true) : (b == a) = true := by
  obtain ⟨hgenerics, htrait, hself, htypes, hmethods⟩ := beq_iff.1 h
  exact beq_iff.2 ⟨hgenerics.symm, htrait.symm, hself.symm,
    Table.beq_symm_of_values ha.1 hb.1 htypes, Table.beq_symm_of_values ha.2 hb.2 hmethods⟩

theorem beq_trans (ha : a.Unique) (hb : b.Unique) (hc : c.Unique) (h : (a == b) = true)
    (h' : (b == c) = true) : (a == c) = true := by
  obtain ⟨hgenerics, htrait, hself, htypes, hmethods⟩ := beq_iff.1 h
  obtain ⟨hgenerics', htrait', hself', htypes', hmethods'⟩ := beq_iff.1 h'
  exact beq_iff.2 ⟨hgenerics.trans hgenerics', htrait.trans htrait', hself.trans hself',
    Table.beq_trans_of_values ha.1 hb.1 hc.1 htypes htypes',
    Table.beq_trans_of_values ha.2 hb.2 hc.2 hmethods hmethods'⟩

theorem beq_self_iff (ha : a.Unique) :
    (a == a) = true ↔ ∀ place ∈ a.places, place.NaNFree := by
  rw [beq_iff, Function.table_beq_self_iff ha.2, Table.beq_self_iff ha.1, places,
    List.forall_mem_append]
  exact ⟨fun h => ⟨Place.naNFree_types _, h.2.2.2.2⟩,
    fun h => ⟨rfl, rfl, rfl, fun _ _ => beq_self_eq_true _, h.2⟩⟩

theorem Reordered.beq (h : a.Reordered b) (ha : a.Unique)
    (hplaces : ∀ place ∈ a.places, place.NaNFree) : (a == b) = true := by
  obtain ⟨-, -, -, htypes, hmethods⟩ := beq_iff.1 ((beq_self_iff ha).2 hplaces)
  exact beq_iff.2 ⟨h.generics, h.trait, h.self,
    Table.beq_of_perm ha.1 h.types ((Table.beq_self_iff ha.1).1 htypes),
    Table.beq_of_perm ha.2 h.methods ((Table.beq_self_iff ha.2).1 hmethods)⟩

end TraitImpl

/-! ### Items -/

/-- What `==` finds equal: items of one kind with equal contents. -/
inductive Item.Alike : Item → Item → Prop
  | module {items items' : Items} :
      (items == items') = true → Item.Alike (.module items) (.module items')
  | function {f g : Function} : (f == g) = true → Item.Alike (.function f) (.function g)
  | struct {s : Struct} : Item.Alike (.struct s) (.struct s)
  | enum {e : Enum} : Item.Alike (.enum e) (.enum e)
  | typeAlias {a : TypeAlias} : Item.Alike (.typeAlias a) (.typeAlias a)
  | static {s r : Static} : (s == r) = true → Item.Alike (.static s) (.static r)
  | trait {t u : Trait} : (t == u) = true → Item.Alike (.trait t) (.trait u)

namespace Item

variable {a b c : Item}

theorem beq_iff : (a == b) = true ↔ a.Alike b := by
  constructor
  · intro h
    cases a with
    | module items =>
        cases b with
        | module items' => exact .module (module_beq_module items items' ▸ h)
        | _ => cases h
    | function f =>
        cases b with
        | function g => exact .function h
        | _ => cases h
    | struct s =>
        cases b with
        | struct r => exact LawfulBEq.eq_of_beq (a := s) (b := r) h ▸ .struct
        | _ => cases h
    | enum e =>
        cases b with
        | enum d => exact LawfulBEq.eq_of_beq (a := e) (b := d) h ▸ .enum
        | _ => cases h
    | typeAlias t =>
        cases b with
        | typeAlias u => exact LawfulBEq.eq_of_beq (a := t) (b := u) h ▸ .typeAlias
        | _ => cases h
    | static s =>
        cases b with
        | static r => exact .static h
        | _ => cases h
    | trait t =>
        cases b with
        | trait u => exact .trait h
        | _ => cases h
  · intro h
    cases h with
    | module h => exact (module_beq_module _ _).symm ▸ h
    | function h => exact h
    | @struct s => exact beq_self_eq_true s
    | @enum e => exact beq_self_eq_true e
    | @typeAlias t => exact beq_self_eq_true t
    | static h => exact h
    | trait h => exact h

theorem uniqueEntries_iff {entries : List (String × Item)} :
    UniqueEntries entries ↔ ∀ item ∈ (Table.mk entries).values, item.Unique := by
  induction entries with
  | nil => simp [UniqueEntries, Table.values]
  | cons entry entries ih => simpa [UniqueEntries, Table.values] using fun _ => ih

theorem placesOf_eq_flatMap (entries : List (String × Item)) :
    placesOf entries = (Table.mk entries).values.flatMap places := by
  induction entries with
  | nil => rfl
  | cons entry entries ih =>
      rw [placesOf, ih]
      exact List.flatMap_cons.symm

end Item

mutual

/-- What holds of a module if it holds of the items in it, and of all other items, holds of
every item. -/
theorem Item.induction {P : Item → Prop}
    (module : ∀ items : Items, (∀ item ∈ items.values, P item) → P (.module items))
    (leaf : ∀ item, (∀ items, item ≠ .module items) → P item) : ∀ item, P item
  | .module ⟨entries⟩ => module ⟨entries⟩ (Item.induction_values module leaf entries)
  | .function f => leaf (.function f) nofun
  | .struct s => leaf (.struct s) nofun
  | .enum e => leaf (.enum e) nofun
  | .typeAlias a => leaf (.typeAlias a) nofun
  | .static s => leaf (.static s) nofun
  | .trait t => leaf (.trait t) nofun
termination_by structural item => item

theorem Item.induction_values {P : Item → Prop}
    (module : ∀ items : Items, (∀ item ∈ items.values, P item) → P (.module items))
    (leaf : ∀ item, (∀ items, item ≠ .module items) → P item) :
    ∀ entries : List (String × Item), ∀ item ∈ entries.map Prod.snd, P item
  | [], _, h => nomatch h
  | (_, first) :: entries, item, h =>
      (List.mem_cons.1 h).elim (fun heq => heq ▸ Item.induction module leaf first)
        (Item.induction_values module leaf entries item)
termination_by structural entries => entries

end

namespace Item

variable {a b c : Item}

theorem beq_symm (ha : a.Unique) (hb : b.Unique) (h : (a == b) = true) : (b == a) = true := by
  induction a using Item.induction generalizing b with
  | module items ih =>
      cases beq_iff.1 h with
      | @module _ items' hitems =>
          obtain ⟨entries⟩ := items
          obtain ⟨entries'⟩ := items'
          rw [module_beq_module]
          exact Table.beq_symm ha.1 hb.1 (fun x hx y hy =>
            ih x hx (uniqueEntries_iff.1 ha.2 x hx) (uniqueEntries_iff.1 hb.2 y hy)) hitems
  | leaf a hleaf =>
      cases beq_iff.1 h with
      | module => exact absurd rfl (hleaf _)
      | function hf => exact beq_iff.2 (.function (PartialEquivBEq.symm hf))
      | struct => exact h
      | enum => exact h
      | typeAlias => exact h
      | static hs => exact beq_iff.2 (.static (PartialEquivBEq.symm hs))
      | trait ht => exact beq_iff.2 (.trait (Trait.beq_symm ha hb ht))

theorem beq_trans (ha : a.Unique) (hb : b.Unique) (hc : c.Unique) (h : (a == b) = true)
    (h' : (b == c) = true) : (a == c) = true := by
  induction a using Item.induction generalizing b c with
  | module items ih =>
      cases beq_iff.1 h with
      | @module _ items' hitems =>
          cases beq_iff.1 h' with
          | @module _ items'' hitems' =>
              obtain ⟨entries⟩ := items
              obtain ⟨entries'⟩ := items'
              obtain ⟨entries''⟩ := items''
              rw [module_beq_module]
              exact Table.beq_trans ha.1 hb.1 hc.1 (fun x hx y hy z hz =>
                ih x hx (uniqueEntries_iff.1 ha.2 x hx) (uniqueEntries_iff.1 hb.2 y hy)
                  (uniqueEntries_iff.1 hc.2 z hz)) hitems hitems'
  | leaf a hleaf =>
      cases beq_iff.1 h with
      | module => exact absurd rfl (hleaf _)
      | function hf =>
          cases beq_iff.1 h' with
          | function hg => exact beq_iff.2 (.function (PartialEquivBEq.trans hf hg))
      | struct => exact h'
      | enum => exact h'
      | typeAlias => exact h'
      | static hs =>
          cases beq_iff.1 h' with
          | static hr => exact beq_iff.2 (.static (PartialEquivBEq.trans hs hr))
      | trait ht =>
          cases beq_iff.1 h' with
          | trait hu => exact beq_iff.2 (.trait (Trait.beq_trans ha hb hc ht hu))

theorem table_beq_self_iff {items : Items} (hkeys : items.Unique)
    (h : ∀ item ∈ items.values, (item == item) = true ↔ ∀ place ∈ item.places, place.NaNFree) :
    (items == items) = true ↔ ∀ place ∈ placesOf items.entries, place.NaNFree := by
  rw [Table.beq_self_iff hkeys, placesOf_eq_flatMap, List.forall_mem_flatMap]
  exact forall₂_congr h

theorem beq_self_iff (ha : a.Unique) :
    (a == a) = true ↔ ∀ place ∈ a.places, place.NaNFree := by
  induction a using Item.induction with
  | module items ih =>
      obtain ⟨entries⟩ := items
      rw [module_beq_module]
      exact table_beq_self_iff ha.1 fun item hitem =>
        ih item hitem (uniqueEntries_iff.1 ha.2 item hitem)
  | leaf a hleaf =>
      cases a with
      | module items => exact absurd rfl (hleaf items)
      | function f => exact Function.beq_self_iff
      | struct s => exact iff_of_true (beq_iff.2 .struct) (Place.naNFree_types s.parts)
      | enum e => exact iff_of_true (beq_iff.2 .enum) (Place.naNFree_types e.parts)
      | typeAlias t => exact iff_of_true (beq_iff.2 .typeAlias) (Place.naNFree_types t.parts)
      | static s => exact Static.beq_self_iff
      | trait t => exact Trait.beq_self_iff ha

end Item

mutual

theorem Item.Reordered.beq : ∀ {a b : Item}, a.Reordered b → a.Unique →
    (∀ place ∈ a.places, place.NaNFree) → (a == b) = true
  | _, _, .refl _, ha, hplaces => (Item.beq_self_iff ha).2 hplaces
  | _, _, .trait h, ha, hplaces => h.beq ha hplaces
  | .module ⟨entries⟩, .module ⟨_⟩, .module (.intro hperm h), ha, hplaces => by
      have hitems : ∀ item ∈ entries.map Prod.snd, item.Unique := Item.uniqueEntries_iff.1 ha.2
      have hvalues := hperm.map Prod.snd
      have hplaces : ∀ item ∈ entries.map Prod.snd, ∀ place ∈ item.places, place.NaNFree := by
        have hplaces : ∀ place ∈ Item.placesOf entries, place.NaNFree := hplaces
        rwa [Item.placesOf_eq_flatMap, List.forall_mem_flatMap] at hplaces
      rw [Item.module_beq_module]
      refine Table.beq_of_reordered ha.1 (.intro hperm (Item.Reordered.entries_beq h ?_ ?_))
      · exact fun item hitem => hitems item (hvalues.mem_iff.2 hitem)
      · exact fun item hitem => hplaces item (hvalues.mem_iff.2 hitem)

theorem Item.Reordered.entries_beq : ∀ {entries entries' : List (String × Item)},
    Table.Rel Item.Reordered ⟨entries⟩ ⟨entries'⟩ →
    (∀ item ∈ entries.map Prod.snd, item.Unique) →
    (∀ item ∈ entries.map Prod.snd, ∀ place ∈ item.places, place.NaNFree) →
    Table.Rel (fun x y => (x == y) = true) ⟨entries⟩ ⟨entries'⟩
  | [], [], .nil, _, _ => .nil
  | (_, item) :: _, (_, _) :: _, .cons hitem h, hitems, hplaces =>
      .cons (hitem.beq (hitems item List.mem_cons_self) (hplaces item List.mem_cons_self))
        (Item.Reordered.entries_beq h
          (fun item hitem => hitems item (List.mem_cons_of_mem _ hitem))
          fun item hitem => hplaces item (List.mem_cons_of_mem _ hitem))

end

end Unerase
