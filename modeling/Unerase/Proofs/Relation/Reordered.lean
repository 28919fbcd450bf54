import Mathlib.Data.List.Perm.Basic
import Unerase.Proofs.Relation.Places

/-!
Crates that differ in the order of their tables only: of modules, of methods and of
associated types, at any depth. Such crates have the same places in some order
(`Crate.Reordered.places`). If both are changed place by place in one and the same way,
the results differ in the order of their tables only (`Crate.Reordered.related`).
-/

namespace Unerase

/-- The first table is brought into another order, and then each value is replaced by a
related one. -/
inductive Table.Reordered {α β : Type} (P : α → β → Prop) : Table α → Table β → Prop
  | intro {entries between : List (String × α)} {b : Table β} :
      entries.Perm between → Table.Rel P ⟨between⟩ b → Table.Reordered P ⟨entries⟩ b

/-- The associated types and the methods of the traits are the same up to their order. -/
structure Trait.Reordered (t t' : Trait) : Prop where
  generics : t.generics = t'.generics
  types : t.types.entries.Perm t'.types.entries
  methods : t.methods.entries.Perm t'.methods.entries

/-- The methods of the blocks are the same up to their order. -/
structure InherentImpl.Reordered (a b : InherentImpl) : Prop where
  generics : a.generics = b.generics
  self : a.self = b.self
  methods : a.methods.entries.Perm b.methods.entries

/-- The associated types and the methods of the blocks are the same up to their order. -/
structure TraitImpl.Reordered (a b : TraitImpl) : Prop where
  generics : a.generics = b.generics
  trait : a.trait = b.trait
  self : a.self = b.self
  types : a.types.entries.Perm b.types.entries
  methods : a.methods.entries.Perm b.methods.entries

/-- The tables in the items differ in the order of their entries only, at any depth. -/
inductive Item.Reordered : Item → Item → Prop
  | refl (item : Item) : Item.Reordered item item
  | trait {t t' : Trait} : t.Reordered t' → Item.Reordered (.trait t) (.trait t')
  | module {items items' : Items} :
      items.Reordered Item.Reordered items' →
      Item.Reordered (.module items) (.module items')

/-- The crates differ in the order of the entries of modules, method tables and tables of
associated types. Their impl blocks are in the same order. -/
structure Crate.Reordered (c d : Crate) : Prop where
  name : c.name = d.name
  items : c.items.Reordered Item.Reordered d.items
  inherentImpls :
    List.Forall₂ InherentImpl.Reordered c.inherentImpls d.inherentImpls
  traitImpls : List.Forall₂ TraitImpl.Reordered c.traitImpls d.traitImpls

/-! ### The same places -/

theorem Table.values_perm {α : Type} {a b : Table α} (h : a.entries.Perm b.entries) :
    a.values.Perm b.values :=
  h.map Prod.snd

theorem Function.places_perm {methods methods' : Table Function}
    (h : methods.entries.Perm methods'.entries) :
    (methods.values.flatMap Function.places).Perm
      (methods'.values.flatMap Function.places) :=
  (Table.values_perm h).flatMap_right Function.places

theorem Trait.Reordered.places {t t' : Trait} (h : t.Reordered t') :
    t.places.Perm t'.places := by
  have htypes : (t.types.values.flatMap AssocType.parts).Perm
      (t'.types.values.flatMap AssocType.parts) :=
    (Table.values_perm h.types).flatMap_right AssocType.parts
  unfold Trait.places
  rw [h.generics]
  exact ((htypes.append_left _).map _).append (Function.places_perm h.methods)

theorem InherentImpl.Reordered.places {a b : InherentImpl} (h : a.Reordered b) :
    a.places.Perm b.places := by
  unfold InherentImpl.places
  rw [h.generics, h.self]
  exact (Function.places_perm h.methods).append_left _

theorem TraitImpl.Reordered.places {a b : TraitImpl} (h : a.Reordered b) :
    a.places.Perm b.places := by
  have htypes : (a.self :: a.types.values).Perm (b.self :: b.types.values) :=
    h.self ▸ (Table.values_perm h.types).cons a.self
  unfold TraitImpl.places
  rw [h.generics, h.trait]
  exact (((htypes.append_left _).append_left _).map _).append
    (Function.places_perm h.methods)

theorem Item.placesOf_perm {entries entries' : List (String × Item)}
    (h : entries.Perm entries') :
    (Item.placesOf entries).Perm (Item.placesOf entries') := by
  have hflatMap (es : List (String × Item)) :
      Item.placesOf es = es.flatMap fun entry => entry.2.places := by
    induction es with
    | nil => rfl
    | cons entry es ih => rw [Item.placesOf, ih, List.flatMap_cons]
  rw [hflatMap, hflatMap]
  exact h.flatMap_right _

mutual

theorem Item.Reordered.places : ∀ {item item' : Item}, item.Reordered item' →
    item.places.Perm item'.places
  | _, _, .refl _ => .refl _
  | _, _, .trait h => h.places
  | .module ⟨_⟩, .module ⟨_⟩, .module (.intro hperm h) =>
      (Item.placesOf_perm hperm).trans (Item.Reordered.placesOf h)

theorem Item.Reordered.placesOf : ∀ {between entries : List (String × Item)},
    Table.Rel Item.Reordered ⟨between⟩ ⟨entries⟩ →
    (Item.placesOf between).Perm (Item.placesOf entries)
  | [], [], .nil => .nil
  | (_, _) :: _, (_, _) :: _, .cons hitem h =>
      hitem.places.append (Item.Reordered.placesOf h)

end

theorem flatMap_perm_of_forall₂ {α β : Type} {P : α → α → Prop} {f : α → List β}
    (hf : ∀ a b, P a b → (f a).Perm (f b)) {as bs : List α}
    (h : List.Forall₂ P as bs) : (as.flatMap f).Perm (bs.flatMap f) := by
  induction h with
  | nil => exact .nil
  | cons hab _ ih => exact (hf _ _ hab).append ih

namespace Crate.Reordered

variable {c d : Crate}

theorem places (h : c.Reordered d) : c.places.Perm d.places := by
  obtain ⟨name, items, impls, traitImpls⟩ := c
  obtain ⟨_, ⟨entries'⟩, impls', traitImpls'⟩ := d
  obtain ⟨rfl, ⟨hperm, hitems⟩, himpls, htraitImpls⟩ := h
  have hitems := (Item.placesOf_perm hperm).trans (Item.Reordered.placesOf hitems)
  have himpls := flatMap_perm_of_forall₂ (fun _ _ block => block.places) himpls
  have htraitImpls :=
    flatMap_perm_of_forall₂ (fun _ _ block => block.places) htraitImpls
  exact hitems.append (himpls.append htraitImpls)

theorem mem_types (h : c.Reordered d) {t : Ty} : t ∈ c.types ↔ t ∈ d.types := by
  rw [Crate.mem_types, Crate.mem_types, h.places.mem_iff]

theorem mem_bodies (h : c.Reordered d) {b : Body} : b ∈ c.bodies ↔ b ∈ d.bodies := by
  rw [Crate.mem_bodies, Crate.mem_bodies, h.places.mem_iff]

end Crate.Reordered

/-! ### The same changes -/

theorem Table.Rel.forall₂ {α β : Type} {P : α → β → Prop} {a : Table α} {b : Table β}
    (h : a.Rel P b) :
    List.Forall₂ (fun x y => x.1 = y.1 ∧ P x.2 y.2) a.entries b.entries := by
  induction h with
  | nil => exact .nil
  | cons hab _ ih => exact .cons ⟨rfl, hab⟩ ih

theorem Table.rel_of_forall₂ {α β : Type} {P : α → β → Prop} {as : List (String × α)}
    {bs : List (String × β)}
    (h : List.Forall₂ (fun x y => x.1 = y.1 ∧ P x.2 y.2) as bs) :
    Table.Rel P ⟨as⟩ ⟨bs⟩ := by
  induction h with
  | nil => exact .nil
  | @cons x y as bs hxy _ ih =>
      obtain ⟨name, a⟩ := x
      obtain ⟨_, b⟩ := y
      obtain ⟨rfl, hab⟩ := hxy
      exact .cons hab ih

theorem Table.Rel.exists_perm {α β : Type} {P : α → β → Prop}
    {entries between : List (String × α)} {b : Table β} (h : Table.Rel P ⟨entries⟩ b)
    (hperm : entries.Perm between) :
    ∃ between', b.entries.Perm between' ∧ Table.Rel P ⟨between⟩ ⟨between'⟩ := by
  obtain ⟨between', hbetween, hb⟩ := List.perm_comp_forall₂ hperm.symm h.forall₂
  exact ⟨between', hb.symm, Table.rel_of_forall₂ hbetween⟩

theorem Table.perm_of_rel {α β : Type} {P : α → β → Prop}
    (hP : ∀ x y z, P x y → P x z → y = z) {a a' : Table α} {b b' : Table β}
    (hperm : a.entries.Perm a'.entries) (h : a.Rel P b) (h' : a'.Rel P b') :
    b.entries.Perm b'.entries := by
  have hunique : Relator.RightUnique
      fun (x : String × α) (y : String × β) => x.1 = y.1 ∧ P x.2 y.2 := by
    rintro ⟨name, x⟩ ⟨_, y⟩ ⟨_, z⟩ ⟨rfl, hy⟩ ⟨rfl, hz⟩
    rw [hP x y z hy hz]
  exact List.rel_perm_imp hunique h.forall₂ h'.forall₂ hperm

section Related

variable {R : Ty → Ty → Prop} {B : Body → Body → Prop}
  (hR : ∀ t u v, R t u → R t v → u = v) (hB : ∀ b d d', B b d → B b d' → d = d')

include hR hB

theorem Function.perm_of_rel {a a' b b' : Table Function}
    (hperm : a.entries.Perm a'.entries) (h : a.Rel (Function.Rel R B) b)
    (h' : a'.Rel (Function.Rel R B) b') : b.entries.Perm b'.entries :=
  Table.perm_of_rel (fun _ _ _ hf hg => hf.unique hR hB hg) hperm h h'

theorem Trait.Reordered.related {t t' u u' : Trait} (h : t.Reordered t')
    (hu : t.Rel R B u) (hu' : t'.Rel R B u') : u.Reordered u' where
  generics := hu.generics.unique hR (h.generics ▸ hu'.generics)
  types := Table.perm_of_rel (fun _ _ _ ha hb => ha.unique hR hb) h.types hu.types
    hu'.types
  methods := Function.perm_of_rel hR hB h.methods hu.methods hu'.methods

theorem InherentImpl.Reordered.related {a a' b b' : InherentImpl} (h : a.Reordered a')
    (hb : a.Rel R B b) (hb' : a'.Rel R B b') : b.Reordered b' where
  generics := hb.generics.unique hR (h.generics ▸ hb'.generics)
  self := hR _ _ _ hb.self (h.self ▸ hb'.self)
  methods := Function.perm_of_rel hR hB h.methods hb.methods hb'.methods

theorem TraitImpl.Reordered.related {a a' b b' : TraitImpl} (h : a.Reordered a')
    (hb : a.Rel R B b) (hb' : a'.Rel R B b') : b.Reordered b' where
  generics := hb.generics.unique hR (h.generics ▸ hb'.generics)
  trait := hb.trait.unique hR (h.trait ▸ hb'.trait)
  self := hR _ _ _ hb.self (h.self ▸ hb'.self)
  types := Table.perm_of_rel hR h.types hb.types hb'.types
  methods := Function.perm_of_rel hR hB h.methods hb.methods hb'.methods

end Related

mutual

theorem Item.Reordered.related {R : Ty → Ty → Prop} {B : Body → Body → Prop}
    (hR : ∀ t u v, R t u → R t v → u = v) (hB : ∀ b d d', B b d → B b d' → d = d') :
    ∀ {a a' b b' : Item}, a.Reordered a' → a.Rel R B b → a'.Rel R B b' →
      b.Reordered b'
  | _, _, _, _, .refl _, hb, hb' => hb.unique hR hB hb' ▸ .refl _
  | _, _, _, _, .trait h, .trait ht, .trait ht' => .trait (h.related hR hB ht ht')
  | _, .module ⟨_⟩, .module ⟨_⟩, .module ⟨_⟩, .module (.intro hperm h), .module hb,
      .module hb' => by
      obtain ⟨between', hperm', hbetween⟩ := hb.exists_perm hperm
      exact .module (.intro hperm' (Item.Reordered.entries_related hR hB h hbetween hb'))

theorem Item.Reordered.entries_related {R : Ty → Ty → Prop} {B : Body → Body → Prop}
    (hR : ∀ t u v, R t u → R t v → u = v) (hB : ∀ b d d', B b d → B b d' → d = d') :
    ∀ {a a' b b' : List (String × Item)}, Table.Rel Item.Reordered ⟨a⟩ ⟨a'⟩ →
      Table.Rel (Item.Rel R B) ⟨a⟩ ⟨b⟩ → Table.Rel (Item.Rel R B) ⟨a'⟩ ⟨b'⟩ →
      Table.Rel Item.Reordered ⟨b⟩ ⟨b'⟩
  | [], [], [], [], .nil, .nil, .nil => .nil
  | (_, _) :: _, (_, _) :: _, (_, _) :: _, (_, _) :: _, .cons hitem h, .cons hb hbs,
      .cons hb' hbs' =>
      .cons (hitem.related hR hB hb hb') (Item.Reordered.entries_related hR hB h hbs hbs')

end

/-- If types and bodies are changed in the one way that there is, the order of the tables
makes no other difference afterwards than before. -/
theorem Crate.Reordered.related {R : Ty → Ty → Prop} {B : Body → Body → Prop}
    (hR : ∀ t u v, R t u → R t v → u = v) (hB : ∀ b d d', B b d → B b d' → d = d')
    {c d c' d' : Crate} (h : c.Reordered d) (hc : c.Rel R B c') (hd : d.Rel R B d') :
    c'.Reordered d' := by
  obtain ⟨name, ⟨entries⟩, impls, traitImpls⟩ := c
  obtain ⟨_, ⟨entries'⟩, impls', traitImpls'⟩ := d
  obtain ⟨hname, ⟨hperm, hitems⟩, himpls, htraitImpls⟩ := h
  obtain ⟨between', hperm', hbetween⟩ := hc.items.exists_perm hperm
  exact ⟨hc.name.symm.trans (hname.trans hd.name),
    .intro hperm' (Item.Reordered.entries_related hR hB hitems hbetween hd.items),
    forall₂_related (fun _ _ _ _ h hb hb' => h.related hR hB hb hb') himpls
      hc.inherentImpls hd.inherentImpls,
    forall₂_related (fun _ _ _ _ h hb hb' => h.related hR hB hb hb') htraitImpls
      hc.traitImpls hd.traitImpls⟩

/-! ### The same names -/

section Names

variable {R : Ty → Ty → Prop} {B : Body → Body → Prop}

theorem Table.Rel.keys {α β : Type} {P : α → β → Prop} {a : Table α} {b : Table β}
    (h : a.Rel P b) : a.keys = b.keys := by
  induction h with
  | nil => rfl
  | cons _ _ ih => exact congrArg _ ih

theorem Table.Rel.unique_names {α β : Type} {P : α → β → Prop} {a : Table α}
    {b : Table β} (h : a.Rel P b) (ha : a.Unique) : b.Unique := by
  rwa [Table.Unique, ← h.keys]

mutual

theorem Item.Rel.unique_names : ∀ {item item' : Item}, item.Rel R B item' →
    item.Unique → item'.Unique
  | .module ⟨_⟩, .module ⟨_⟩, .module h, ⟨hkeys, hitems⟩ =>
      ⟨h.unique_names hkeys, Item.Rel.entries_unique_names h hitems⟩
  | .trait _, .trait _, .trait h, ⟨htypes, hmethods⟩ =>
      ⟨h.types.unique_names htypes, h.methods.unique_names hmethods⟩
  | .function _, .function _, .function _, _ => trivial
  | .struct _, .struct _, .struct _, _ => trivial
  | .enum _, .enum _, .enum _, _ => trivial
  | .typeAlias _, .typeAlias _, .typeAlias _, _ => trivial
  | .static _, .static _, .static _, _ => trivial

theorem Item.Rel.entries_unique_names : ∀ {entries entries' : List (String × Item)},
    Table.Rel (Item.Rel R B) ⟨entries⟩ ⟨entries'⟩ → Item.UniqueEntries entries →
    Item.UniqueEntries entries'
  | [], [], .nil, _ => trivial
  | (_, _) :: _, (_, _) :: _, .cons hitem h, ⟨hunique, hrest⟩ =>
      ⟨hitem.unique_names hunique, Item.Rel.entries_unique_names h hrest⟩

end

theorem Crate.Rel.unique_names {c c' : Crate} (h : c.Rel R B c') (hc : c.Unique) :
    c'.Unique where
  items := ⟨h.items.unique_names hc.items.1,
    Item.Rel.entries_unique_names h.items hc.items.2⟩
  inherentImpls := by
    intro block' hblock'
    obtain ⟨block, hblock, hrel⟩ := forall₂_exists h.inherentImpls.flip hblock'
    exact hrel.methods.unique_names (hc.inherentImpls block hblock)
  traitImpls := by
    intro block' hblock'
    obtain ⟨block, hblock, hrel⟩ := forall₂_exists h.traitImpls.flip hblock'
    obtain ⟨htypes, hmethods⟩ := hc.traitImpls block hblock
    exact ⟨hrel.types.unique_names htypes, hrel.methods.unique_names hmethods⟩

end Names

end Unerase
