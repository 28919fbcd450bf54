import Unerase.Proofs.Relation.Crate
import Unerase.Proofs.Relation.Parts

/-!
The places of a crate, as a list: the types in signatures and the bodies, in the order in
which a walk over the crate comes to them. Related crates have related places, one by one
(`Crate.Rel.places`), and a crate is related to itself if all of its places are
(`Crate.rel_of_places`).
-/

namespace Unerase

/-! ### Types in signatures -/

def TypeParam.parts (p : TypeParam) : List Ty :=
  p.default?.toList

def Bound.parts : Bound → List Ty
  | .implements type trait => type :: trait.parts
  | .equal type other => [type, other]

/-- The types in generic parameters: defaults, types of constants, and types in conditions. -/
def Generics.parts (g : Generics) : List Ty :=
  g.types.flatMap TypeParam.parts ++
    (g.consts.map TypedName.type ++ g.bounds.flatMap Bound.parts)

def Struct.parts (s : Struct) : List Ty :=
  s.generics.parts ++ s.fields.map TypedName.type

def Enum.parts (e : Enum) : List Ty :=
  e.generics.parts ++ e.variants.flatMap Variant.fields

def TypeAlias.parts (a : TypeAlias) : List Ty :=
  a.generics.parts ++ [a.type]

def AssocType.parts (a : AssocType) : List Ty :=
  a.bounds.flatMap ItemRef.parts ++ a.default?.toList

/-- The types in the signature of a function. -/
def Function.parts (f : Function) : List Ty :=
  f.generics.parts ++ (f.args.map TypedName.type ++ [f.result])

/-! ### Places -/

/-- What a walk over a crate comes to. -/
inductive Place where
  /-- A type in a signature. -/
  | type (t : Ty)
  | body (b : Body)

def Place.type? : Place → Option Ty
  | .type t => some t
  | .body _ => none

def Place.body? : Place → Option Body
  | .type _ => none
  | .body b => some b

/-- The values of a table in order. -/
def Table.values {α : Type} (t : Table α) : List α :=
  t.entries.map Prod.snd

/-- The signature of a function comes before its body. -/
def Function.places (f : Function) : List Place :=
  f.parts.map .type ++ f.body?.toList.map .body

def Static.places (s : Static) : List Place :=
  .type s.type :: s.body?.toList.map .body

def Trait.places (t : Trait) : List Place :=
  (t.generics.parts ++ t.types.values.flatMap AssocType.parts).map .type ++
    t.methods.values.flatMap Function.places

def InherentImpl.places (block : InherentImpl) : List Place :=
  (block.generics.parts ++ [block.self]).map .type ++
    block.methods.values.flatMap Function.places

def TraitImpl.places (block : TraitImpl) : List Place :=
  (block.generics.parts ++ (block.trait.parts ++ block.self :: block.types.values)).map
    .type ++ block.methods.values.flatMap Function.places

mutual

/-- The places of an item. Those of a module are the places of its items. -/
def Item.places : Item → List Place
  | .module ⟨entries⟩ => Item.placesOf entries
  | .function f => f.places
  | .struct s => s.parts.map .type
  | .enum e => e.parts.map .type
  | .typeAlias a => a.parts.map .type
  | .static s => s.places
  | .trait t => t.places
termination_by structural item => item

/-- The places of the items of a module. -/
def Item.placesOf : List (String × Item) → List Place
  | [] => []
  | (_, item) :: entries => item.places ++ Item.placesOf entries
termination_by structural entries => entries

end

namespace Crate

/-- The places of a crate: those of its items, then those of its impl blocks. -/
def places (c : Crate) : List Place :=
  Item.placesOf c.items.entries ++ (c.inherentImpls.flatMap InherentImpl.places ++
    c.traitImpls.flatMap TraitImpl.places)

/-- All types in the signatures of a crate. -/
def types (c : Crate) : List Ty :=
  c.places.filterMap Place.type?

/-- All bodies of a crate. -/
def bodies (c : Crate) : List Body :=
  c.places.filterMap Place.body?

theorem mem_types {c : Crate} {t : Ty} : t ∈ c.types ↔ .type t ∈ c.places := by
  simp only [types, List.mem_filterMap]
  constructor
  · rintro ⟨t | b, hmem, h⟩
    · cases h
      exact hmem
    · cases h
  · intro h
    exact ⟨_, h, rfl⟩

theorem mem_bodies {c : Crate} {b : Body} : b ∈ c.bodies ↔ .body b ∈ c.places := by
  simp only [bodies, List.mem_filterMap]
  constructor
  · rintro ⟨t | b, hmem, h⟩
    · cases h
    · cases h
      exact hmem
  · intro h
    exact ⟨_, h, rfl⟩

end Crate

/-! ### Related places -/

section Related

variable {R : Ty → Ty → Prop}

theorem optionRel_toList {α β : Type} {P : α → β → Prop} {x : Option α}
    {y : Option β} (h : Option.Rel P x y) : List.Forall₂ P x.toList y.toList := by
  cases h with
  | none => exact .nil
  | some h => exact .cons h .nil

theorem Table.Rel.values {α β : Type} {P : α → β → Prop} {a : Table α} {b : Table β}
    (h : a.Rel P b) : List.Forall₂ P a.values b.values := by
  induction h with
  | nil => exact .nil
  | cons hab _ ih => exact .cons hab ih

theorem Bound.Rel.parts {p q : Bound} (h : p.Rel R q) :
    List.Forall₂ R p.parts q.parts := by
  cases h with
  | implements type trait => exact .cons type trait.parts
  | equal type other => exact .cons type (.cons other .nil)

theorem Generics.Rel.parts {g g' : Generics} (h : g.Rel R g') :
    List.Forall₂ R g.parts g'.parts := by
  have htypes := List.rel_flatMap h.types fun _ _ p => optionRel_toList p.default?
  have hbounds := List.rel_flatMap h.bounds fun _ _ p => p.parts
  exact List.rel_append htypes
    (List.rel_append (TypedName.types_related h.consts) hbounds)

theorem Struct.Rel.parts {s s' : Struct} (h : s.Rel R s') :
    List.Forall₂ R s.parts s'.parts :=
  List.rel_append h.generics.parts (TypedName.types_related h.fields)

theorem Enum.Rel.parts {e e' : Enum} (h : e.Rel R e') :
    List.Forall₂ R e.parts e'.parts :=
  List.rel_append h.generics.parts
    (List.rel_flatMap h.variants fun _ _ variant => variant.fields)

theorem TypeAlias.Rel.parts {a b : TypeAlias} (h : a.Rel R b) :
    List.Forall₂ R a.parts b.parts :=
  List.rel_append h.generics.parts (.cons h.type .nil)

theorem AssocType.Rel.parts {a b : AssocType} (h : a.Rel R b) :
    List.Forall₂ R a.parts b.parts :=
  List.rel_append (ItemRef.parts_related h.bounds) (optionRel_toList h.default?)

/-- Places of the same kind with related types or related bodies. -/
inductive Place.Rel (R : Ty → Ty → Prop) (B : Body → Body → Prop) :
    Place → Place → Prop
  | type {t u : Ty} : R t u → Place.Rel R B (.type t) (.type u)
  | body {b d : Body} : B b d → Place.Rel R B (.body b) (.body d)

variable {B : Body → Body → Prop}

theorem Function.Rel.parts {f g : Function} (h : f.Rel R B g) :
    List.Forall₂ R f.parts g.parts :=
  List.rel_append h.generics.parts
    (List.rel_append (TypedName.types_related h.args) (.cons h.result .nil))

theorem Place.types_related {ts us : List Ty} (h : List.Forall₂ R ts us) :
    List.Forall₂ (Place.Rel R B) (ts.map .type) (us.map .type) :=
  List.rel_map (fun _ _ htu => .type htu) h

theorem Place.body?_related {b? d? : Option Body} (h : Option.Rel B b? d?) :
    List.Forall₂ (Place.Rel R B) (b?.toList.map .body) (d?.toList.map .body) :=
  List.rel_map (fun _ _ hbd => .body hbd) (optionRel_toList h)

theorem Function.Rel.places {f g : Function} (h : f.Rel R B g) :
    List.Forall₂ (Place.Rel R B) f.places g.places :=
  List.rel_append (Place.types_related h.parts) (Place.body?_related h.body?)

theorem Function.places_related {methods methods' : Table Function}
    (h : methods.Rel (Function.Rel R B) methods') :
    List.Forall₂ (Place.Rel R B) (methods.values.flatMap Function.places)
      (methods'.values.flatMap Function.places) :=
  List.rel_flatMap h.values fun _ _ method => method.places

theorem Static.Rel.places {s s' : Static} (h : s.Rel R B s') :
    List.Forall₂ (Place.Rel R B) s.places s'.places :=
  .cons (.type h.type) (Place.body?_related h.body?)

theorem Trait.Rel.places {t t' : Trait} (h : t.Rel R B t') :
    List.Forall₂ (Place.Rel R B) t.places t'.places := by
  have htypes := List.rel_flatMap h.types.values fun _ _ type => type.parts
  exact List.rel_append
    (Place.types_related (List.rel_append h.generics.parts htypes))
    (Function.places_related h.methods)

theorem InherentImpl.Rel.places {a b : InherentImpl} (h : a.Rel R B b) :
    List.Forall₂ (Place.Rel R B) a.places b.places := by
  have hself : List.Forall₂ R [a.self] [b.self] := .cons h.self .nil
  exact List.rel_append
    (Place.types_related (List.rel_append h.generics.parts hself))
    (Function.places_related h.methods)

theorem TraitImpl.Rel.places {a b : TraitImpl} (h : a.Rel R B b) :
    List.Forall₂ (Place.Rel R B) a.places b.places := by
  have hheader := List.rel_append h.trait.parts (.cons h.self h.types.values)
  exact List.rel_append
    (Place.types_related (List.rel_append h.generics.parts hheader))
    (Function.places_related h.methods)

mutual

theorem Item.Rel.places : ∀ {item item' : Item}, item.Rel R B item' →
    List.Forall₂ (Place.Rel R B) item.places item'.places
  | .module ⟨_⟩, .module ⟨_⟩, .module h => Item.Rel.placesOf h
  | .function _, _, .function h => h.places
  | .struct _, _, .struct h => Place.types_related h.parts
  | .enum _, _, .enum h => Place.types_related h.parts
  | .typeAlias _, _, .typeAlias h => Place.types_related h.parts
  | .static _, _, .static h => h.places
  | .trait _, _, .trait h => h.places

theorem Item.Rel.placesOf : ∀ {entries entries' : List (String × Item)},
    Table.Rel (Item.Rel R B) ⟨entries⟩ ⟨entries'⟩ →
    List.Forall₂ (Place.Rel R B) (Item.placesOf entries) (Item.placesOf entries')
  | [], [], .nil => .nil
  | (_, _) :: _, (_, _) :: _, .cons hitem h =>
      List.rel_append hitem.places (Item.Rel.placesOf h)

end

theorem Crate.Rel.places {c c' : Crate} (h : c.Rel R B c') :
    List.Forall₂ (Place.Rel R B) c.places c'.places := by
  have himpls := List.rel_flatMap h.inherentImpls fun _ _ block => block.places
  have htraitImpls := List.rel_flatMap h.traitImpls fun _ _ block => block.places
  exact List.rel_append (Item.Rel.placesOf h.items)
    (List.rel_append himpls htraitImpls)

theorem Crate.Rel.types {c c' : Crate} (h : c.Rel R B c') :
    List.Forall₂ R c.types c'.types := by
  refine List.rel_filterMap (fun _ _ hplace => ?_) h.places
  cases hplace with
  | type h => exact .some h
  | body => exact .none

theorem Crate.Rel.bodies {c c' : Crate} (h : c.Rel R B c') :
    List.Forall₂ B c.bodies c'.bodies := by
  refine List.rel_filterMap (fun _ _ hplace => ?_) h.places
  cases hplace with
  | type => exact .none
  | body h => exact .some h

end Related

/-! ### Crates related to themselves -/

section Self

variable {R : Ty → Ty → Prop}

theorem optionRel_of_toList {α : Type} {P : α → α → Prop} {x : Option α}
    (h : ∀ a ∈ x.toList, P a a) : Option.Rel P x x := by
  cases x with
  | none => exact .none
  | some a => exact .some (h a (by simp))

theorem forall₂_of_flatMap {α β : Type} {P : α → α → Prop} {Q : β → Prop}
    {f : α → List β} (hf : ∀ a, (∀ b ∈ f a, Q b) → P a a) {as : List α}
    (h : ∀ b ∈ as.flatMap f, Q b) : List.Forall₂ P as as := by
  apply List.forall₂_same.2
  intro a ha
  exact hf a fun b hb => h b (List.mem_flatMap_of_mem ha hb)

theorem Table.rel_of_values {α : Type} {P : α → α → Prop} {t : Table α}
    (h : ∀ a ∈ t.values, P a a) : t.Rel P t := by
  obtain ⟨entries⟩ := t
  induction entries with
  | nil => exact .nil
  | cons entry entries ih =>
      obtain ⟨hvalue, hvalues⟩ := List.forall_mem_cons.1 h
      exact .cons hvalue (ih hvalues)

theorem TypeParam.rel_of_parts {p : TypeParam} (h : ∀ t ∈ p.parts, R t t) :
    p.Rel R p :=
  ⟨rfl, optionRel_of_toList h⟩

theorem Bound.rel_of_parts {p : Bound} (h : ∀ t ∈ p.parts, R t t) : p.Rel R p := by
  cases p with
  | implements type trait =>
      obtain ⟨htype, htrait⟩ := List.forall_mem_cons.1 h
      exact .implements htype (ItemRef.rel_of_parts htrait)
  | equal type other =>
      exact .equal (h type (by simp [Bound.parts])) (h other (by simp [Bound.parts]))

theorem Generics.rel_of_parts {g : Generics} (h : ∀ t ∈ g.parts, R t t) :
    g.Rel R g := by
  obtain ⟨htypes, hrest⟩ := List.forall_mem_append.1 h
  obtain ⟨hconsts, hbounds⟩ := List.forall_mem_append.1 hrest
  exact ⟨forall₂_of_flatMap (fun _ => TypeParam.rel_of_parts) htypes,
    TypedName.forall₂_of_types hconsts,
    forall₂_of_flatMap (fun _ => Bound.rel_of_parts) hbounds⟩

theorem Struct.rel_of_parts {s : Struct} (h : ∀ t ∈ s.parts, R t t) : s.Rel R s := by
  obtain ⟨hgenerics, hfields⟩ := List.forall_mem_append.1 h
  exact ⟨Generics.rel_of_parts hgenerics, TypedName.forall₂_of_types hfields⟩

theorem Variant.rel_of_fields {a : Variant} (h : ∀ t ∈ a.fields, R t t) :
    a.Rel R a :=
  ⟨rfl, List.forall₂_same.2 h⟩

theorem Enum.rel_of_parts {e : Enum} (h : ∀ t ∈ e.parts, R t t) : e.Rel R e := by
  obtain ⟨hgenerics, hvariants⟩ := List.forall_mem_append.1 h
  exact ⟨Generics.rel_of_parts hgenerics,
    forall₂_of_flatMap (fun _ => Variant.rel_of_fields) hvariants⟩

theorem TypeAlias.rel_of_parts {a : TypeAlias} (h : ∀ t ∈ a.parts, R t t) :
    a.Rel R a := by
  obtain ⟨hgenerics, htype⟩ := List.forall_mem_append.1 h
  exact ⟨Generics.rel_of_parts hgenerics, htype a.type (by simp)⟩

theorem AssocType.rel_of_parts {a : AssocType} (h : ∀ t ∈ a.parts, R t t) :
    a.Rel R a := by
  obtain ⟨hbounds, hdefault⟩ := List.forall_mem_append.1 h
  exact ⟨ItemRef.forall₂_of_parts hbounds, optionRel_of_toList hdefault⟩

variable {B : Body → Body → Prop}

/-- The place is related to itself. -/
abbrev Place.Fixed (R : Ty → Ty → Prop) (B : Body → Body → Prop) (p : Place) : Prop :=
  p.Rel R B p

theorem Place.types_of_fixed {ts : List Ty}
    (h : ∀ p ∈ ts.map Place.type, p.Fixed R B) : ∀ t ∈ ts, R t t := by
  intro t ht
  have hplace : (Place.type t).Fixed R B := h _ (List.mem_map_of_mem ht)
  cases hplace with
  | type h => exact h

theorem Place.body?_of_fixed {b? : Option Body}
    (h : ∀ p ∈ b?.toList.map Place.body, p.Fixed R B) : Option.Rel B b? b? := by
  apply optionRel_of_toList
  intro b hb
  have hplace : (Place.body b).Fixed R B := h _ (List.mem_map_of_mem hb)
  cases hplace with
  | body h => exact h

theorem Function.rel_of_places {f : Function}
    (h : ∀ p ∈ f.places, p.Fixed R B) : f.Rel R B f := by
  obtain ⟨hparts, hbody⟩ := List.forall_mem_append.1 h
  obtain ⟨hgenerics, hrest⟩ := List.forall_mem_append.1 (Place.types_of_fixed hparts)
  obtain ⟨hargs, hresult⟩ := List.forall_mem_append.1 hrest
  exact ⟨Generics.rel_of_parts hgenerics, TypedName.forall₂_of_types hargs,
    hresult f.result (by simp), Place.body?_of_fixed hbody⟩

theorem Function.table_rel_of_places {methods : Table Function}
    (h : ∀ p ∈ methods.values.flatMap Function.places, p.Fixed R B) :
    methods.Rel (Function.Rel R B) methods := by
  apply Table.rel_of_values
  intro method hmethod
  exact Function.rel_of_places fun p hp => h p (List.mem_flatMap_of_mem hmethod hp)

theorem Static.rel_of_places {s : Static} (h : ∀ p ∈ s.places, p.Fixed R B) :
    s.Rel R B s := by
  obtain ⟨⟨htype⟩, hbody⟩ := List.forall_mem_cons.1 h
  exact ⟨htype, Place.body?_of_fixed hbody⟩

theorem Trait.rel_of_places {t : Trait} (h : ∀ p ∈ t.places, p.Fixed R B) :
    t.Rel R B t := by
  obtain ⟨hparts, hmethods⟩ := List.forall_mem_append.1 h
  obtain ⟨hgenerics, htypes⟩ := List.forall_mem_append.1 (Place.types_of_fixed hparts)
  refine ⟨Generics.rel_of_parts hgenerics, Table.rel_of_values fun a ha => ?_,
    Function.table_rel_of_places hmethods⟩
  exact AssocType.rel_of_parts fun u hu => htypes u (List.mem_flatMap_of_mem ha hu)

theorem InherentImpl.rel_of_places {block : InherentImpl}
    (h : ∀ p ∈ block.places, p.Fixed R B) : block.Rel R B block := by
  obtain ⟨hparts, hmethods⟩ := List.forall_mem_append.1 h
  obtain ⟨hgenerics, hself⟩ := List.forall_mem_append.1 (Place.types_of_fixed hparts)
  exact ⟨Generics.rel_of_parts hgenerics, hself block.self (by simp),
    Function.table_rel_of_places hmethods⟩

theorem TraitImpl.rel_of_places {block : TraitImpl}
    (h : ∀ p ∈ block.places, p.Fixed R B) : block.Rel R B block := by
  obtain ⟨hparts, hmethods⟩ := List.forall_mem_append.1 h
  obtain ⟨hgenerics, hrest⟩ := List.forall_mem_append.1 (Place.types_of_fixed hparts)
  obtain ⟨htrait, hrest⟩ := List.forall_mem_append.1 hrest
  obtain ⟨hself, htypes⟩ := List.forall_mem_cons.1 hrest
  exact ⟨Generics.rel_of_parts hgenerics, ItemRef.rel_of_parts htrait, hself,
    Table.rel_of_values htypes, Function.table_rel_of_places hmethods⟩

mutual

theorem Item.rel_of_places : ∀ {item : Item}, (∀ p ∈ item.places, p.Fixed R B) →
    item.Rel R B item
  | .module ⟨_⟩, h => .module (Item.entries_rel_of_places h)
  | .function _, h => .function (Function.rel_of_places h)
  | .struct _, h => .struct (Struct.rel_of_parts (Place.types_of_fixed h))
  | .enum _, h => .enum (Enum.rel_of_parts (Place.types_of_fixed h))
  | .typeAlias _, h => .typeAlias (TypeAlias.rel_of_parts (Place.types_of_fixed h))
  | .static _, h => .static (Static.rel_of_places h)
  | .trait _, h => .trait (Trait.rel_of_places h)

theorem Item.entries_rel_of_places : ∀ {entries : List (String × Item)},
    (∀ p ∈ Item.placesOf entries, p.Fixed R B) →
    Table.Rel (Item.Rel R B) ⟨entries⟩ ⟨entries⟩
  | [], _ => .nil
  | (_, _) :: _, h =>
      have hboth := List.forall_mem_append.1 h
      .cons (Item.rel_of_places hboth.1) (Item.entries_rel_of_places hboth.2)

end

/-- A crate is related to itself if every type in its signatures and every body is. -/
theorem Crate.rel_of_places {c : Crate} (htypes : ∀ t ∈ c.types, R t t)
    (hbodies : ∀ b ∈ c.bodies, B b b) : c.Rel R B c := by
  have h : ∀ p ∈ c.places, p.Fixed R B := by
    rintro (t | b) hplace
    · exact .type (htypes t (mem_types.2 hplace))
    · exact .body (hbodies b (mem_bodies.2 hplace))
  obtain ⟨hitems, hrest⟩ := List.forall_mem_append.1 h
  obtain ⟨himpls, htraitImpls⟩ := List.forall_mem_append.1 hrest
  exact ⟨rfl, Item.entries_rel_of_places hitems,
    forall₂_of_flatMap (fun _ => InherentImpl.rel_of_places) himpls,
    forall₂_of_flatMap (fun _ => TraitImpl.rel_of_places) htraitImpls⟩

end Self

end Unerase
