import Mathlib.Tactic.MkIffOfInductiveProp
import Unerase.Crate
import Unerase.Proofs.Relation.Body

namespace Unerase

/-- The same parameter with a related default, or without one in both. -/
@[mk_iff]
structure TypeParam.Rel (R : Ty → Ty → Prop) (p q : TypeParam) : Prop where
  name : p.name = q.name
  default? : Option.Rel R p.default? q.default?

/-- Conditions of the same kind on related types. -/
@[mk_iff]
inductive Bound.Rel (R : Ty → Ty → Prop) : Bound → Bound → Prop
  | implements {type type' : Ty} {trait trait' : ItemRef} :
      R type type' → trait.Rel R trait' →
      Bound.Rel R (.implements type trait) (.implements type' trait')
  | equal {type type' other other' : Ty} :
      R type type' → R other other' →
      Bound.Rel R (.equal type other) (.equal type' other')

/-- The same parameters and conditions, one by one, with related types. -/
@[mk_iff]
structure Generics.Rel (R : Ty → Ty → Prop) (g g' : Generics) : Prop where
  types : List.Forall₂ (TypeParam.Rel R) g.types g'.types
  consts : List.Forall₂ (TypedName.Rel R) g.consts g'.consts
  bounds : List.Forall₂ (Bound.Rel R) g.bounds g'.bounds

/-- Tables with the same names in the same order and related values. -/
inductive Table.Rel {α β : Type} (P : α → β → Prop) : Table α → Table β → Prop
  | nil : Table.Rel P ⟨[]⟩ ⟨[]⟩
  | cons {name : String} {a : α} {b : β} {as : List (String × α)}
      {bs : List (String × β)} :
      P a b → Table.Rel P ⟨as⟩ ⟨bs⟩ →
      Table.Rel P ⟨(name, a) :: as⟩ ⟨(name, b) :: bs⟩

/-- Records with the same field names in the same order. -/
@[mk_iff]
structure Struct.Rel (R : Ty → Ty → Prop) (s s' : Struct) : Prop where
  generics : s.generics.Rel R s'.generics
  fields : List.Forall₂ (TypedName.Rel R) s.fields s'.fields

@[mk_iff]
structure Variant.Rel (R : Ty → Ty → Prop) (a b : Variant) : Prop where
  name : a.name = b.name
  fields : List.Forall₂ R a.fields b.fields

/-- Enums with the same variants in the same order. -/
@[mk_iff]
structure Enum.Rel (R : Ty → Ty → Prop) (e e' : Enum) : Prop where
  generics : e.generics.Rel R e'.generics
  variants : List.Forall₂ (Variant.Rel R) e.variants e'.variants

@[mk_iff]
structure TypeAlias.Rel (R : Ty → Ty → Prop) (a b : TypeAlias) : Prop where
  generics : a.generics.Rel R b.generics
  type : R a.type b.type

@[mk_iff]
structure AssocType.Rel (R : Ty → Ty → Prop) (a b : AssocType) : Prop where
  bounds : List.Forall₂ (ItemRef.Rel R) a.bounds b.bounds
  default? : Option.Rel R a.default? b.default?

section Bodies

variable (R : Ty → Ty → Prop) (B : Body → Body → Prop)

/-- Functions with related types in their signatures and related bodies. -/
@[mk_iff]
structure Function.Rel (f g : Function) : Prop where
  generics : f.generics.Rel R g.generics
  args : List.Forall₂ (TypedName.Rel R) f.args g.args
  result : R f.result g.result
  body? : Option.Rel B f.body? g.body?

@[mk_iff]
structure Static.Rel (s s' : Static) : Prop where
  type : R s.type s'.type
  body? : Option.Rel B s.body? s'.body?

/-- Traits with the same names for types and methods, in the same order. -/
@[mk_iff]
structure Trait.Rel (t t' : Trait) : Prop where
  generics : t.generics.Rel R t'.generics
  types : t.types.Rel (AssocType.Rel R) t'.types
  methods : t.methods.Rel (Function.Rel R B) t'.methods

/-- Blocks with related self types and the same methods in the same order. -/
@[mk_iff]
structure InherentImpl.Rel (a b : InherentImpl) : Prop where
  generics : a.generics.Rel R b.generics
  self : R a.self b.self
  methods : a.methods.Rel (Function.Rel R B) b.methods

@[mk_iff]
structure TraitImpl.Rel (a b : TraitImpl) : Prop where
  generics : a.generics.Rel R b.generics
  trait : a.trait.Rel R b.trait
  self : R a.self b.self
  types : a.types.Rel R b.types
  methods : a.methods.Rel (Function.Rel R B) b.methods

/-- Items of the same kind. Modules have related items under the same names, in the same
order. -/
inductive Item.Rel : Item → Item → Prop
  | module {items items' : Items} :
      items.Rel Item.Rel items' → Item.Rel (.module items) (.module items')
  | function {f f' : Function} :
      f.Rel R B f' → Item.Rel (.function f) (.function f')
  | struct {s s' : Struct} : s.Rel R s' → Item.Rel (.struct s) (.struct s')
  | enum {e e' : Enum} : e.Rel R e' → Item.Rel (.enum e) (.enum e')
  | typeAlias {a a' : TypeAlias} :
      a.Rel R a' → Item.Rel (.typeAlias a) (.typeAlias a')
  | static {s s' : Static} : s.Rel R B s' → Item.Rel (.static s) (.static s')
  | trait {t t' : Trait} : t.Rel R B t' → Item.Rel (.trait t) (.trait t')

/-- The second crate is the first one with other types and bodies. Each type in a
signature is related to the one in its place by `R`, and each body by `B`. -/
@[mk_iff]
structure Crate.Rel (c c' : Crate) : Prop where
  name : c.name = c'.name
  items : c.items.Rel (Item.Rel R B) c'.items
  inherentImpls :
    List.Forall₂ (InherentImpl.Rel R B) c.inherentImpls c'.inherentImpls
  traitImpls : List.Forall₂ (TraitImpl.Rel R B) c.traitImpls c'.traitImpls

end Bodies

/-! ### Equality -/

@[simp] theorem TypeParam.rel_eq : TypeParam.Rel Eq = Eq := by
  funext p q
  cases p
  cases q
  simp [TypeParam.rel_iff]

@[simp] theorem Bound.rel_eq : Bound.Rel Eq = Eq := by
  funext p q
  cases p <;> cases q <;> simp [Bound.rel_iff]

@[simp] theorem Generics.rel_eq : Generics.Rel Eq = Eq := by
  funext g g'
  cases g
  cases g'
  simp [Generics.rel_iff]

@[simp] theorem Table.rel_eq {α : Type} : Table.Rel (Eq : α → α → Prop) = Eq := by
  funext a b
  refine propext ⟨fun h => ?_, ?_⟩
  · induction h with
    | nil => rfl
    | cons hab _ ih =>
        cases ih
        rw [hab]
  · rintro rfl
    obtain ⟨entries⟩ := a
    induction entries with
    | nil => exact .nil
    | cons entry entries ih => exact .cons rfl ih

@[simp] theorem Struct.rel_eq : Struct.Rel Eq = Eq := by
  funext s s'
  cases s
  cases s'
  simp [Struct.rel_iff]

@[simp] theorem Variant.rel_eq : Variant.Rel Eq = Eq := by
  funext a b
  cases a
  cases b
  simp [Variant.rel_iff]

@[simp] theorem Enum.rel_eq : Enum.Rel Eq = Eq := by
  funext e e'
  cases e
  cases e'
  simp [Enum.rel_iff]

@[simp] theorem TypeAlias.rel_eq : TypeAlias.Rel Eq = Eq := by
  funext a b
  cases a
  cases b
  simp [TypeAlias.rel_iff]

@[simp] theorem AssocType.rel_eq : AssocType.Rel Eq = Eq := by
  funext a b
  cases a
  cases b
  simp [AssocType.rel_iff]

@[simp] theorem Function.rel_eq : Function.Rel Eq Eq = Eq := by
  funext f g
  cases f
  cases g
  simp [Function.rel_iff]

@[simp] theorem Static.rel_eq : Static.Rel Eq Eq = Eq := by
  funext s s'
  cases s
  cases s'
  simp [Static.rel_iff]

@[simp] theorem Trait.rel_eq : Trait.Rel Eq Eq = Eq := by
  funext t t'
  cases t
  cases t'
  simp [Trait.rel_iff]

@[simp] theorem InherentImpl.rel_eq : InherentImpl.Rel Eq Eq = Eq := by
  funext a b
  cases a
  cases b
  simp [InherentImpl.rel_iff]

@[simp] theorem TraitImpl.rel_eq : TraitImpl.Rel Eq Eq = Eq := by
  funext a b
  cases a
  cases b
  simp [TraitImpl.rel_iff]

mutual

theorem Item.Rel.eq : ∀ {item item' : Item}, item.Rel Eq Eq item' → item = item'
  | .module ⟨_⟩, _, .module h => congrArg Item.module (Item.Rel.entries_eq h)
  | .function _, _, .function h => by rw [Function.rel_eq] at h; rw [h]
  | .struct _, _, .struct h => by rw [Struct.rel_eq] at h; rw [h]
  | .enum _, _, .enum h => by rw [Enum.rel_eq] at h; rw [h]
  | .typeAlias _, _, .typeAlias h => by rw [TypeAlias.rel_eq] at h; rw [h]
  | .static _, _, .static h => by rw [Static.rel_eq] at h; rw [h]
  | .trait _, _, .trait h => by rw [Trait.rel_eq] at h; rw [h]

theorem Item.Rel.entries_eq : ∀ {entries : List (String × Item)} {items : Items},
    Table.Rel (Item.Rel Eq Eq) ⟨entries⟩ items → ⟨entries⟩ = items
  | [], _, .nil => rfl
  | (_, _) :: _, _, .cons hitem h => by
      cases Item.Rel.entries_eq h
      rw [hitem.eq]

end

mutual

theorem Item.rel_refl : ∀ item : Item, item.Rel Eq Eq item
  | .module ⟨entries⟩ => .module (Item.entries_rel_refl entries)
  | .function _ => .function (by rw [Function.rel_eq])
  | .struct _ => .struct (by rw [Struct.rel_eq])
  | .enum _ => .enum (by rw [Enum.rel_eq])
  | .typeAlias _ => .typeAlias (by rw [TypeAlias.rel_eq])
  | .static _ => .static (by rw [Static.rel_eq])
  | .trait _ => .trait (by rw [Trait.rel_eq])

theorem Item.entries_rel_refl : ∀ entries : List (String × Item),
    Table.Rel (Item.Rel Eq Eq) ⟨entries⟩ ⟨entries⟩
  | [] => .nil
  | (_, item) :: entries => .cons item.rel_refl (Item.entries_rel_refl entries)

end

@[simp] theorem Item.rel_eq : Item.Rel Eq Eq = Eq := by
  funext item item'
  exact propext ⟨Item.Rel.eq, fun h => h ▸ item.rel_refl⟩

@[simp] theorem Crate.rel_eq : Crate.Rel Eq Eq = Eq := by
  funext c c'
  cases c
  cases c'
  simp [Crate.rel_iff]

section Mono

variable {R S : Ty → Ty → Prop} {B D : Body → Body → Prop}

theorem Table.Rel.mono {α β : Type} {P Q : α → β → Prop}
    (h : ∀ a b, P a b → Q a b) {a : Table α} {b : Table β} (hab : a.Rel P b) :
    a.Rel Q b := by
  induction hab with
  | nil => exact .nil
  | cons hab _ ih => exact .cons (h _ _ hab) ih

variable (hR : ∀ t u, R t u → S t u)

include hR

theorem Generics.Rel.mono {g g' : Generics} (hg : g.Rel R g') : g.Rel S g' where
  types := hg.types.imp fun _ _ p => ⟨p.name, optionRel_mono hR p.default?⟩
  consts := hg.consts.imp fun _ _ const => const.mono hR
  bounds := hg.bounds.imp fun
    | _, _, .implements type trait => .implements (hR _ _ type) (trait.mono hR)
    | _, _, .equal type other => .equal (hR _ _ type) (hR _ _ other)

theorem AssocType.Rel.mono {a b : AssocType} (hab : a.Rel R b) : a.Rel S b where
  bounds := hab.bounds.imp fun _ _ bound => bound.mono hR
  default? := optionRel_mono hR hab.default?

variable (hB : ∀ b d, B b d → D b d)

include hB

theorem Function.Rel.mono {f g : Function} (hfg : f.Rel R B g) : f.Rel S D g where
  generics := hfg.generics.mono hR
  args := hfg.args.imp fun _ _ arg => arg.mono hR
  result := hR _ _ hfg.result
  body? := optionRel_mono hB hfg.body?

theorem Function.methods_mono {methods methods' : Table Function}
    (h : methods.Rel (Function.Rel R B) methods') :
    methods.Rel (Function.Rel S D) methods' :=
  h.mono fun _ _ method => method.mono hR hB

end Mono

section MonoItem

variable {R S : Ty → Ty → Prop} {B D : Body → Body → Prop}

mutual

theorem Item.Rel.mono (hR : ∀ t u, R t u → S t u) (hB : ∀ b d, B b d → D b d) :
    ∀ {item item' : Item}, item.Rel R B item' → item.Rel S D item'
  | .module ⟨_⟩, _, .module h => .module (Item.Rel.entries_mono hR hB h)
  | .function _, _, .function h => .function (h.mono hR hB)
  | .struct _, _, .struct h =>
      .struct ⟨h.generics.mono hR, h.fields.imp fun _ _ field => field.mono hR⟩
  | .enum _, _, .enum h =>
      .enum ⟨h.generics.mono hR, h.variants.imp fun _ _ variant =>
        ⟨variant.name, variant.fields.imp hR⟩⟩
  | .typeAlias _, _, .typeAlias h =>
      .typeAlias ⟨h.generics.mono hR, hR _ _ h.type⟩
  | .static _, _, .static h =>
      .static ⟨hR _ _ h.type, optionRel_mono hB h.body?⟩
  | .trait _, _, .trait h =>
      .trait ⟨h.generics.mono hR, h.types.mono fun _ _ type => type.mono hR,
        Function.methods_mono hR hB h.methods⟩

theorem Item.Rel.entries_mono (hR : ∀ t u, R t u → S t u)
    (hB : ∀ b d, B b d → D b d) :
    ∀ {entries : List (String × Item)} {items : Items},
      Table.Rel (Item.Rel R B) ⟨entries⟩ items →
      Table.Rel (Item.Rel S D) ⟨entries⟩ items
  | [], _, .nil => .nil
  | (_, _) :: _, _, .cons hitem h =>
      .cons (hitem.mono hR hB) (Item.Rel.entries_mono hR hB h)

end

variable (hR : ∀ t u, R t u → S t u) (hB : ∀ b d, B b d → D b d)

include hR hB

theorem InherentImpl.Rel.mono {a b : InherentImpl} (hab : a.Rel R B b) :
    a.Rel S D b where
  generics := hab.generics.mono hR
  self := hR _ _ hab.self
  methods := Function.methods_mono hR hB hab.methods

theorem TraitImpl.Rel.mono {a b : TraitImpl} (hab : a.Rel R B b) : a.Rel S D b where
  generics := hab.generics.mono hR
  trait := hab.trait.mono hR
  self := hR _ _ hab.self
  types := hab.types.mono hR
  methods := Function.methods_mono hR hB hab.methods

theorem Crate.Rel.mono {c c' : Crate} (h : c.Rel R B c') : c.Rel S D c' where
  name := h.name
  items := h.items.mono fun _ _ item => item.mono hR hB
  inherentImpls := h.inherentImpls.imp fun _ _ block => block.mono hR hB
  traitImpls := h.traitImpls.imp fun _ _ block => block.mono hR hB

end MonoItem

/-! ### What is related to the same -/

section Unique

variable {R S : Ty → Ty → Prop} {B D : Body → Body → Prop}

theorem Table.Rel.unique {α β : Type} {P Q : α → β → Prop} {a : Table α}
    {b c : Table β} (hb : a.Rel P b) (hc : a.Rel Q c)
    (h : ∀ x y z, P x y → Q x z → y = z) : b = c := by
  induction hb generalizing c with
  | nil =>
      cases hc
      rfl
  | cons hp _ ih =>
      rcases hc with - | ⟨hq, hc⟩
      cases ih hc
      rw [h _ _ _ hp hq]

variable (h : ∀ t u v, R t u → S t v → u = v)

include h

theorem TypeParam.Rel.unique {p q q' : TypeParam} (hq : p.Rel R q) (hq' : p.Rel S q') :
    q = q' := by
  have hname : q.name = q'.name := hq.name.symm.trans hq'.name
  have hdefault : q.default? = q'.default? :=
    optionRel_unique hq.default? hq'.default? h
  cases q
  congr

theorem Bound.Rel.unique {p q q' : Bound} (hq : p.Rel R q) (hq' : p.Rel S q') :
    q = q' := by
  cases hq with
  | implements type trait =>
      cases hq' with
      | implements type' trait' => rw [h _ _ _ type type', trait.unique h trait']
  | equal type other =>
      cases hq' with
      | equal type' other' => rw [h _ _ _ type type', h _ _ _ other other']

theorem Generics.Rel.unique {g g₁ g₂ : Generics} (h₁ : g.Rel R g₁) (h₂ : g.Rel S g₂) :
    g₁ = g₂ := by
  have htypes : g₁.types = g₂.types :=
    forall₂_unique h₁.types h₂.types fun _ _ _ p q => p.unique h q
  have hconsts : g₁.consts = g₂.consts :=
    forall₂_unique h₁.consts h₂.consts fun _ _ _ p q => p.unique h q
  have hbounds : g₁.bounds = g₂.bounds :=
    forall₂_unique h₁.bounds h₂.bounds fun _ _ _ p q => p.unique h q
  cases g₁
  congr

theorem Struct.Rel.unique {s s₁ s₂ : Struct} (h₁ : s.Rel R s₁) (h₂ : s.Rel S s₂) :
    s₁ = s₂ := by
  have hgenerics : s₁.generics = s₂.generics := h₁.generics.unique h h₂.generics
  have hfields : s₁.fields = s₂.fields :=
    forall₂_unique h₁.fields h₂.fields fun _ _ _ p q => p.unique h q
  cases s₁
  congr

theorem Variant.Rel.unique {a b c : Variant} (hb : a.Rel R b) (hc : a.Rel S c) :
    b = c := by
  have hname : b.name = c.name := hb.name.symm.trans hc.name
  have hfields : b.fields = c.fields := forall₂_unique hb.fields hc.fields h
  cases b
  congr

theorem Enum.Rel.unique {e e₁ e₂ : Enum} (h₁ : e.Rel R e₁) (h₂ : e.Rel S e₂) :
    e₁ = e₂ := by
  have hgenerics : e₁.generics = e₂.generics := h₁.generics.unique h h₂.generics
  have hvariants : e₁.variants = e₂.variants :=
    forall₂_unique h₁.variants h₂.variants fun _ _ _ p q => p.unique h q
  cases e₁
  congr

theorem TypeAlias.Rel.unique {a b c : TypeAlias} (hb : a.Rel R b) (hc : a.Rel S c) :
    b = c := by
  have hgenerics : b.generics = c.generics := hb.generics.unique h hc.generics
  have htype : b.type = c.type := h _ _ _ hb.type hc.type
  cases b
  congr

theorem AssocType.Rel.unique {a b c : AssocType} (hb : a.Rel R b) (hc : a.Rel S c) :
    b = c := by
  have hbounds : b.bounds = c.bounds :=
    forall₂_unique hb.bounds hc.bounds fun _ _ _ p q => p.unique h q
  have hdefault : b.default? = c.default? :=
    optionRel_unique hb.default? hc.default? h
  cases b
  congr

variable (hB : ∀ b d d', B b d → D b d' → d = d')

include hB

theorem Function.Rel.unique {f f₁ f₂ : Function} (h₁ : f.Rel R B f₁)
    (h₂ : f.Rel S D f₂) : f₁ = f₂ := by
  have hgenerics : f₁.generics = f₂.generics := h₁.generics.unique h h₂.generics
  have hargs : f₁.args = f₂.args :=
    forall₂_unique h₁.args h₂.args fun _ _ _ p q => p.unique h q
  have hresult : f₁.result = f₂.result := h _ _ _ h₁.result h₂.result
  have hbody : f₁.body? = f₂.body? := optionRel_unique h₁.body? h₂.body? hB
  cases f₁
  congr

theorem Static.Rel.unique {s s₁ s₂ : Static} (h₁ : s.Rel R B s₁) (h₂ : s.Rel S D s₂) :
    s₁ = s₂ := by
  have htype : s₁.type = s₂.type := h _ _ _ h₁.type h₂.type
  have hbody : s₁.body? = s₂.body? := optionRel_unique h₁.body? h₂.body? hB
  cases s₁
  congr

theorem Trait.Rel.unique {t t₁ t₂ : Trait} (h₁ : t.Rel R B t₁) (h₂ : t.Rel S D t₂) :
    t₁ = t₂ := by
  have hgenerics : t₁.generics = t₂.generics := h₁.generics.unique h h₂.generics
  have htypes : t₁.types = t₂.types :=
    h₁.types.unique h₂.types fun _ _ _ p q => p.unique h q
  have hmethods : t₁.methods = t₂.methods :=
    h₁.methods.unique h₂.methods fun _ _ _ p q => p.unique h hB q
  cases t₁
  congr

theorem InherentImpl.Rel.unique {a b₁ b₂ : InherentImpl} (h₁ : a.Rel R B b₁)
    (h₂ : a.Rel S D b₂) : b₁ = b₂ := by
  have hgenerics : b₁.generics = b₂.generics := h₁.generics.unique h h₂.generics
  have hself : b₁.self = b₂.self := h _ _ _ h₁.self h₂.self
  have hmethods : b₁.methods = b₂.methods :=
    h₁.methods.unique h₂.methods fun _ _ _ p q => p.unique h hB q
  cases b₁
  congr

theorem TraitImpl.Rel.unique {a b₁ b₂ : TraitImpl} (h₁ : a.Rel R B b₁)
    (h₂ : a.Rel S D b₂) : b₁ = b₂ := by
  have hgenerics : b₁.generics = b₂.generics := h₁.generics.unique h h₂.generics
  have htrait : b₁.trait = b₂.trait := h₁.trait.unique h h₂.trait
  have hself : b₁.self = b₂.self := h _ _ _ h₁.self h₂.self
  have htypes : b₁.types = b₂.types := h₁.types.unique h₂.types h
  have hmethods : b₁.methods = b₂.methods :=
    h₁.methods.unique h₂.methods fun _ _ _ p q => p.unique h hB q
  cases b₁
  congr

end Unique

mutual

theorem Item.Rel.unique {R S : Ty → Ty → Prop} {B D : Body → Body → Prop}
    (h : ∀ t u v, R t u → S t v → u = v) (hB : ∀ b d d', B b d → D b d' → d = d') :
    ∀ {item item₁ item₂ : Item}, item.Rel R B item₁ → item.Rel S D item₂ →
      item₁ = item₂
  | .module ⟨_⟩, _, _, .module h₁, .module h₂ =>
      congrArg Item.module (Item.Rel.entries_unique h hB h₁ h₂)
  | .function _, _, _, .function h₁, .function h₂ => by rw [h₁.unique h hB h₂]
  | .struct _, _, _, .struct h₁, .struct h₂ => by rw [h₁.unique h h₂]
  | .enum _, _, _, .enum h₁, .enum h₂ => by rw [h₁.unique h h₂]
  | .typeAlias _, _, _, .typeAlias h₁, .typeAlias h₂ => by rw [h₁.unique h h₂]
  | .static _, _, _, .static h₁, .static h₂ => by rw [h₁.unique h hB h₂]
  | .trait _, _, _, .trait h₁, .trait h₂ => by rw [h₁.unique h hB h₂]

theorem Item.Rel.entries_unique {R S : Ty → Ty → Prop} {B D : Body → Body → Prop}
    (h : ∀ t u v, R t u → S t v → u = v) (hB : ∀ b d d', B b d → D b d' → d = d') :
    ∀ {entries : List (String × Item)} {items₁ items₂ : Items},
      Table.Rel (Item.Rel R B) ⟨entries⟩ items₁ →
      Table.Rel (Item.Rel S D) ⟨entries⟩ items₂ → items₁ = items₂
  | [], _, _, .nil, .nil => rfl
  | (_, _) :: _, _, _, .cons hitem₁ h₁, .cons hitem₂ h₂ => by
      cases Item.Rel.entries_unique h hB h₁ h₂
      rw [hitem₁.unique h hB hitem₂]

end

end Unerase
