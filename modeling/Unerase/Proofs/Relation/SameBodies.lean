import Unerase.Proofs.Comparison
import Unerase.Proofs.Relation.Index
import Unerase.Proofs.Relation.Places

/-!
Crates with the same bodies. The crates have the same items and impl blocks by name and
order, with the same bodies in them, and the headers of inherent impl blocks are the same.
All other signatures may differ. In such crates every template key stands for the same type
(`Crate.SameBodies.unfold`). If their bodies are changed in one and the same way, and the
headers too, they are such crates afterwards (`Crate.SameBodies.related`).
-/

namespace Unerase

/-- The functions have the same body, whatever their signatures are. -/
def Function.SameBody (f g : Function) : Prop :=
  f.body? = g.body?

/-- The methods are the same but for their signatures. -/
abbrev Function.SameBodies (methods methods' : Table Function) : Prop :=
  methods.Rel Function.SameBody methods'

/-- The blocks have the same header, and the same methods but for their signatures. -/
structure InherentImpl.SameBodies (a b : InherentImpl) : Prop where
  generics : a.generics = b.generics
  self : a.self = b.self
  methods : Function.SameBodies a.methods b.methods

/-- Items of the same kind with the same bodies. -/
inductive Item.SameBodies : Item → Item → Prop
  | module {items items' : Items} :
      items.Rel Item.SameBodies items' → Item.SameBodies (.module items) (.module items')
  | function {f f' : Function} :
      f.SameBody f' → Item.SameBodies (.function f) (.function f')
  | struct (s s' : Struct) : Item.SameBodies (.struct s) (.struct s')
  | enum (e e' : Enum) : Item.SameBodies (.enum e) (.enum e')
  | typeAlias (a a' : TypeAlias) : Item.SameBodies (.typeAlias a) (.typeAlias a')
  | static {s s' : Static} :
      s.body? = s'.body? → Item.SameBodies (.static s) (.static s')
  | trait {t t' : Trait} :
      Function.SameBodies t.methods t'.methods → Item.SameBodies (.trait t) (.trait t')

/-- The crates differ in signatures only, and not in the headers of inherent impl blocks. -/
structure Crate.SameBodies (c d : Crate) : Prop where
  name : c.name = d.name
  items : c.items.Rel Item.SameBodies d.items
  inherentImpls :
    List.Forall₂ InherentImpl.SameBodies c.inherentImpls d.inherentImpls
  traitImpls : List.Forall₂ (fun a b => Function.SameBodies a.methods b.methods)
    c.traitImpls d.traitImpls

/-! ### The same changes -/

theorem Table.Rel.related {α β γ δ : Type} {P : α → β → Prop} {Q : α → γ → Prop}
    {Q' : β → δ → Prop} {S : γ → δ → Prop}
    (h : ∀ x y z w, P x y → Q x z → Q' y w → S z w) {a : Table α} {b : Table β}
    {c : Table γ} {d : Table δ} (hab : a.Rel P b) (hc : a.Rel Q c) (hd : b.Rel Q' d) :
    c.Rel S d := by
  induction hab generalizing c d with
  | nil =>
      cases hc
      cases hd
      exact .nil
  | cons hp _ ih =>
      rcases hc with - | ⟨hq, hc⟩
      rcases hd with - | ⟨hq', hd⟩
      exact .cons (h _ _ _ _ hp hq hq') (ih hc hd)

section Related

variable {R S : Ty → Ty → Prop} {B D : Body → Body → Prop}
  (hB : ∀ b b' b'', B b b' → D b b'' → b' = b'')

include hB

theorem Body.same_of_related {b? d? b'? d'? : Option Body} (h : b? = d?)
    (hb : Option.Rel B b? b'?) (hd : Option.Rel D d? d'?) : b'? = d'? := by
  subst h
  exact optionRel_unique hb hd hB

theorem Function.SameBodies.related {a b a' b' : Table Function}
    (h : Function.SameBodies a b) (ha : a.Rel (Function.Rel R B) a')
    (hb : b.Rel (Function.Rel S D) b') : Function.SameBodies a' b' :=
  Table.Rel.related (fun _ _ _ _ hfg hf hg => Body.same_of_related hB hfg hf.body? hg.body?)
    h ha hb

end Related

mutual

theorem Item.SameBodies.related {R S : Ty → Ty → Prop} {B D : Body → Body → Prop}
    (hB : ∀ b b' b'', B b b' → D b b'' → b' = b'') : ∀ {a b a' b' : Item},
    a.SameBodies b → a.Rel R B a' → b.Rel S D b' → a'.SameBodies b'
  | .module ⟨_⟩, .module ⟨_⟩, .module ⟨_⟩, .module ⟨_⟩, .module h, .module ha,
      .module hb => .module (Item.SameBodies.entries_related hB h ha hb)
  | _, _, _, _, .function h, .function hf, .function hg =>
      .function (Body.same_of_related hB h hf.body? hg.body?)
  | _, _, _, _, .struct _ _, .struct _, .struct _ => .struct _ _
  | _, _, _, _, .enum _ _, .enum _, .enum _ => .enum _ _
  | _, _, _, _, .typeAlias _ _, .typeAlias _, .typeAlias _ => .typeAlias _ _
  | _, _, _, _, .static h, .static hs, .static hs' =>
      .static (Body.same_of_related hB h hs.body? hs'.body?)
  | _, _, _, _, .trait h, .trait ht, .trait ht' =>
      .trait (Function.SameBodies.related hB h ht.methods ht'.methods)

theorem Item.SameBodies.entries_related {R S : Ty → Ty → Prop} {B D : Body → Body → Prop}
    (hB : ∀ b b' b'', B b b' → D b b'' → b' = b'') :
    ∀ {a b a' b' : List (String × Item)}, Table.Rel Item.SameBodies ⟨a⟩ ⟨b⟩ →
      Table.Rel (Item.Rel R B) ⟨a⟩ ⟨a'⟩ → Table.Rel (Item.Rel S D) ⟨b⟩ ⟨b'⟩ →
      Table.Rel Item.SameBodies ⟨a'⟩ ⟨b'⟩
  | [], [], [], [], .nil, .nil, .nil => .nil
  | (_, _) :: _, (_, _) :: _, (_, _) :: _, (_, _) :: _, .cons hitem h, .cons ha has,
      .cons hb hbs =>
      .cons (hitem.related hB ha hb) (Item.SameBodies.entries_related hB h has hbs)

end

/-- If bodies are changed in one way, and the types in the headers of impl blocks too, the
bodies are the same afterwards. -/
theorem Crate.SameBodies.related {R S : Ty → Ty → Prop} {B D : Body → Body → Prop}
    (hR : ∀ t u v, R t u → S t v → u = v) (hB : ∀ b b' b'', B b b' → D b b'' → b' = b'')
    {c d c' d' : Crate} (h : c.SameBodies d) (hc : c.Rel R B c') (hd : d.Rel S D d') :
    c'.SameBodies d' := by
  obtain ⟨name, ⟨entries⟩, impls, traitImpls⟩ := c
  obtain ⟨_, ⟨entries'⟩, impls', traitImpls'⟩ := d
  obtain ⟨hname, hitems, himpls, htraitImpls⟩ := h
  refine ⟨hc.name.symm.trans (hname.trans hd.name),
    Item.SameBodies.entries_related hB hitems hc.items hd.items,
    forall₂_related (fun a b a' b' hab ha hb => ⟨?_, ?_, ?_⟩) himpls hc.inherentImpls
      hd.inherentImpls,
    forall₂_related (fun a b a' b' hab ha hb => hab.related hB ha.methods hb.methods)
      htraitImpls hc.traitImpls hd.traitImpls⟩
  · exact ha.generics.unique hR (hab.generics ▸ hb.generics)
  · exact hR _ _ _ ha.self (hab.self ▸ hb.self)
  · exact hab.methods.related hB ha.methods hb.methods

/-! ### The bodies -/

/-- The bodies among the places. -/
def Place.bodiesIn (places : List Place) : List Body :=
  places.filterMap Place.body?

namespace Place

variable {ps qs : List Place}

@[simp] theorem bodiesIn_append : bodiesIn (ps ++ qs) = bodiesIn ps ++ bodiesIn qs :=
  List.filterMap_append

@[simp] theorem bodiesIn_type (t : Ty) : bodiesIn (.type t :: ps) = bodiesIn ps := rfl

@[simp] theorem bodiesIn_types (ts : List Ty) : bodiesIn (ts.map .type) = [] := by
  induction ts with
  | nil => rfl
  | cons t ts ih => simpa using ih

@[simp] theorem bodiesIn_bodies (bs : List Body) : bodiesIn (bs.map .body) = bs := by
  induction bs with
  | nil => rfl
  | cons b bs ih => exact congrArg (b :: ·) ih

theorem bodiesIn_flatMap {α : Type} {P : α → α → Prop} {f : α → List Place}
    (hf : ∀ a b, P a b → bodiesIn (f a) = bodiesIn (f b)) {as bs : List α}
    (h : List.Forall₂ P as bs) : bodiesIn (as.flatMap f) = bodiesIn (bs.flatMap f) := by
  induction h with
  | nil => rfl
  | cons hab _ ih =>
      rw [List.flatMap_cons, List.flatMap_cons, bodiesIn_append, bodiesIn_append,
        hf _ _ hab, ih]

end Place

open Place

theorem Function.SameBody.bodies {f g : Function} (h : f.SameBody g) :
    bodiesIn f.places = bodiesIn g.places := by
  have hbody : f.body? = g.body? := h
  simp only [Function.places, bodiesIn_append, bodiesIn_types, bodiesIn_bodies, hbody]

theorem Function.SameBodies.bodies {a b : Table Function} (h : Function.SameBodies a b) :
    bodiesIn (a.values.flatMap Function.places) =
      bodiesIn (b.values.flatMap Function.places) :=
  bodiesIn_flatMap (fun _ _ hfg => Function.SameBody.bodies hfg) h.values

theorem InherentImpl.SameBodies.bodies {a b : InherentImpl} (h : a.SameBodies b) :
    bodiesIn a.places = bodiesIn b.places := by
  simp only [InherentImpl.places, bodiesIn_append, bodiesIn_types, h.methods.bodies]

theorem TraitImpl.bodies_of_methods {a b : TraitImpl}
    (h : Function.SameBodies a.methods b.methods) :
    bodiesIn a.places = bodiesIn b.places := by
  simp only [TraitImpl.places, bodiesIn_append, bodiesIn_types, h.bodies]

mutual

theorem Item.SameBodies.bodies : ∀ {a b : Item}, a.SameBodies b →
    bodiesIn a.places = bodiesIn b.places
  | .module ⟨_⟩, .module ⟨_⟩, .module h => Item.SameBodies.bodiesOf h
  | _, _, .function h => h.bodies
  | _, _, .struct _ _ => by simp only [Item.places, bodiesIn_types]
  | _, _, .enum _ _ => by simp only [Item.places, bodiesIn_types]
  | _, _, .typeAlias _ _ => by simp only [Item.places, bodiesIn_types]
  | _, _, .static h => by
      simp only [Item.places, Static.places, bodiesIn_type, bodiesIn_bodies, h]
  | _, _, .trait h => by
      simp only [Item.places, Trait.places, bodiesIn_append, bodiesIn_types, h.bodies]

theorem Item.SameBodies.bodiesOf : ∀ {a b : List (String × Item)},
    Table.Rel Item.SameBodies ⟨a⟩ ⟨b⟩ →
    bodiesIn (Item.placesOf a) = bodiesIn (Item.placesOf b)
  | [], [], .nil => rfl
  | (_, _) :: _, (_, _) :: _, .cons hitem h => by
      simp only [Item.placesOf, bodiesIn_append, hitem.bodies,
        Item.SameBodies.bodiesOf h]

end

theorem Crate.SameBodies.bodies {c d : Crate} (h : c.SameBodies d) :
    bodiesIn c.places = bodiesIn d.places := by
  obtain ⟨name, ⟨entries⟩, impls, traitImpls⟩ := c
  obtain ⟨_, ⟨entries'⟩, impls', traitImpls'⟩ := d
  obtain ⟨-, hitems, himpls, htraitImpls⟩ := h
  simp only [Crate.places, bodiesIn_append, Item.SameBodies.bodiesOf hitems,
    bodiesIn_flatMap (fun _ _ block => InherentImpl.SameBodies.bodies block) himpls,
    bodiesIn_flatMap (fun _ _ block => TraitImpl.bodies_of_methods block) htraitImpls]

/-! ### The index -/

/-- The entries have the same templates. -/
def FunctionEntry.SameTemplates (f g : FunctionEntry) : Prop :=
  f.templates = g.templates

/-- The blocks have the same pattern, and methods with the same templates. -/
structure ImplEntry.SameTemplates (a b : ImplEntry) : Prop where
  generics : a.generics = b.generics
  self : a.self = b.self
  methods : a.methods.Rel FunctionEntry.SameTemplates b.methods

theorem Function.SameBody.entry {f g : Function} (h : f.SameBody g) :
    (FunctionEntry.ofFunction f).SameTemplates (.ofFunction g) := by
  show f.templates = g.templates
  rw [Function.templates, Function.templates, h]

mutual

theorem Item.SameBodies.functions (name : ItemName) : ∀ {a b : Item}, a.SameBodies b →
    List.Forall₂ (fun x y => x.1 = y.1 ∧ Function.SameBody x.2 y.2) (a.functions name)
      (b.functions name)
  | .module ⟨_⟩, .module ⟨_⟩, .module h => Item.SameBodies.functionsOf name h
  | _, _, .function h => .cons ⟨rfl, h⟩ .nil
  | _, _, .struct _ _ => .nil
  | _, _, .enum _ _ => .nil
  | _, _, .typeAlias _ _ => .nil
  | _, _, .static _ => .nil
  | _, _, .trait _ => .nil

theorem Item.SameBodies.functionsOf (name : ItemName) : ∀ {a b : List (String × Item)},
    Table.Rel Item.SameBodies ⟨a⟩ ⟨b⟩ →
    List.Forall₂ (fun x y => x.1 = y.1 ∧ Function.SameBody x.2 y.2)
      (Item.functionsOf name a) (Item.functionsOf name b)
  | [], [], .nil => .nil
  | (segment, _) :: _, (_, _) :: _, .cons hitem h =>
      List.rel_append (hitem.functions (name.child segment))
        (Item.SameBodies.functionsOf name h)

end

namespace Crate.SameBodies

variable {c d : Crate} (h : c.SameBodies d)

include h

theorem getFunction? (name : ItemName) :
    Option.Rel FunctionEntry.SameTemplates ((Index.ofCrate c).getFunction? name)
      ((Index.ofCrate d).getFunction? name) := by
  obtain ⟨crate, ⟨entries⟩, impls, traitImpls⟩ := c
  obtain ⟨_, ⟨entries'⟩, impls', traitImpls'⟩ := d
  obtain ⟨rfl, hitems, -, -⟩ := h
  exact lookup_related (List.rel_map (fun _ _ hf => ⟨hf.1, hf.2.entry⟩)
    (Item.SameBodies.functionsOf (.root crate) hitems)) name

theorem impls : List.Forall₂ ImplEntry.SameTemplates (Index.ofCrate c).impls
    (Index.ofCrate d).impls :=
  List.rel_map (fun _ _ block => ⟨block.generics, block.self,
    block.methods.map fun _ _ method => method.entry⟩) h.inherentImpls

theorem findMethod? (receiver : Ty) (name : String) :
    Option.Rel (fun a b => a.1.SameTemplates b.1 ∧ a.2.SameTemplates b.2)
      ((Index.ofCrate c).findMethod? receiver name)
      ((Index.ofCrate d).findMethod? receiver name) :=
  Index.findMethod?_related (fun _ _ hab => by rw [hab.self]) (fun _ _ hab => hab.methods)
    h.impls name

theorem resolve (origin : Path) :
    Run.SameEnd (fun x y => x.1.SameTemplates y.1 ∧ x.2 = y.2)
      ((Index.ofCrate c).resolve origin) ((Index.ofCrate d).resolve origin) := by
  cases origin with
  | item target =>
      obtain ⟨name, args⟩ := target
      have hfunction := h.getFunction? name
      simp only [Index.resolve]
      generalize (Index.ofCrate c).getFunction? name = x at hfunction ⊢
      generalize (Index.ofCrate d).getFunction? name = y at hfunction ⊢
      cases hfunction with
      | none => exact .error _
      | some hfg => exact .ok ⟨hfg, rfl⟩
  | inherent self name args =>
      have hmethod := h.findMethod? self name
      simp only [Index.resolve]
      generalize (Index.ofCrate c).findMethod? self name = x at hmethod ⊢
      generalize (Index.ofCrate d).findMethod? self name = y at hmethod ⊢
      cases hmethod with
      | none => exact .error _
      | @some a b hab =>
          obtain ⟨⟨generics, pattern, methods⟩, f⟩ := a
          obtain ⟨⟨generics', pattern', methods'⟩, g⟩ := b
          obtain ⟨⟨rfl, rfl, -⟩, hfg⟩ := hab
          simp only
          split
          · exact .error _
          · rename_i bound _
            cases bound.toArgs (.inherent self name args) generics with
            | error => exact .error _
            | ok impl => exact .ok ⟨hfg, rfl⟩
  | known => exact .error _
  | unknown => exact .error _

/-- A key stands for the same type in both crates. -/
theorem unfold : (Index.ofCrate c).unfold = (Index.ofCrate d).unfold := by
  funext k
  have hresolve := h.resolve k.origin
  simp only [Index.unfold, Index.template]
  generalize (Index.ofCrate c).resolve k.origin = x at hresolve ⊢
  generalize (Index.ofCrate d).resolve k.origin = y at hresolve ⊢
  cases hresolve with
  | error => rfl
  | @ok a b hab =>
      obtain ⟨⟨generics, templates⟩, s⟩ := a
      obtain ⟨⟨generics', templates'⟩, s'⟩ := b
      obtain ⟨htemplates, rfl⟩ := hab
      cases (show templates = templates' from htemplates)
      rfl

end Crate.SameBodies

end Unerase
