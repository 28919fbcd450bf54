import Unerase.Proofs.Relation.Crate
import Unerase.Proofs.Walk.Body
import Unerase.Visitor.Crate

namespace Unerase

variable {ε σ ε' σ' ι : Type}

section Related

variable {L : Run.Comparison (Fault ε) σ (Fault ε') σ' ι} {v : Visitor ε σ}
  {w : ι → Visitor ε' σ'} {R₀ R : Ty → Ty → Prop} {B₀ B : Body → Body → Prop}
  (hv : v.EntersAll) (hw : ∀ i, (w i).EntersAll)
  (types : ∀ t u, R₀ t u → L.Holds R (t.visit v) fun i => u.visit (w i))
  (bodies : ∀ b d, B₀ b d → L.Holds B (v.body b) fun i => (w i).body d)

include types

theorem Ty.visitOption_related {t? u? : Option Ty} (h : Option.Rel R₀ t? u?) :
    L.Holds (Option.Rel R) (Ty.visitOption v t?)
      fun i => Ty.visitOption (w i) u? := by
  cases h with
  | none => exact L.pure .none
  | some h => exact L.bind (types _ _ h) fun t u htu => L.pure (.some htu)

theorem TypeParam.visit_related {p q : TypeParam} (h : p.Rel R₀ q) :
    L.Holds (TypeParam.Rel R) (p.visit v) fun i => q.visit (w i) :=
  L.bind (Ty.visitOption_related types h.default?) fun _ _ hdefault =>
    L.pure ⟨h.name, hdefault⟩

omit types in
theorem Table.entries_related {α β γ δ : Type} {P : α → β → Prop}
    {Q : γ → δ → Prop} {f : String → α → Run (Fault ε) σ γ}
    {g : ι → String → β → Run (Fault ε') σ' δ}
    (hfg : ∀ name a b, P a b → L.Holds Q (f name a) fun i => g i name b)
    {a : Table α} {b : Table β} (h : a.Rel P b) :
    L.Holds (fun cs ds => Table.Rel Q ⟨cs⟩ ⟨ds⟩)
      (a.entries.mapM fun entry => do
        let y ← f entry.1 entry.2
        pure (entry.1, y))
      (fun i => b.entries.mapM fun entry => do
        let y ← g i entry.1 entry.2
        pure (entry.1, y)) := by
  induction h with
  | nil =>
      simp only [List.mapM_nil]
      exact L.pure .nil
  | cons hab _ ih =>
      simp only [List.mapM_cons, bind_assoc, pure_bind]
      refine L.bind (hfg _ _ _ hab) fun c d hcd => ?_
      exact L.bind ih fun cs ds h => L.pure (.cons hcd h)

include hv hw

theorem Bound.visit_related {p q : Bound} (h : p.Rel R₀ q) :
    L.Holds (Bound.Rel R) (p.visit v) fun i => q.visit (w i) := by
  cases h with
  | implements type trait =>
      refine L.bind (types _ _ type) fun t u htu => ?_
      refine L.bind (ItemRef.visit_related hv hw types trait) fun r s hrs => ?_
      exact L.pure (.implements htu hrs)
  | equal type other =>
      refine L.bind (types _ _ type) fun t u htu => ?_
      exact L.bind (types _ _ other) fun t u htu' => L.pure (.equal htu htu')

theorem Generics.visit_related {g g' : Generics} (h : g.Rel R₀ g') :
    L.Holds (Generics.Rel R) (g.visit v) fun i => g'.visit (w i) := by
  simp only [Generics.visit, hv.within, (hw _).within]
  refine L.bind (L.mapM h.types fun _ _ p => TypeParam.visit_related types p)
    fun _ _ htypes => ?_
  refine L.bind (TypedName.visitList_related types h.consts) fun _ _ hconsts => ?_
  refine L.bind (L.mapM h.bounds fun _ _ p => Bound.visit_related hv hw types p)
    fun _ _ hbounds => ?_
  exact L.pure ⟨htypes, hconsts, hbounds⟩

theorem Struct.visit_related (name : ItemName) {s s' : Struct} (h : s.Rel R₀ s') :
    L.Holds (Struct.Rel R) (s.visit v name) fun i => s'.visit (w i) name := by
  simp only [Struct.visit, hv.within, (hw _).within]
  refine L.bind (Generics.visit_related hv hw types h.generics)
    fun _ _ hgenerics => ?_
  refine L.bind (TypedName.visitList_related types h.fields) fun _ _ hfields => ?_
  exact L.pure ⟨hgenerics, hfields⟩

theorem Enum.visit_related (name : ItemName) {e e' : Enum} (h : e.Rel R₀ e') :
    L.Holds (Enum.Rel R) (e.visit v name) fun i => e'.visit (w i) name := by
  simp only [Enum.visit, hv.within, (hw _).within]
  refine L.bind (Generics.visit_related hv hw types h.generics)
    fun _ _ hgenerics => ?_
  refine L.bind (L.mapM (S := Variant.Rel R) h.variants fun a b hab => ?_)
    fun _ _ hvariants => L.pure ⟨hgenerics, hvariants⟩
  exact L.bind (Ty.visitList_related types hab.fields) fun _ _ hfields =>
    L.pure ⟨hab.name, hfields⟩

theorem TypeAlias.visit_related {a b : TypeAlias} (h : a.Rel R₀ b) :
    L.Holds (TypeAlias.Rel R) (a.visit v) fun i => b.visit (w i) := by
  refine L.bind (Generics.visit_related hv hw types h.generics)
    fun _ _ hgenerics => ?_
  exact L.bind (types _ _ h.type) fun _ _ htype => L.pure ⟨hgenerics, htype⟩

theorem AssocType.visit_related {a b : AssocType} (h : a.Rel R₀ b) :
    L.Holds (AssocType.Rel R) (a.visit v) fun i => b.visit (w i) := by
  refine L.bind (ItemRef.visitList_related hv hw types h.bounds)
    fun _ _ hbounds => ?_
  exact L.bind (Ty.visitOption_related types h.default?) fun _ _ hdefault =>
    L.pure ⟨hbounds, hdefault⟩

include bodies

omit types hv hw in
theorem Body.handOver_related {b? d? : Option Body} (h : Option.Rel B₀ b? d?) :
    L.Holds (Option.Rel B) (Body.handOver v b?)
      fun i => Body.handOver (w i) d? := by
  cases h with
  | none => exact L.pure .none
  | some h => exact L.bind (bodies _ _ h) fun b d hbd => L.pure (.some hbd)

theorem Function.visit_related (site site' : FunctionSite) {f g : Function}
    (h : f.Rel R₀ B₀ g) :
    L.Holds (Function.Rel R B) (f.visit v site) fun i => g.visit (w i) site' := by
  simp only [Function.visit, hv.within, (hw _).within]
  refine L.bind (Generics.visit_related hv hw types h.generics)
    fun _ _ hgenerics => ?_
  refine L.bind (TypedName.visitList_related types h.args) fun _ _ hargs => ?_
  refine L.bind (types _ _ h.result) fun _ _ hresult => ?_
  refine L.bind (Body.handOver_related bodies h.body?) fun _ _ hbody => ?_
  exact L.pure ⟨hgenerics, hargs, hresult, hbody⟩

theorem Function.visitTable_related (site site' : String → FunctionSite)
    {methods methods' : Table Function}
    (h : methods.Rel (Function.Rel R₀ B₀) methods') :
    L.Holds (Table.Rel (Function.Rel R B)) (Function.visitTable v site methods)
      fun i => Function.visitTable (w i) site' methods' := by
  simp only [Function.visitTable]
  refine L.bind (Table.entries_related (f := fun name => Function.visit v (site name))
    (g := fun i name => Function.visit (w i) (site' name))
    (fun name _ _ method => ?_) h) fun _ _ hentries => L.pure hentries
  exact Function.visit_related hv hw types bodies (site name) (site' name) method

theorem Static.visit_related (name : ItemName) {s s' : Static}
    (h : s.Rel R₀ B₀ s') :
    L.Holds (Static.Rel R B) (s.visit v name) fun i => s'.visit (w i) name := by
  simp only [Static.visit, hv.within, (hw _).within]
  refine L.bind (types _ _ h.type) fun _ _ htype => ?_
  refine L.bind (Body.handOver_related bodies h.body?) fun _ _ hbody => ?_
  exact L.pure ⟨htype, hbody⟩

theorem Trait.visit_related (name : ItemName) {t t' : Trait}
    (h : t.Rel R₀ B₀ t') :
    L.Holds (Trait.Rel R B) (t.visit v name) fun i => t'.visit (w i) name := by
  simp only [Trait.visit, hv.within, (hw _).within]
  refine L.bind (Generics.visit_related hv hw types h.generics)
    fun _ _ hgenerics => ?_
  refine L.bind (Table.entries_related (f := fun _ => AssocType.visit v)
    (g := fun i _ => AssocType.visit (w i))
    (fun _ _ _ type => AssocType.visit_related hv hw types type) h.types)
    fun _ _ htypes => ?_
  refine L.bind (Function.visitTable_related hv hw types bodies _ _ h.methods)
    fun _ _ hmethods => ?_
  exact L.pure ⟨hgenerics, htypes, hmethods⟩

theorem InherentImpl.visit_related {a b : InherentImpl} (h : a.Rel R₀ B₀ b) :
    L.Holds (InherentImpl.Rel R B) (a.visit v) fun i => b.visit (w i) := by
  simp only [InherentImpl.visit, hv.within, (hw _).within]
  refine L.bind (Generics.visit_related hv hw types h.generics)
    fun _ _ hgenerics => ?_
  refine L.bind (types _ _ h.self) fun _ _ hself => ?_
  refine L.bind (Function.visitTable_related hv hw types bodies _ _ h.methods)
    fun _ _ hmethods => ?_
  exact L.pure ⟨hgenerics, hself, hmethods⟩

theorem TraitImpl.visit_related {a b : TraitImpl} (h : a.Rel R₀ B₀ b) :
    L.Holds (TraitImpl.Rel R B) (a.visit v) fun i => b.visit (w i) := by
  simp only [TraitImpl.visit, hv.within, (hw _).within]
  refine L.bind (Generics.visit_related hv hw types h.generics)
    fun _ _ hgenerics => ?_
  refine L.bind (ItemRef.visit_related hv hw types h.trait) fun _ _ htrait => ?_
  refine L.bind (types _ _ h.self) fun _ _ hself => ?_
  refine L.bind (Table.entries_related (f := fun _ => Ty.visit v)
    (g := fun i _ => Ty.visit (w i)) (fun _ _ _ type => types _ _ type) h.types)
    fun _ _ htypes => ?_
  refine L.bind (Function.visitTable_related hv hw types bodies _ _ h.methods)
    fun _ _ hmethods => ?_
  exact L.pure ⟨hgenerics, htrait, hself, htypes, hmethods⟩

end Related

section RelatedItems

variable {L : Run.Comparison (Fault ε) σ (Fault ε') σ' ι} {v : Visitor ε σ}
  {w : ι → Visitor ε' σ'} {R₀ R : Ty → Ty → Prop} {B₀ B : Body → Body → Prop}

mutual

theorem Item.visit_related (hv : v.EntersAll) (hw : ∀ i, (w i).EntersAll)
    (types : ∀ t u, R₀ t u → L.Holds R (t.visit v) fun i => u.visit (w i))
    (bodies : ∀ b d, B₀ b d → L.Holds B (v.body b) fun i => (w i).body d) :
    ∀ (name : ItemName) {item item' : Item}, item.Rel R₀ B₀ item' →
      L.Holds (Item.Rel R B) (item.visit v name) fun i => item'.visit (w i) name
  | name, .module ⟨_⟩, .module ⟨_⟩, .module h => by
      simp only [Item.visit, hv.within, (hw _).within]
      exact L.bind (Item.visitEntries_related hv hw types bodies name h)
        fun _ _ h => L.pure (.module h)
  | name, .function _, .function _, .function h => by
      simp only [Item.visit, hv.within, (hw _).within]
      exact L.bind (Function.visit_related hv hw types bodies _ _ h)
        fun _ _ h => L.pure (.function h)
  | name, .struct _, .struct _, .struct h => by
      simp only [Item.visit, hv.within, (hw _).within]
      exact L.bind (Struct.visit_related hv hw types name h)
        fun _ _ h => L.pure (.struct h)
  | name, .enum _, .enum _, .enum h => by
      simp only [Item.visit, hv.within, (hw _).within]
      exact L.bind (Enum.visit_related hv hw types name h)
        fun _ _ h => L.pure (.enum h)
  | name, .typeAlias _, .typeAlias _, .typeAlias h => by
      simp only [Item.visit, hv.within, (hw _).within]
      exact L.bind (TypeAlias.visit_related hv hw types h)
        fun _ _ h => L.pure (.typeAlias h)
  | name, .static _, .static _, .static h => by
      simp only [Item.visit, hv.within, (hw _).within]
      exact L.bind (Static.visit_related hv hw types bodies name h)
        fun _ _ h => L.pure (.static h)
  | name, .trait _, .trait _, .trait h => by
      simp only [Item.visit, hv.within, (hw _).within]
      exact L.bind (Trait.visit_related hv hw types bodies name h)
        fun _ _ h => L.pure (.trait h)

theorem Item.visitEntries_related (hv : v.EntersAll) (hw : ∀ i, (w i).EntersAll)
    (types : ∀ t u, R₀ t u → L.Holds R (t.visit v) fun i => u.visit (w i))
    (bodies : ∀ b d, B₀ b d → L.Holds B (v.body b) fun i => (w i).body d) :
    ∀ (name : ItemName) {entries entries' : List (String × Item)},
      Table.Rel (Item.Rel R₀ B₀) ⟨entries⟩ ⟨entries'⟩ →
      L.Holds (fun as bs => Table.Rel (Item.Rel R B) ⟨as⟩ ⟨bs⟩)
        (Item.visitEntries v name entries)
        fun i => Item.visitEntries (w i) name entries'
  | _, [], [], .nil => by
      simp only [Item.visitEntries]
      exact L.pure .nil
  | name, (segment, _) :: _, (_, _) :: _, .cons hitem h => by
      simp only [Item.visitEntries]
      refine L.bind (Item.visit_related hv hw types bodies (name.child segment) hitem)
        fun _ _ hitem => ?_
      exact L.bind (Item.visitEntries_related hv hw types bodies name h)
        fun _ _ h => L.pure (.cons hitem h)

end

theorem Crate.visit_related (hv : v.EntersAll) (hw : ∀ i, (w i).EntersAll)
    (types : ∀ t u, R₀ t u → L.Holds R (t.visit v) fun i => u.visit (w i))
    (bodies : ∀ b d, B₀ b d → L.Holds B (v.body b) fun i => (w i).body d)
    {c d : Crate} (h : c.Rel R₀ B₀ d) :
    L.Holds (Crate.Rel R B) (c.visit v) fun i => d.visit (w i) := by
  obtain ⟨name, ⟨entries⟩, impls, traitImpls⟩ := c
  obtain ⟨_, ⟨entries'⟩, impls', traitImpls'⟩ := d
  obtain ⟨rfl, hitems, himpls, htraitImpls⟩ := h
  simp only [Crate.visit, Items.visit, hv.within, (hw _).within, bind_assoc, pure_bind]
  refine L.bind (Item.visitEntries_related hv hw types bodies _ hitems)
    fun _ _ hitems => ?_
  refine L.bind (L.mapM himpls fun _ _ block =>
    InherentImpl.visit_related hv hw types bodies block) fun _ _ himpls => ?_
  refine L.bind (L.mapM htraitImpls fun _ _ block =>
    TraitImpl.visit_related hv hw types bodies block) fun _ _ htraitImpls => ?_
  exact L.pure ⟨rfl, hitems, himpls, htraitImpls⟩

end RelatedItems

section Settled

variable {v : Visitor ε σ} {B : Body → Body → Prop} (hv : v.EntersAll)

theorem Ty.visitOption_eq_pure {t? u? : Option Ty}
    (h : Option.Rel (fun _ u => u.visit v = pure u) t? u?) :
    Ty.visitOption v u? = pure u? := by
  cases h with
  | none => rfl
  | some h => simp [Ty.visitOption, h]

theorem TypeParam.visit_eq_pure {p q : TypeParam}
    (h : p.Rel (fun _ u => u.visit v = pure u) q) : q.visit v = pure q := by
  simp [TypeParam.visit, Ty.visitOption_eq_pure h.default?]

omit hv in
theorem mapM_eq_pure {α β : Type} {P : α → β → Prop} {f : β → Run (Fault ε) σ β}
    (hf : ∀ a b, P a b → f b = pure b) {as : List α} {bs : List β}
    (h : List.Forall₂ P as bs) : bs.mapM f = pure bs := by
  induction h with
  | nil => rfl
  | cons h _ ih => simp [List.mapM_cons, hf _ _ h, ih]

omit hv in
theorem Table.entries_eq_pure {α β : Type} {P : α → β → Prop}
    {f : String → β → Run (Fault ε) σ β}
    (hf : ∀ name a b, P a b → f name b = pure b) {a : Table α} {b : Table β}
    (h : a.Rel P b) :
    (b.entries.mapM fun entry => do
      let y ← f entry.1 entry.2
      pure (entry.1, y)) = pure b.entries := by
  induction h with
  | nil => rfl
  | cons h _ ih =>
      simp only [List.mapM_cons, hf _ _ _ h, pure_bind]
      rw [ih, pure_bind]

include hv

theorem Bound.visit_eq_pure {p q : Bound}
    (h : p.Rel (fun _ u => u.visit v = pure u) q) : q.visit v = pure q := by
  cases h with
  | implements type trait =>
      simp [Bound.visit, type, ItemRef.visit_eq_pure hv trait]
  | equal type other => simp [Bound.visit, type, other]

theorem Generics.visit_eq_pure {g g' : Generics}
    (h : g.Rel (fun _ u => u.visit v = pure u) g') : g'.visit v = pure g' := by
  have htypes := mapM_eq_pure (fun _ _ p => TypeParam.visit_eq_pure p) h.types
  have hbounds := mapM_eq_pure (fun _ _ p => Bound.visit_eq_pure hv p) h.bounds
  simp [Generics.visit, hv.within, htypes, TypedName.visitList_eq_pure h.consts,
    hbounds]

theorem Struct.visit_eq_pure (name : ItemName) {s s' : Struct}
    (h : s.Rel (fun _ u => u.visit v = pure u) s') :
    s'.visit v name = pure s' := by
  simp [Struct.visit, hv.within, Generics.visit_eq_pure hv h.generics,
    TypedName.visitList_eq_pure h.fields]

theorem Enum.visit_eq_pure (name : ItemName) {e e' : Enum}
    (h : e.Rel (fun _ u => u.visit v = pure u) e') :
    e'.visit v name = pure e' := by
  have hvariants := mapM_eq_pure (P := Variant.Rel fun _ u => u.visit v = pure u)
    (f := fun variant => do
      let fields ← Ty.visitList v variant.fields
      pure { variant with fields })
    (fun _ _ h => by simp [Ty.visitList_eq_pure h.fields]) h.variants
  simp only [Enum.visit, hv.within, Generics.visit_eq_pure hv h.generics, hvariants,
    pure_bind]

theorem TypeAlias.visit_eq_pure {a b : TypeAlias}
    (h : a.Rel (fun _ u => u.visit v = pure u) b) : b.visit v = pure b := by
  simp [TypeAlias.visit, Generics.visit_eq_pure hv h.generics, h.type]

theorem AssocType.visit_eq_pure {a b : AssocType}
    (h : a.Rel (fun _ u => u.visit v = pure u) b) : b.visit v = pure b := by
  simp [AssocType.visit, ItemRef.visitList_eq_pure hv h.bounds,
    Ty.visitOption_eq_pure h.default?]

omit hv in
theorem Body.handOver_eq_pure {b? d? : Option Body}
    (h : Option.Rel (fun _ d => v.body d = pure d) b? d?) :
    Body.handOver v d? = pure d? := by
  cases h with
  | none => rfl
  | some h => simp [Body.handOver, h]

theorem Function.visit_eq_pure (site : FunctionSite) {f g : Function}
    (h : f.Rel (fun _ u => u.visit v = pure u) (fun _ d => v.body d = pure d) g) :
    g.visit v site = pure g := by
  simp [Function.visit, hv.within, Generics.visit_eq_pure hv h.generics,
    TypedName.visitList_eq_pure h.args, h.result, Body.handOver_eq_pure h.body?]

theorem Function.visitTable_eq_pure (site : String → FunctionSite)
    {methods methods' : Table Function}
    (h : methods.Rel (Function.Rel (fun _ u => u.visit v = pure u)
      fun _ d => v.body d = pure d) methods') :
    Function.visitTable v site methods' = pure methods' := by
  have hentries := Table.entries_eq_pure
    (f := fun name => Function.visit v (site name))
    (fun _ _ _ method => Function.visit_eq_pure hv _ method) h
  simp only [Function.visitTable, hentries, pure_bind]

theorem Static.visit_eq_pure (name : ItemName) {s s' : Static}
    (h : s.Rel (fun _ u => u.visit v = pure u) (fun _ d => v.body d = pure d) s') :
    s'.visit v name = pure s' := by
  simp [Static.visit, hv.within, h.type, Body.handOver_eq_pure h.body?]

theorem Trait.visit_eq_pure (name : ItemName) {t t' : Trait}
    (h : t.Rel (fun _ u => u.visit v = pure u) (fun _ d => v.body d = pure d) t') :
    t'.visit v name = pure t' := by
  have htypes := Table.entries_eq_pure (f := fun _ => AssocType.visit v)
    (fun _ _ _ type => AssocType.visit_eq_pure hv type) h.types
  simp only [Trait.visit, hv.within, Generics.visit_eq_pure hv h.generics, htypes,
    Function.visitTable_eq_pure hv _ h.methods, pure_bind]

theorem InherentImpl.visit_eq_pure {a b : InherentImpl}
    (h : a.Rel (fun _ u => u.visit v = pure u) (fun _ d => v.body d = pure d) b) :
    b.visit v = pure b := by
  simp [InherentImpl.visit, hv.within, Generics.visit_eq_pure hv h.generics, h.self,
    Function.visitTable_eq_pure hv _ h.methods]

theorem TraitImpl.visit_eq_pure {a b : TraitImpl}
    (h : a.Rel (fun _ u => u.visit v = pure u) (fun _ d => v.body d = pure d) b) :
    b.visit v = pure b := by
  have htypes := Table.entries_eq_pure (f := fun _ => Ty.visit v)
    (fun _ _ _ type => type) h.types
  simp only [TraitImpl.visit, hv.within, Generics.visit_eq_pure hv h.generics,
    ItemRef.visit_eq_pure hv h.trait, h.self, htypes,
    Function.visitTable_eq_pure hv _ h.methods, pure_bind]

end Settled

section SettledItems

variable {v : Visitor ε σ}

mutual

theorem Item.visit_eq_pure (hv : v.EntersAll) :
    ∀ (name : ItemName) {item item' : Item},
      item.Rel (fun _ u => u.visit v = pure u) (fun _ d => v.body d = pure d) item' →
      item'.visit v name = pure item'
  | name, .module ⟨_⟩, .module ⟨_⟩, .module h => by
      simp [Item.visit, hv.within, Item.visitEntries_eq_pure hv name h]
  | name, .function _, .function _, .function h => by
      simp [Item.visit, hv.within, Function.visit_eq_pure hv _ h]
  | name, .struct _, .struct _, .struct h => by
      simp [Item.visit, hv.within, Struct.visit_eq_pure hv name h]
  | name, .enum _, .enum _, .enum h => by
      simp [Item.visit, hv.within, Enum.visit_eq_pure hv name h]
  | name, .typeAlias _, .typeAlias _, .typeAlias h => by
      simp [Item.visit, hv.within, TypeAlias.visit_eq_pure hv h]
  | name, .static _, .static _, .static h => by
      simp [Item.visit, hv.within, Static.visit_eq_pure hv name h]
  | name, .trait _, .trait _, .trait h => by
      simp [Item.visit, hv.within, Trait.visit_eq_pure hv name h]

theorem Item.visitEntries_eq_pure (hv : v.EntersAll) :
    ∀ (name : ItemName) {entries entries' : List (String × Item)},
      Table.Rel (Item.Rel (fun _ u => u.visit v = pure u)
        fun _ d => v.body d = pure d) ⟨entries⟩ ⟨entries'⟩ →
      Item.visitEntries v name entries' = pure entries'
  | _, [], [], .nil => rfl
  | name, (segment, _) :: _, (_, _) :: _, .cons hitem h => by
      simp [Item.visitEntries, Item.visit_eq_pure hv (name.child segment) hitem,
        Item.visitEntries_eq_pure hv name h]

end

theorem Crate.visit_eq_pure (hv : v.EntersAll) {c d : Crate}
    (h : c.Rel (fun _ u => u.visit v = pure u) (fun _ d => v.body d = pure d) d) :
    d.visit v = pure d := by
  obtain ⟨_, ⟨entries⟩, impls, traitImpls⟩ := c
  obtain ⟨name, ⟨entries'⟩, impls', traitImpls'⟩ := d
  have hitems := Item.visitEntries_eq_pure hv (.root name) h.items
  have himpls := mapM_eq_pure
    (fun _ _ block => InherentImpl.visit_eq_pure hv block) h.inherentImpls
  have htraitImpls := mapM_eq_pure
    (fun _ _ block => TraitImpl.visit_eq_pure hv block) h.traitImpls
  simp_all [Crate.visit, Items.visit, hv.within]

theorem Crate.visit_idle (c : Crate) : c.visit .idle = pure c := by
  have hc : c.Rel Eq Eq c := by rw [Crate.rel_eq]
  refine Crate.visit_eq_pure (c := c) Visitor.idle_thorough.entersAll
    (hc.mono ?_ ?_)
  · rintro t _ rfl
    exact Ty.visit_idle t
  · rintro b _ rfl
    rfl

end SettledItems

end Unerase
