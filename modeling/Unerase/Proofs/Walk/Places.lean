import Unerase.Proofs.Relation.Places
import Unerase.Proofs.Walk.Ty
import Unerase.Visitor.Crate

namespace Unerase

namespace Run

variable {ε α β : Type}

/-- The computation gives the value and adds the places to those that it finds. -/
def Collects (x : Run ε (List Place) α) (a : α) (places : List Place) : Prop :=
  ∀ before, x before = (.ok a, before ++ places)

namespace Collects

variable {x : Run ε (List Place) α} {a : α} {f : α → Run ε (List Place) β} {b : β}
  {ps qs : List Place}

theorem pure (a : α) : (Pure.pure a : Run ε (List Place) α).Collects a [] := by
  intro before
  rw [List.append_nil]
  rfl

theorem bind (hx : x.Collects a ps) (hf : (f a).Collects b qs) :
    (x >>= f).Collects b (ps ++ qs) := by
  intro before
  rw [bind_apply, hx before]
  simpa using hf (before ++ ps)

theorem map (hx : x.Collects a ps) (hf : f a = Pure.pure b) :
    (x >>= f).Collects b ps := by
  have hb : (f a).Collects b [] := hf ▸ pure b
  simpa using hx.bind hb

theorem mapM {f : α → Run ε (List Place) α} {g : α → List Place}
    (h : ∀ a, (f a).Collects a (g a)) (as : List α) :
    (as.mapM f).Collects as (as.flatMap g) := by
  induction as with
  | nil => exact pure []
  | cons a as ih =>
      rw [List.mapM_cons, List.flatMap_cons]
      exact (h a).bind (ih.map rfl)

theorem entries {f : String → α → Run ε (List Place) α} {g : α → List Place}
    (h : ∀ name a, (f name a).Collects a (g a)) (t : Table α) :
    (t.entries.mapM fun entry : String × α => do
      let y ← f entry.1 entry.2
      Pure.pure (entry.1, y)).Collects t.entries (t.values.flatMap g) := by
  have hentries := mapM (f := fun entry : String × α => do
    let y ← f entry.1 entry.2
    Pure.pure (entry.1, y)) (fun entry => (h entry.1 entry.2).map rfl) t.entries
  rwa [Table.values, List.flatMap_map]

end Collects

end Run

/-- The visitor that notes down every type and every body that it is told of. -/
def Visitor.collecting : Visitor Empty (List Place) where
  type t := do
    .update (· ++ [.type t])
    pure (some t)
  body b := do
    .update (· ++ [.body b])
    pure b

theorem Visitor.collecting_entersAll : collecting.EntersAll :=
  fun _ => rfl

/-- The places of types. -/
def Place.ofTypes (ts : List Ty) : List Place :=
  ts.map .type

@[simp] theorem Place.ofTypes_append (ts us : List Ty) :
    ofTypes (ts ++ us) = ofTypes ts ++ ofTypes us :=
  List.map_append

@[simp] theorem Place.ofTypes_flatMap {α : Type} (f : α → List Ty) (as : List α) :
    ofTypes (as.flatMap f) = as.flatMap fun a => ofTypes (f a) :=
  List.map_flatMap

namespace Visitor

theorem visit_collects (t : Ty) :
    (t.visit collecting).Collects t (Place.ofTypes [t]) := by
  intro before
  rw [Ty.visit_eq_reach]
  rfl

theorem visitList_collects (ts : List Ty) :
    (Ty.visitList collecting ts).Collects ts (Place.ofTypes ts) := by
  induction ts with
  | nil => exact .pure []
  | cons t ts ih => exact (visit_collects t).bind (ih.map rfl)

theorem visitOption_collects (t? : Option Ty) :
    (Ty.visitOption collecting t?).Collects t? (Place.ofTypes t?.toList) := by
  cases t? with
  | none => exact .pure none
  | some t => exact (visit_collects t).map rfl

theorem typedNames_collect (as : List TypedName) :
    (TypedName.visitList collecting as).Collects as
      (Place.ofTypes (as.map TypedName.type)) := by
  induction as with
  | nil => exact .pure []
  | cons a as ih => exact (visit_collects a.type).bind (ih.map rfl)

theorem args_collect (a : Args) :
    (a.visit collecting).Collects a (Place.ofTypes a.types) := by
  obtain ⟨types, consts⟩ := a
  simp only [Args.visit, collecting_entersAll.within]
  exact (visitList_collects types).map rfl

theorem itemRef_collects (r : ItemRef) :
    (r.visit collecting).Collects r (Place.ofTypes r.parts) := by
  obtain ⟨name, args⟩ := r
  simp only [ItemRef.visit, collecting_entersAll.within]
  exact (args_collect args).map rfl

theorem itemRefs_collect (rs : List ItemRef) :
    (ItemRef.visitList collecting rs).Collects rs
      (Place.ofTypes (rs.flatMap ItemRef.parts)) := by
  induction rs with
  | nil => exact .pure []
  | cons r rs ih =>
      rw [List.flatMap_cons, Place.ofTypes_append]
      exact (itemRef_collects r).bind (ih.map rfl)

theorem typeParam_collects (p : TypeParam) :
    (p.visit collecting).Collects p (Place.ofTypes p.parts) :=
  (visitOption_collects p.default?).map rfl

theorem bound_collects (b : Bound) :
    (b.visit collecting).Collects b (Place.ofTypes b.parts) := by
  cases b with
  | implements type trait =>
      exact (visit_collects type).bind ((itemRef_collects trait).map rfl)
  | equal type other =>
      exact (visit_collects type).bind ((visit_collects other).map rfl)

theorem generics_collect (g : Generics) :
    (g.visit collecting).Collects g (Place.ofTypes g.parts) := by
  simp only [Generics.visit, collecting_entersAll.within, Generics.parts,
    Place.ofTypes_append, Place.ofTypes_flatMap]
  exact (Run.Collects.mapM typeParam_collects g.types).bind <|
    (typedNames_collect g.consts).bind <|
      (Run.Collects.mapM bound_collects g.bounds).map rfl

theorem struct_collects (name : ItemName) (s : Struct) :
    (s.visit collecting name).Collects s (Place.ofTypes s.parts) := by
  simp only [Struct.visit, collecting_entersAll.within, Struct.parts,
    Place.ofTypes_append]
  exact (generics_collect s.generics).bind ((typedNames_collect s.fields).map rfl)

theorem variant_collects (a : Variant) :
    (do
      let fields ← Ty.visitList collecting a.fields
      pure { a with fields }).Collects a (Place.ofTypes a.fields) :=
  (visitList_collects a.fields).map rfl

theorem enum_collects (name : ItemName) (e : Enum) :
    (e.visit collecting name).Collects e (Place.ofTypes e.parts) := by
  simp only [Enum.visit, collecting_entersAll.within, Enum.parts, Place.ofTypes_append,
    Place.ofTypes_flatMap]
  exact (generics_collect e.generics).bind
    ((Run.Collects.mapM variant_collects e.variants).map rfl)

theorem typeAlias_collects (a : TypeAlias) :
    (a.visit collecting).Collects a (Place.ofTypes a.parts) := by
  simp only [TypeAlias.visit, TypeAlias.parts, Place.ofTypes_append]
  exact (generics_collect a.generics).bind ((visit_collects a.type).map rfl)

theorem assocType_collects (a : AssocType) :
    (a.visit collecting).Collects a (Place.ofTypes a.parts) := by
  simp only [AssocType.visit, AssocType.parts, Place.ofTypes_append]
  exact (itemRefs_collect a.bounds).bind ((visitOption_collects a.default?).map rfl)

/-! ### Bodies -/

theorem handOver_collects (b? : Option Body) :
    (Body.handOver collecting b?).Collects b? (b?.toList.map .body) := by
  cases b? with
  | none => exact .pure none
  | some b =>
      intro before
      rfl

theorem function_collects (site : FunctionSite) (f : Function) :
    (f.visit collecting site).Collects f f.places := by
  have hplaces : f.places = Place.ofTypes f.generics.parts ++
      (Place.ofTypes (f.args.map TypedName.type) ++
        (Place.ofTypes [f.result] ++ f.body?.toList.map .body)) := by
    simp [Function.places, Function.parts, Place.ofTypes]
  simp only [Function.visit, collecting_entersAll.within, hplaces]
  exact (generics_collect f.generics).bind <|
    (typedNames_collect f.args).bind <|
      (visit_collects f.result).bind ((handOver_collects f.body?).map rfl)

theorem functions_collect (site : String → FunctionSite) (methods : Table Function) :
    (Function.visitTable collecting site methods).Collects methods
      (methods.values.flatMap Function.places) := by
  simp only [Function.visitTable]
  have hentries := Run.Collects.entries
    (fun name method => function_collects (site name) method) methods
  exact hentries.map rfl

theorem static_collects (name : ItemName) (s : Static) :
    (s.visit collecting name).Collects s s.places := by
  have hplaces : s.places = Place.ofTypes [s.type] ++ s.body?.toList.map .body := rfl
  simp only [Static.visit, collecting_entersAll.within, hplaces]
  exact (visit_collects s.type).bind ((handOver_collects s.body?).map rfl)

theorem trait_collects (name : ItemName) (t : Trait) :
    (t.visit collecting name).Collects t t.places := by
  have hplaces : t.places = Place.ofTypes t.generics.parts ++
      (t.types.values.flatMap (fun a => Place.ofTypes a.parts) ++
        t.methods.values.flatMap Function.places) := by
    simp [Trait.places, Place.ofTypes, List.map_flatMap]
  have htypes := Run.Collects.entries (fun _ a => assocType_collects a) t.types
  simp only [Trait.visit, collecting_entersAll.within, hplaces]
  exact (generics_collect t.generics).bind <|
    htypes.bind ((functions_collect _ t.methods).map rfl)

theorem inherentImpl_collects (block : InherentImpl) :
    (block.visit collecting).Collects block block.places := by
  have hplaces : block.places = Place.ofTypes block.generics.parts ++
      (Place.ofTypes [block.self] ++ block.methods.values.flatMap Function.places) := by
    simp [InherentImpl.places, Place.ofTypes]
  simp only [InherentImpl.visit, collecting_entersAll.within, hplaces]
  exact (generics_collect block.generics).bind <|
    (visit_collects block.self).bind ((functions_collect _ block.methods).map rfl)

theorem traitImpl_collects (block : TraitImpl) :
    (block.visit collecting).Collects block block.places := by
  have hplaces : block.places = Place.ofTypes block.generics.parts ++
      (Place.ofTypes block.trait.parts ++ (Place.ofTypes [block.self] ++
        (block.types.values.flatMap (fun t => Place.ofTypes [t]) ++
          block.methods.values.flatMap Function.places))) := by
    simp [TraitImpl.places, Place.ofTypes, List.map_eq_flatMap]
  have htypes := Run.Collects.entries (fun _ t => visit_collects t) block.types
  simp only [TraitImpl.visit, collecting_entersAll.within, hplaces]
  exact (generics_collect block.generics).bind <|
    (itemRef_collects block.trait).bind <| (visit_collects block.self).bind <|
      htypes.bind ((functions_collect _ block.methods).map rfl)

mutual

theorem item_collects : ∀ (name : ItemName) (item : Item),
    (item.visit collecting name).Collects item item.places
  | name, .module ⟨entries⟩ => by
      simp only [Item.visit, collecting_entersAll.within]
      exact (entries_collect name entries).map rfl
  | name, .function f => by
      simp only [Item.visit, collecting_entersAll.within]
      exact (function_collects _ f).map rfl
  | name, .struct s => by
      simp only [Item.visit, collecting_entersAll.within]
      exact (struct_collects name s).map rfl
  | name, .enum e => by
      simp only [Item.visit, collecting_entersAll.within]
      exact (enum_collects name e).map rfl
  | name, .typeAlias a => by
      simp only [Item.visit, collecting_entersAll.within]
      exact (typeAlias_collects a).map rfl
  | name, .static s => by
      simp only [Item.visit, collecting_entersAll.within]
      exact (static_collects name s).map rfl
  | name, .trait t => by
      simp only [Item.visit, collecting_entersAll.within]
      exact (trait_collects name t).map rfl

theorem entries_collect : ∀ (name : ItemName) (entries : List (String × Item)),
    (Item.visitEntries collecting name entries).Collects entries
      (Item.placesOf entries)
  | _, [] => .pure []
  | name, (segment, item) :: entries =>
      (item_collects (name.child segment) item).bind
        ((entries_collect name entries).map rfl)

end

end Visitor

/-- A walk over a crate comes to its places, each once and in order. -/
theorem Crate.visit_collects (c : Crate) :
    (c.visit .collecting).Collects c c.places := by
  have hitems := (Visitor.entries_collect (.root c.name) c.items.entries).map
    (f := fun entries => pure (Table.mk entries)) rfl
  simp only [Crate.visit, Items.visit, Visitor.collecting_entersAll.within]
  exact hitems.bind <|
    (Run.Collects.mapM Visitor.inherentImpl_collects c.inherentImpls).bind <|
      (Run.Collects.mapM Visitor.traitImpl_collects c.traitImpls).map rfl

end Unerase
