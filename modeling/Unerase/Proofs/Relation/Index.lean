import Unerase.Expansion.Index
import Unerase.Proofs.Relation.Crate
import Unerase.Proofs.Substitution

namespace Unerase

/-- Entries with the same parameters and related templates. -/
structure FunctionEntry.Rel (R : Ty → Ty → Prop) (f g : FunctionEntry) : Prop where
  generics : f.generics = g.generics
  templates : List.Forall₂ R f.templates g.templates

/-- Blocks that match the same receivers and have related methods. -/
structure ImplEntry.Rel (R : Ty → Ty → Prop) (a b : ImplEntry) : Prop where
  generics : a.generics = b.generics
  self : a.self = b.self
  methods : a.methods.Rel (FunctionEntry.Rel R) b.methods

/-- Indices that differ in templates only. -/
structure Index.Rel (R : Ty → Ty → Prop) (index index' : Index) : Prop where
  functions :
    List.Forall₂ (fun a b => a.1 = b.1 ∧ FunctionEntry.Rel R a.2 b.2)
      index.functions index'.functions
  impls : List.Forall₂ (ImplEntry.Rel R) index.impls index'.impls

section OfCrate

variable {R : Ty → Ty → Prop} {B : Body → Body → Prop}

theorem Table.Rel.map {α β γ δ : Type} {P : α → β → Prop} {Q : γ → δ → Prop}
    {f : α → γ} {g : β → δ} (hfg : ∀ a b, P a b → Q (f a) (g b)) {a : Table α}
    {b : Table β} (h : a.Rel P b) : (a.map f).Rel Q (b.map g) := by
  induction h with
  | nil => exact .nil
  | cons hab _ ih => exact .cons (hfg _ _ hab) ih

mutual

theorem Item.Rel.functions (name : ItemName) : ∀ {item item' : Item},
    item.Rel R B item' →
    List.Forall₂ (fun a b => a.1 = b.1 ∧ Function.Rel R B a.2 b.2)
      (item.functions name) (item'.functions name)
  | .module ⟨_⟩, .module ⟨_⟩, .module h => Item.Rel.functionsOf name h
  | .function _, _, .function h => .cons ⟨rfl, h⟩ .nil
  | .struct _, _, .struct _ => .nil
  | .enum _, _, .enum _ => .nil
  | .typeAlias _, _, .typeAlias _ => .nil
  | .static _, _, .static _ => .nil
  | .trait _, _, .trait _ => .nil

theorem Item.Rel.functionsOf (name : ItemName) :
    ∀ {entries entries' : List (String × Item)},
    Table.Rel (Item.Rel R B) ⟨entries⟩ ⟨entries'⟩ →
    List.Forall₂ (fun a b => a.1 = b.1 ∧ Function.Rel R B a.2 b.2)
      (Item.functionsOf name entries) (Item.functionsOf name entries')
  | [], [], .nil => .nil
  | (segment, _) :: _, (_, _) :: _, .cons hitem h =>
      List.rel_append (hitem.functions (name.child segment))
        (Item.Rel.functionsOf name h)

end

theorem Crate.Rel.functions {c d : Crate} (h : c.Rel R B d) :
    List.Forall₂ (fun a b => a.1 = b.1 ∧ Function.Rel R B a.2 b.2) c.functions
      d.functions := by
  obtain ⟨name, ⟨entries⟩, impls, traitImpls⟩ := c
  obtain ⟨_, ⟨entries'⟩, impls', traitImpls'⟩ := d
  obtain ⟨rfl, hitems, -, -⟩ := h
  exact Item.Rel.functionsOf (.root name) hitems

variable (hB : ∀ b d, B b d → List.Forall₂ R b.templates d.templates)

include hB

theorem Function.Rel.entry {f g : Function} (h : f.Rel Eq B g) :
    (FunctionEntry.ofFunction f).Rel R (.ofFunction g) := by
  obtain ⟨generics, args, result, body?⟩ := f
  obtain ⟨generics', args', result', body'?⟩ := g
  obtain ⟨hgenerics, -, -, hbody⟩ := h
  refine ⟨Generics.rel_eq ▸ hgenerics, ?_⟩
  cases hbody with
  | none => exact .nil
  | some hbody => exact hB _ _ hbody

/-- Crates that differ in bodies only have indices that differ in templates only. -/
theorem Crate.Rel.index {c d : Crate} (h : c.Rel Eq B d) :
    (Index.ofCrate c).Rel R (.ofCrate d) where
  functions := List.rel_map (fun _ _ hf => ⟨hf.1, hf.2.entry hB⟩) h.functions
  impls := List.rel_map (fun _ _ block => ⟨Generics.rel_eq ▸ block.generics,
    block.self, block.methods.map fun _ _ method => method.entry hB⟩) h.inherentImpls

end OfCrate

theorem Table.Rel.get? {α β : Type} {P : α → β → Prop} {a : Table α} {b : Table β}
    (h : a.Rel P b) (key : String) : Option.Rel P (a.get? key) (b.get? key) := by
  induction h with
  | nil => exact .none
  | cons hab _ ih =>
      simp only [Table.get?, List.lookup_cons]
      split
      · exact .some hab
      · exact ih

theorem Index.findMethod?_related {P : ImplEntry → ImplEntry → Prop}
    {Q : FunctionEntry → FunctionEntry → Prop} {receiver : Ty}
    (fits : ∀ a b, P a b → a.self.fits receiver = b.self.fits receiver)
    (methods : ∀ a b, P a b → a.methods.Rel Q b.methods) {index index' : Index}
    (h : List.Forall₂ P index.impls index'.impls) (name : String) :
    Option.Rel (fun a b => P a.1 b.1 ∧ Q a.2 b.2) (index.findMethod? receiver name)
      (index'.findMethod? receiver name) := by
  refine findSome?_related (fun a b hab => ?_) h
  rw [fits a b hab]
  split
  · have hmethod := (methods a b hab).get? name
    generalize a.methods.get? name = x at hmethod ⊢
    generalize b.methods.get? name = y at hmethod ⊢
    cases hmethod with
    | none => exact .none
    | some hmethod => exact .some ⟨hab, hmethod⟩
  · exact .none

namespace Index.Rel

variable {R : Ty → Ty → Prop} {index index' : Index}

theorem getFunction? (h : index.Rel R index') (name : ItemName) :
    Option.Rel (FunctionEntry.Rel R) (index.getFunction? name)
      (index'.getFunction? name) :=
  lookup_related h.functions name

theorem findMethod? (h : index.Rel R index') (receiver : Ty) (name : String) :
    Option.Rel (fun a b => a.1.Rel R b.1 ∧ a.2.Rel R b.2)
      (index.findMethod? receiver name) (index'.findMethod? receiver name) :=
  Index.findMethod?_related (fun _ _ hab => by rw [hab.self]) (fun _ _ hab => hab.methods)
    h.impls name

theorem resolve (h : index.Rel R index') {origin : Path} {f : FunctionEntry}
    {s : Subst} (hresolve : index.resolve origin = .ok (f, s)) :
    ∃ g, index'.resolve origin = .ok (g, s) ∧ f.Rel R g := by
  cases origin with
  | item target =>
      obtain ⟨name, args⟩ := target
      have hfunction := h.getFunction? name
      simp only [Index.resolve] at hresolve ⊢
      generalize index.getFunction? name = x at hfunction hresolve
      generalize index'.getFunction? name = y at hfunction
      cases hfunction with
      | none => cases hresolve
      | some hfg =>
          cases hresolve
          exact ⟨_, rfl, hfg⟩
  | inherent self name args =>
      have hmethod := h.findMethod? self name
      simp only [Index.resolve] at hresolve ⊢
      generalize index.findMethod? self name = x at hmethod hresolve
      generalize index'.findMethod? self name = y at hmethod
      cases hmethod with
      | none => cases hresolve
      | @some a b hab =>
          obtain ⟨⟨generics, pattern, methods⟩, f'⟩ := a
          obtain ⟨⟨generics', pattern', methods'⟩, g⟩ := b
          obtain ⟨⟨rfl, rfl, -⟩, hfg⟩ := hab
          simp only at hresolve ⊢
          split at hresolve
          · cases hresolve
          · simp only [except_bind_ok_iff] at hresolve ⊢
            obtain ⟨impl, himpl, ⟨⟩⟩ := hresolve
            exact ⟨g, ⟨impl, himpl, rfl⟩, hfg⟩
  | known => cases hresolve
  | unknown => cases hresolve

end Index.Rel

end Unerase
