import Unerase.Proofs.Expansion.Resolution
import Unerase.Proofs.Matching.Bounds
import Unerase.Proofs.Relation.Index

namespace Unerase

/-! ### Substitution -/

/-- Instances of the two types differ in bounds only. -/
def Ty.InstancesAlike (s : Subst) (t t' : Ty) : Prop :=
  ∀ u u', t.subst s = .ok u → t'.subst s = .ok u' → u.SameButBounds u'

section Substitution

variable {s : Subst} {R : Ty → Ty → Prop} (h : ∀ t t', R t t' → t.InstancesAlike s t')

include h

theorem Ty.substList_alike {ts ts' us us' : List Ty} (hts : List.Forall₂ R ts ts')
    (hus : Ty.substList s ts = .ok us) (hus' : Ty.substList s ts' = .ok us') :
    List.Forall₂ Ty.SameButBounds us us' :=
  forall₂_related (fun t t' u u' ht hu hu' => h t t' ht u u' hu hu') hts
    (Ty.forall₂_of_substList hus) (Ty.forall₂_of_substList hus')

theorem Args.Rel.subst {a a' b b' : Args} (ha : a.Rel R a') (hb : a.subst s = .ok b)
    (hb' : a'.subst s = .ok b') : b.Rel Ty.SameButBounds b' := by
  obtain ⟨htypes⟩ := ha
  simp only [Args.subst, except_bind_ok_iff] at hb hb'
  obtain ⟨us, hus, cs, hcs, ⟨⟩⟩ := hb
  obtain ⟨us', hus', cs', hcs', ⟨⟩⟩ := hb'
  cases hcs.symm.trans hcs'
  exact .intro (Ty.substList_alike h htypes hus hus')

theorem ItemRef.Rel.subst {r r' q q' : ItemRef} (hr : r.Rel R r') (hq : r.subst s = .ok q)
    (hq' : r'.subst s = .ok q') : q.Rel Ty.SameButBounds q' := by
  obtain ⟨hargs⟩ := hr
  simp only [ItemRef.subst, except_bind_ok_iff] at hq hq'
  obtain ⟨a, ha, ⟨⟩⟩ := hq
  obtain ⟨a', ha', ⟨⟩⟩ := hq'
  exact .intro (hargs.subst h ha ha')

theorem ItemRef.substList_alike {rs rs' qs qs' : List ItemRef}
    (hrs : List.Forall₂ (ItemRef.Rel R) rs rs') (hqs : ItemRef.substList s rs = .ok qs)
    (hqs' : ItemRef.substList s rs' = .ok qs') :
    List.Forall₂ (ItemRef.Rel Ty.SameButBounds) qs qs' :=
  forall₂_related (fun _ _ _ _ hr hq hq' => hr.subst h hq hq') hrs
    (ItemRef.forall₂_of_substList hqs) (ItemRef.forall₂_of_substList hqs')

theorem Path.Rel.subst {p p' q q' : Path} (hp : p.Rel R p') (hq : p.subst s = .ok q)
    (hq' : p'.subst s = .ok q') : q.Rel Ty.SameButBounds q' := by
  cases hp with
  | item target =>
      simp only [Path.subst, except_bind_ok_iff] at hq hq'
      obtain ⟨r, hr, ⟨⟩⟩ := hq
      obtain ⟨r', hr', ⟨⟩⟩ := hq'
      exact .item (target.subst h hr hr')
  | inherent self args =>
      simp only [Path.subst, except_bind_ok_iff] at hq hq'
      obtain ⟨u, hu, a, ha, ⟨⟩⟩ := hq
      obtain ⟨u', hu', a', ha', ⟨⟩⟩ := hq'
      exact .inherent (h _ _ self u u' hu hu') (args.subst h ha ha')
  | known self trait args =>
      simp only [Path.subst, except_bind_ok_iff] at hq hq'
      obtain ⟨u, hu, r, hr, a, ha, ⟨⟩⟩ := hq
      obtain ⟨u', hu', r', hr', a', ha', ⟨⟩⟩ := hq'
      exact .known (h _ _ self u u' hu hu') (trait.subst h hr hr') (args.subst h ha ha')
  | unknown self args =>
      simp only [Path.subst, except_bind_ok_iff] at hq hq'
      obtain ⟨u, hu, a, ha, ⟨⟩⟩ := hq
      obtain ⟨u', hu', a', ha', ⟨⟩⟩ := hq'
      exact .unknown (h _ _ self u u' hu hu') (args.subst h ha ha')

theorem Ty.Parts.subst {t t' : Ty} (ht : Ty.Parts R t t') : t.InstancesAlike s t' := by
  intro u u' hu hu'
  cases ht with
  | never | prim | param =>
      cases hu.symm.trans hu'
      exact .refl _
  | path p =>
      simp only [Ty.subst, except_bind_ok_iff] at hu hu'
      obtain ⟨q, hq, ⟨⟩⟩ := hu
      obtain ⟨q', hq', ⟨⟩⟩ := hu'
      exact .parts (.path (p.subst h hq hq'))
  | dyn trait markers =>
      simp only [Ty.subst, except_bind_ok_iff] at hu hu'
      obtain ⟨r, hr, rs, hrs, ⟨⟩⟩ := hu
      obtain ⟨r', hr', rs', hrs', ⟨⟩⟩ := hu'
      exact .parts (.dyn (trait.subst h hr hr') (ItemRef.substList_alike h markers hrs hrs'))
  | array elem =>
      simp only [Ty.subst, except_bind_ok_iff] at hu hu'
      obtain ⟨v, hv, c, hc, ⟨⟩⟩ := hu
      obtain ⟨v', hv', c', hc', ⟨⟩⟩ := hu'
      cases hc.symm.trans hc'
      exact .parts (.array (h _ _ elem v v' hv hv'))
  | slice elem =>
      simp only [Ty.subst, except_bind_ok_iff] at hu hu'
      obtain ⟨v, hv, ⟨⟩⟩ := hu
      obtain ⟨v', hv', ⟨⟩⟩ := hu'
      exact .parts (.slice (h _ _ elem v v' hv hv'))
  | tuple elems =>
      simp only [Ty.subst, except_bind_ok_iff] at hu hu'
      obtain ⟨vs, hvs, ⟨⟩⟩ := hu
      obtain ⟨vs', hvs', ⟨⟩⟩ := hu'
      exact .parts (.tuple (Ty.substList_alike h elems hvs hvs'))
  | ref target =>
      simp only [Ty.subst, except_bind_ok_iff] at hu hu'
      obtain ⟨v, hv, ⟨⟩⟩ := hu
      obtain ⟨v', hv', ⟨⟩⟩ := hu'
      exact .parts (.ref (h _ _ target v v' hv hv'))
  | ptr target =>
      simp only [Ty.subst, except_bind_ok_iff] at hu hu'
      obtain ⟨v, hv, ⟨⟩⟩ := hu
      obtain ⟨v', hv', ⟨⟩⟩ := hu'
      exact .parts (.ptr (h _ _ target v v' hv hv'))
  | fn args result =>
      simp only [Ty.subst, except_bind_ok_iff] at hu hu'
      obtain ⟨vs, hvs, v, hv, ⟨⟩⟩ := hu
      obtain ⟨vs', hvs', v', hv', ⟨⟩⟩ := hu'
      exact .parts (.fn (Ty.substList_alike h args hvs hvs') (h _ _ result v v' hv hv'))

end Substitution

theorem Ty.SameButBounds.subst {s : Subst} {t t' u u' : Ty} (h : t.SameButBounds t')
    (hu : t.subst s = .ok u) (hu' : t'.subst s = .ok u') : u.SameButBounds u' := by
  refine h.induct (P := Ty.InstancesAlike s) ?parts ?erased u u' hu hu'
  case parts =>
    intro t t' ht
    exact ht.subst fun _ _ ih => ih
  case erased =>
    intro origin origin' index bounds bounds' horigin u u' hu hu'
    simp only [Ty.subst, except_bind_ok_iff] at hu hu'
    obtain ⟨p, hp, qs, -, ⟨⟩⟩ := hu
    obtain ⟨p', hp', qs', -, ⟨⟩⟩ := hu'
    exact .erased index qs qs' (horigin.subst (fun _ _ ih => ih) hp hp')

/-! ### Indices -/

/-- The templates differ in bounds only, whatever the parameters are. -/
def FunctionEntry.SameButBounds (f g : FunctionEntry) : Prop :=
  List.Forall₂ Ty.SameButBounds f.templates g.templates

/-- The blocks have equally many type parameters, self types that differ in bounds only,
and methods that do so. -/
structure ImplEntry.SameButBounds (a b : ImplEntry) : Prop where
  parameters : a.generics.types.length = b.generics.types.length
  self : a.self.SameButBounds b.self
  methods : a.methods.Rel FunctionEntry.SameButBounds b.methods

/-- The indices are about the same functions and impl blocks. -/
structure Index.SameButBounds (index index' : Index) : Prop where
  functions : List.Forall₂ (fun a b => a.1 = b.1 ∧ a.2.SameButBounds b.2)
    index.functions index'.functions
  impls : List.Forall₂ ImplEntry.SameButBounds index.impls index'.impls

section OfCrate

variable {B : Body → Body → Prop}
  (hB : ∀ b d, B b d → List.Forall₂ Ty.SameButBounds b.templates d.templates)

include hB

theorem Function.Rel.sameButBounds {f g : Function} (h : f.Rel Ty.SameButBounds B g) :
    (FunctionEntry.ofFunction f).SameButBounds (.ofFunction g) := by
  obtain ⟨generics, args, result, body?⟩ := f
  obtain ⟨generics', args', result', body'?⟩ := g
  obtain ⟨-, -, -, hbody⟩ := h
  cases hbody with
  | none => exact .nil
  | some hbody => exact hB _ _ hbody

/-- Crates that differ in bounds only have indices that do so. -/
theorem Crate.Rel.sameButBounds {c d : Crate} (h : c.Rel Ty.SameButBounds B d) :
    (Index.ofCrate c).SameButBounds (.ofCrate d) where
  functions := List.rel_map (fun _ _ hf => ⟨hf.1, hf.2.sameButBounds hB⟩) h.functions
  impls := List.rel_map (fun _ _ block => ⟨block.generics.types.length_eq, block.self,
    block.methods.map fun _ _ method => method.sameButBounds hB⟩) h.inherentImpls

end OfCrate

namespace Index.SameButBounds

variable {index index' : Index} (h : index.SameButBounds index')

include h

theorem findMethod? (receiver : Ty) (name : String) :
    Option.Rel (fun a b => a.1.SameButBounds b.1 ∧ a.2.SameButBounds b.2)
      (index.findMethod? receiver name) (index'.findMethod? receiver name) :=
  Index.findMethod?_related (fun _ _ hab => hab.self.fits receiver)
    (fun _ _ hab => hab.methods) h.impls name

theorem resolve {origin : Path} {f g : FunctionEntry} {s s' : Subst}
    (hf : index.resolve origin = .ok (f, s)) (hg : index'.resolve origin = .ok (g, s')) :
    f.SameButBounds g ∧ s = s' := by
  cases origin with
  | item target =>
      obtain ⟨name, args⟩ := target
      have hfunction : Option.Rel FunctionEntry.SameButBounds (index.getFunction? name)
          (index'.getFunction? name) := lookup_related h.functions name
      simp only [Index.resolve] at hf hg
      generalize index.getFunction? name = x at hfunction hf
      generalize index'.getFunction? name = y at hfunction hg
      cases hfunction with
      | none => cases hf
      | some hfg =>
          cases hf
          cases hg
          exact ⟨hfg, rfl⟩
  | inherent self name args =>
      have hmethod := h.findMethod? self name
      simp only [Index.resolve] at hf hg
      generalize index.findMethod? self name = x at hmethod hf
      generalize index'.findMethod? self name = y at hmethod hg
      cases hmethod with
      | none => cases hf
      | @some a b hab =>
          obtain ⟨⟨generics, pattern, methods⟩, f'⟩ := a
          obtain ⟨⟨generics', pattern', methods'⟩, g'⟩ := b
          obtain ⟨⟨hparameters, hself, -⟩, hfg⟩ := hab
          have hunbound : ImplBinding.unbound generics = ImplBinding.unbound generics' :=
            congrArg (List.replicate · none) hparameters
          simp only [hunbound] at hf hg
          split at hf
          · cases hf
          · rename_i hmatch
            split at hg
            · cases hg
            · rename_i hmatch'
              simp only [except_bind_ok_iff] at hf hg
              obtain ⟨impl, himpl, ⟨⟩⟩ := hf
              obtain ⟨impl', himpl', ⟨⟩⟩ := hg
              cases hself.binding hmatch hmatch'
              cases ImplBinding.toArgs_unique himpl himpl'
              exact ⟨hfg, rfl⟩
  | known => cases hf
  | unknown => cases hf

theorem unfold {k : TemplateKey} {t t' : Ty} (ht : index.unfold k = .ok t)
    (ht' : index'.unfold k = .ok t') : t.SameButBounds t' := by
  obtain ⟨f, s, template, hf, htemplate, hsubst⟩ := Index.unfold_ok_iff.1 ht
  obtain ⟨g, s', template', hg, htemplate', hsubst'⟩ := Index.unfold_ok_iff.1 ht'
  obtain ⟨hfg, rfl⟩ := h.resolve hf hg
  have htemplates := forall₂_getElem? hfg k.index
  rw [htemplate, htemplate'] at htemplates
  cases htemplates with
  | some hrel => exact hrel.subst hsubst hsubst'

end Index.SameButBounds

end Unerase
