import Unerase.Expansion.Index
import Unerase.Proofs.Matching.Binding

namespace Unerase

/-- The block may apply to the receiver and has a method of the given name. -/
def ImplEntry.Answers (block : ImplEntry) (receiver : Ty) (name : String) : Prop :=
  block.self.fits receiver = true ∧ (block.methods.get? name).isSome = true

/-- For every receiver and every name, at most one block answers. -/
def Index.Unambiguous (index : Index) : Prop :=
  ∀ receiver name, index.impls.Pairwise fun a b =>
    ¬ (a.Answers receiver name ∧ b.Answers receiver name)

/-- The block that is found for a receiver is found for every instance of it. -/
def Index.Stable (index : Index) : Prop :=
  ∀ (s : Subst) (receiver receiver' : Ty) (name : String) (found : ImplEntry × FunctionEntry),
    receiver.subst s = .ok receiver' → index.findMethod? receiver name = some found →
    index.findMethod? receiver' name = some found

theorem findSome?_eq_some_of_pairwise {α β : Type} {g : α → Option β} {as : List α}
    (has : as.Pairwise fun a b => ¬ ((g a).isSome = true ∧ (g b).isSome = true))
    {a : α} {b : β} (ha : a ∈ as) (hb : g a = some b) : as.findSome? g = some b := by
  induction as with
  | nil => cases ha
  | cons c as ih =>
      obtain ⟨hc, has⟩ := List.pairwise_cons.1 has
      rcases List.mem_cons.1 ha with rfl | ha
      · simp [hb]
      · have hnone : g c = none := by
          cases hgc : g c with
          | none => rfl
          | some => exact absurd ⟨by simp [hgc], by simp [hb]⟩ (hc a ha)
        rw [List.findSome?_cons, hnone]
        exact ih has ha

namespace Index

variable {index : Index} {s s₁ : Subst} {origin origin' : Path} {i : Nat}
  {f : FunctionEntry} {t u : Ty}

theorem exists_of_findMethod? {receiver : Ty} {name : String} {block : ImplEntry}
    (h : index.findMethod? receiver name = some (block, f)) :
    ∃ before after, index.impls = before ++ block :: after ∧
      block.self.fits receiver = true ∧ block.methods.get? name = some f ∧
      ∀ earlier ∈ before, ¬ earlier.Answers receiver name := by
  obtain ⟨before, candidate, after, himpls, hfound, hbefore⟩ :=
    List.findSome?_eq_some_iff.1 h
  split at hfound
  · rename_i hfits
    obtain ⟨g, hg, ⟨⟩⟩ := Option.map_eq_some_iff.1 hfound
    refine ⟨before, after, himpls, hfits, hg, fun earlier hearlier hanswers => ?_⟩
    obtain ⟨hfits', hmethod⟩ := hanswers
    have hnone := hbefore earlier hearlier
    rw [if_pos hfits', Option.map_eq_none_iff] at hnone
    rw [hnone] at hmethod
    cases hmethod
  · cases hfound

theorem findMethod?_eq_some_iff {receiver : Ty} {name : String} {block : ImplEntry}
    (h : index.Unambiguous) :
    index.findMethod? receiver name = some (block, f) ↔
      block ∈ index.impls ∧ block.self.fits receiver = true ∧
        block.methods.get? name = some f := by
  constructor
  · intro hfind
    obtain ⟨before, after, himpls, hfits, hf, -⟩ := exists_of_findMethod? hfind
    exact ⟨by simp [himpls], hfits, hf⟩
  · rintro ⟨hblock, hfits, hf⟩
    refine findSome?_eq_some_of_pairwise ((h receiver name).imp ?_) hblock
      (by simp [hfits, hf])
    rintro a b hab ⟨ha, hb⟩
    refine hab ⟨?_, ?_⟩
    · split at ha <;> simp_all [ImplEntry.Answers]
    · split at hb <;> simp_all [ImplEntry.Answers]

/-- An earlier block might fit an instance alone, but then two blocks answer. -/
theorem Unambiguous.stable (h : index.Unambiguous) : index.Stable := by
  rintro s receiver receiver' name ⟨block, f⟩ hreceiver hfind
  obtain ⟨hblock, hfits, hmethod⟩ := (findMethod?_eq_some_iff h).1 hfind
  exact (findMethod?_eq_some_iff h).2 ⟨hblock, Ty.fits_subst hreceiver hfits, hmethod⟩

/-- At an instance of an origin the same function is found, with instances of the
values. -/
theorem resolve_subst (h : index.Stable) (horigin : origin.subst s = .ok origin')
    (hresolve : index.resolve origin = .ok (f, s₁)) :
    ∃ s₂, index.resolve origin' = .ok (f, s₂) ∧ s₁.Then s s₂ := by
  cases origin with
  | item target =>
      obtain ⟨name, args⟩ := target
      simp only [Path.subst, ItemRef.subst, except_bind_ok_iff] at horigin
      obtain ⟨r, ⟨args', hargs, ⟨⟩⟩, ⟨⟩⟩ := horigin
      simp only [resolve] at hresolve ⊢
      split at hresolve
      · cases hresolve
        exact ⟨_, rfl, .none, .none, .some hargs⟩
      · cases hresolve
  | inherent self name args =>
      simp only [Path.subst, except_bind_ok_iff] at horigin
      obtain ⟨self', hself, args', hargs, ⟨⟩⟩ := horigin
      simp only [resolve] at hresolve ⊢
      split at hresolve
      · cases hresolve
      · rename_i block g hfind
        have hfind' := h s self self' name _ hself hfind
        split at hresolve
        · cases hresolve
        · rename_i bound hmatch
          simp only [except_bind_ok_iff] at hresolve
          obtain ⟨impl, himpl, ⟨⟩⟩ := hresolve
          obtain ⟨bound', hmatch', hbound⟩ :=
            ImplBinding.matchWith_subst (.inherent self' name args') hself hmatch
          obtain ⟨impl', himpl', hsubst⟩ :=
            ImplBinding.toArgs_subst (.inherent self' name args') hbound himpl
          refine ⟨.ofInherent self' impl' args', ?_, .some hself, .some hsubst,
            .some hargs⟩
          simp [hfind', hmatch', himpl', bind, Except.bind]
  | known => cases hresolve
  | unknown => cases hresolve

theorem template_ok_iff {k : TemplateKey} :
    index.template k = .ok (t, s) ↔ ∃ f, index.resolve k.origin = .ok (f, s) ∧
      f.templates[k.index]? = some t := by
  simp only [template, except_bind_ok_iff, Prod.exists]
  constructor
  · rintro ⟨f, s', hresolve, h⟩
    split at h
    · rename_i htemplate
      cases h
      exact ⟨f, hresolve, htemplate⟩
    · cases h
  · rintro ⟨f, hresolve, htemplate⟩
    exact ⟨f, s, hresolve, by simp [htemplate]⟩

theorem unfold_ok_iff {k : TemplateKey} :
    index.unfold k = .ok u ↔ ∃ f s t, index.resolve k.origin = .ok (f, s) ∧
      f.templates[k.index]? = some t ∧ t.subst s = .ok u := by
  simp only [unfold, except_bind_ok_iff, Prod.exists, template_ok_iff]
  constructor
  · rintro ⟨t, s, ⟨f, hresolve, htemplate⟩, h⟩
    simp only [Subst.instantiate] at h
    cases hsubst : t.subst s with
    | error => simp [hsubst] at h
    | ok v =>
        simp only [hsubst] at h
        cases h
        exact ⟨f, s, t, hresolve, htemplate, hsubst⟩
  · rintro ⟨f, s, t, hresolve, htemplate, hsubst⟩
    exact ⟨t, s, ⟨f, hresolve, htemplate⟩, by simp [Subst.instantiate, hsubst]⟩

/-- What stands behind an instance of an origin is an instance of what stands behind
the origin. -/
theorem unfold_subst (h : index.Stable) (horigin : origin.subst s = .ok origin')
    (hunfold : index.unfold ⟨origin, i⟩ = .ok t) :
    ∃ u, index.unfold ⟨origin', i⟩ = .ok u ∧ t.subst s = .ok u := by
  obtain ⟨f, s₁, template, hresolve, htemplate, hsubst⟩ := unfold_ok_iff.1 hunfold
  obtain ⟨s₂, hresolve', hthen⟩ := resolve_subst h horigin hresolve
  obtain ⟨u, hu, hsubst'⟩ := Ty.subst_then hthen hsubst
  exact ⟨u, unfold_ok_iff.2 ⟨f, s₂, template, hresolve', htemplate, hsubst'⟩, hu⟩

theorem resolve_error {fault : Fault ExpansionError}
    (h : index.resolve origin = .error fault) : fault.IsLocal := by
  cases origin with
  | item target =>
      obtain ⟨name, args⟩ := target
      rw [resolve] at h
      split at h
      · cases h
      · cases h
        exact ⟨_, rfl, trivial⟩
  | inherent self name args =>
      rw [resolve] at h
      split at h
      · cases h
        exact ⟨_, rfl, trivial⟩
      · split at h
        · rename_i e _ hmatch
          cases h
          exact ⟨e, rfl, ImplBinding.matchWith_error hmatch⟩
        · rename_i bound hmatch
          rcases except_bind_error_iff.1 h with hargs | ⟨impl, -, ⟨⟩⟩
          exact ImplBinding.toArgs_error (ImplBinding.matchWith_length hmatch) hargs
  | known | unknown =>
      cases h
      exact ⟨_, rfl, trivial⟩

theorem unfold_error {k : TemplateKey} {fault : Fault ExpansionError}
    (h : index.unfold k = .error fault) : fault.IsLocal := by
  simp only [unfold, template, except_bind_error_iff, Prod.exists] at h
  rcases h with (hresolve | ⟨f, s, -, htemplate⟩) | ⟨t, s, -, hinstantiate⟩
  · exact resolve_error hresolve
  · split at htemplate
    · cases htemplate
    · cases htemplate
      exact ⟨_, rfl, trivial⟩
  · cases hsubst : t.subst s with
    | ok u =>
        rw [Subst.instantiate, hsubst] at hinstantiate
        cases hinstantiate
    | error p =>
        rw [Subst.instantiate, hsubst] at hinstantiate
        cases hinstantiate
        exact ⟨_, rfl, trivial⟩

end Index

/-- No value has a placeholder. -/
def Subst.Free (s : Subst) : Prop :=
  ∀ p t, s.getType? p = some t → t.hasErased = false

theorem Args.hasErased_of_getElem? {a : Args} (h : a.hasErased = false) {i : Nat}
    {t : Ty} (ht : a.types[i]? = some t) : t.hasErased = false := by
  obtain ⟨types, consts⟩ := a
  rw [Args.hasErased, Ty.anyErased_eq_any] at h
  simpa using List.any_eq_false.1 h t (List.mem_of_getElem? ht)

theorem Index.resolve_free {index : Index} {origin : Path} {f : FunctionEntry}
    {s : Subst} (horigin : origin.hasErased = false)
    (hresolve : index.resolve origin = .ok (f, s)) : s.Free := by
  rintro ⟨name, slot⟩ t ht
  cases origin with
  | item target =>
      obtain ⟨itemName, args⟩ := target
      simp only [resolve] at hresolve
      split at hresolve
      · cases hresolve
        cases slot with
        | method i =>
            have hargs : args.hasErased = false := by
              simpa [Path.hasErased, ItemRef.hasErased] using horigin
            exact Args.hasErased_of_getElem? hargs ht
        | _ => cases ht
      · cases hresolve
  | inherent self method args =>
      simp only [Path.hasErased, Bool.or_eq_false_iff] at horigin
      simp only [resolve] at hresolve
      split at hresolve
      · cases hresolve
      · split at hresolve
        · cases hresolve
        · rename_i bound hmatch
          simp only [except_bind_ok_iff] at hresolve
          obtain ⟨impl, himpl, ⟨⟩⟩ := hresolve
          cases slot with
          | self =>
              cases ht
              exact horigin.1
          | impl i =>
              have hbound := ImplBinding.matchWith_free horigin.1 hmatch
              exact Args.hasErased_of_getElem? (ImplBinding.toArgs_free hbound himpl) ht
          | method i => exact Args.hasErased_of_getElem? horigin.2 ht
  | known => cases hresolve
  | unknown => cases hresolve

end Unerase
