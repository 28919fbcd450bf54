import Unerase.Proofs.Expansion.Instantiation
import Unerase.Proofs.Expansion.Reference
import Unerase.Proofs.Relation.Index

/-!
Signatures and bodies agree. The second pass looks templates up that the first pass has
expanded with their parameters still open. In a crate whose impl blocks do not compete
this makes no difference: a type in a signature becomes what it expands to with the
templates of the crate as it was, just like a type in a body.
-/

namespace Unerase

/-- For every receiver and every name, at most one impl block of the crate answers. -/
def Crate.Unambiguous (c : Crate) : Prop :=
  (Index.ofCrate c).Unambiguous

/-- With templates that have been expanded before, a type expands to the same type. -/
theorem Expands.agree {index index' : Index} (hindex : index.Stable)
    (hrel : index.Rel (Expands index) index') {t u v : Ty} (hu : Expands index t u)
    (hv : Expands index' t v) : u = v := by
  refine hu.induct (P := fun t u => ∀ v, Expands index' t v → u = v) ?parts
    ?placeholder v hv
  case parts =>
    intro t u htu v hv
    cases hv with
    | parts hv => exact htu.unique (fun _ _ v ih hv => ih.2 v hv) hv
    | placeholder => cases htu
  case placeholder =>
    intro origin origin' i bounds t u horigin hunfold hu _ v hv
    cases hv with
    | parts hparts => cases hparts
    | placeholder horigin' hunfold' hv =>
        cases horigin.unique (fun _ _ v ih hv => ih.2 v hv) horigin'
        obtain ⟨f, s, template, hresolve, htemplate, hsubst⟩ :=
          Index.unfold_ok_iff.1 hunfold
        obtain ⟨f', s', template', hresolve', htemplate', hsubst'⟩ :=
          Index.unfold_ok_iff.1 hunfold'
        obtain ⟨g, hg, hfg⟩ := hrel.resolve hresolve
        rw [hg] at hresolve'
        cases hresolve'
        -- The second template is what the first one expands to, parameters open.
        have htemplates := forall₂_getElem? hfg.templates i
        rw [htemplate, htemplate'] at htemplates
        obtain ⟨htemplates⟩ := htemplates
        have hs : s.Free :=
          Index.resolve_free (horigin.hasErased fun _ _ ih => ih.1.hasErased) hresolve
        -- So its instance is the expansion of the other instance already.
        have hinstance := htemplates.commutes hindex hs _ u hsubst hu
        rw [hsubst'] at hinstance
        cases hinstance
        exact (hv.eq_of_hasErased hu.hasErased).symm

/-- Every type in a signature that expands with the templates of the crate before both
passes becomes that expansion, and so does every type in a body. -/
theorem Crate.expand_agrees {options : ExpansionOptions} {c c' : Crate}
    {tally : ExpansionTally} (hc : c.Unambiguous)
    (h : c.expand options = .ok (c', tally)) :
    c.Rel (fun t t' => ∀ u, Expands (Index.ofCrate c) t u → t' = u)
      (Body.Rel (Expands (Index.ofCrate c))) c' := by
  obtain ⟨c₁, first, second, hfirst, hsecond, -⟩ := expand_ok_iff.1 h
  have hbodies := Expansion.bodies_rel hfirst
  have hindex : (Index.ofCrate c).Rel (Expands (Index.ofCrate c)) (.ofCrate c₁) :=
    hbodies.index fun _ _ hb => hb.1.templates
  have hsignatures := Expansion.signatures_rel hbodies hsecond
  refine hsignatures.mono (fun t t' ht u hu => ?_) fun _ _ hb => hb.1
  exact (hu.agree (Index.Unambiguous.stable hc) hindex ht).symm

theorem Crate.expand_agrees_sample :
    Sample.before.Unambiguous ∧
      Sample.before.expand {} = .ok (Sample.after, ⟨7, 3, 4⟩) ∧
      Sample.before.Rel
        (fun t t' => ∀ u, Expands (Index.ofCrate Sample.before) t u → t' = u)
        (Body.Rel (Expands (Index.ofCrate Sample.before))) Sample.after :=
  have hc : Sample.before.Unambiguous := fun _ _ => List.pairwise_singleton _ _
  have hexpand : Sample.before.expand {} = .ok (Sample.after, ⟨7, 3, 4⟩) := rfl
  ⟨hc, hexpand, expand_agrees hc hexpand⟩

end Unerase
