import Unerase.Proofs.Matching.Binding
import Unerase.Proofs.Relation.Bounds

namespace Unerase

namespace Finding

/-- Bindings to related types, or disagreements about whatever types. -/
inductive Alike (S : Ty → Ty → Prop) : Finding → Finding → Prop
  | type (p : Param) {t t' : Ty} : S t t' → Alike S (.type p t) (.type p t')
  | const (p : Param) (c : Const) : Alike S (.const p c) (.const p c)
  | clash (t u t' u' : Ty) : Alike S (.clash t u) (.clash t' u')

variable {S : Ty → Ty → Prop}

theorem alike_ite {c c' : Prop} [Decidable c] [Decidable c'] {clash clash' : Finding}
    {fs fs' : List Finding} (hc : c ↔ c') (hclash : clash.Alike S clash')
    (hfs : List.Forall₂ (Alike S) fs fs') :
    List.Forall₂ (Alike S) (if c then fs else [clash]) (if c' then fs' else [clash']) := by
  by_cases h : c
  · rwa [if_pos h, if_pos (hc.1 h)]
  · rw [if_neg h, if_neg (hc.not.1 h)]
    exact .cons hclash .nil

end Finding

section Findings

open Finding

variable {R S : Ty → Ty → Prop}

theorem Const.findings_alike {clash clash' : Finding} (hclash : clash.Alike S clash')
    (a b : Const) : List.Forall₂ (Alike S) (a.findings clash b) (a.findings clash' b) := by
  cases a with
  | param p => exact .cons (.const p b) .nil
  | lit a => exact alike_ite Iff.rfl hclash .nil

theorem Const.findingsOfList_alike {clash clash' : Finding} (hclash : clash.Alike S clash') :
    ∀ as bs : List Const, List.Forall₂ (Alike S) (Const.findingsOfList clash as bs)
      (Const.findingsOfList clash' as bs)
  | [], _ => by simp [Const.findingsOfList]
  | _ :: _, [] => by simp [Const.findingsOfList]
  | a :: as, b :: bs =>
      List.rel_append (Const.findings_alike hclash a b)
        (Const.findingsOfList_alike hclash as bs)

variable (h : ∀ t t', R t t' → ∀ u u', S u u' →
    List.Forall₂ (Alike S) (t.findings u) (t'.findings u'))

include h

theorem Ty.findingsOfList_alike {ts ts' us us' : List Ty} (hts : List.Forall₂ R ts ts')
    (hus : List.Forall₂ S us us') :
    List.Forall₂ (Alike S) (Ty.findingsOfList ts us) (Ty.findingsOfList ts' us') := by
  induction hts generalizing us us' with
  | nil => simp [Ty.findingsOfList]
  | cons ht _ ih =>
      cases hus with
      | nil => simp [Ty.findingsOfList]
      | cons hu hus => exact List.rel_append (h _ _ ht _ _ hu) (ih hus)

section Clash

variable {clash clash' : Finding} (hclash : clash.Alike S clash')

include hclash

theorem Args.Rel.findings {a a' b b' : Args} (ha : a.Rel R a') (hb : b.Rel S b') :
    List.Forall₂ (Alike S) (a.findings clash b) (a'.findings clash' b') := by
  obtain ⟨htypes⟩ := ha
  obtain ⟨htypes'⟩ := hb
  simp only [Args.findings]
  refine alike_ite (by rw [htypes.length_eq, htypes'.length_eq]) hclash ?_
  exact List.rel_append (Ty.findingsOfList_alike h htypes htypes')
    (Const.findingsOfList_alike hclash _ _)

theorem ItemRef.Rel.findings {r r' s s' : ItemRef} (hr : r.Rel R r') (hs : s.Rel S s') :
    List.Forall₂ (Alike S) (r.findings clash s) (r'.findings clash' s') := by
  obtain ⟨hargs⟩ := hr
  obtain ⟨hargs'⟩ := hs
  exact alike_ite Iff.rfl hclash (hargs.findings h hclash hargs')

theorem ItemRef.findingsOfList_alike {rs rs' ss ss' : List ItemRef}
    (hrs : List.Forall₂ (ItemRef.Rel R) rs rs') (hss : List.Forall₂ (ItemRef.Rel S) ss ss') :
    List.Forall₂ (Alike S) (ItemRef.findingsOfList clash rs ss)
      (ItemRef.findingsOfList clash' rs' ss') := by
  induction hrs generalizing ss ss' with
  | nil => simp [ItemRef.findingsOfList]
  | cons hr _ ih =>
      cases hss with
      | nil => simp [ItemRef.findingsOfList]
      | cons hs hss => exact List.rel_append (hr.findings h hclash hs) (ih hss)

theorem Path.Rel.findings {p p' q q' : Path} (hp : p.Rel R p') (hq : q.Rel S q') :
    List.Forall₂ (Alike S) (p.findings clash q) (p'.findings clash' q') := by
  cases hp with
  | item target =>
      cases hq with
      | item target' => exact target.findings h hclash target'
      | _ => exact .cons hclash .nil
  | inherent self args =>
      cases hq with
      | inherent self' args' =>
          exact alike_ite Iff.rfl hclash
            (List.rel_append (h _ _ self _ _ self') (args.findings h hclash args'))
      | _ => exact .cons hclash .nil
  | known self trait args =>
      cases hq with
      | known self' trait' args' =>
          refine alike_ite Iff.rfl hclash
            (List.rel_append ?_ (args.findings h hclash args'))
          exact List.rel_append (h _ _ self _ _ self') (trait.findings h hclash trait')
      | _ => exact .cons hclash .nil
  | unknown self args =>
      cases hq with
      | unknown self' args' =>
          exact alike_ite Iff.rfl hclash
            (List.rel_append (h _ _ self _ _ self') (args.findings h hclash args'))
      | _ => exact .cons hclash .nil

end Clash

variable (hS : ∀ u u', S u u' → Ty.PartsButBounds S u u')

include hS

omit h in
theorem Ty.prim_of_partsButBounds (p : Prim) {u u' : Ty} (hu : S u u') :
    u = .prim p ↔ u' = .prim p := by
  obtain hparts | _ := hS u u' hu
  · cases hparts <;> simp
  · simp

theorem Ty.PartsButBounds.findings {t t' u u' : Ty} (ht : Ty.PartsButBounds R t t')
    (hu : S u u') : List.Forall₂ (Alike S) (t.findings u) (t'.findings u') := by
  have hconcrete := hS u u' hu
  cases ht with
  | erased index bounds bounds' horigin =>
      cases hconcrete with
      | parts hu => cases hu <;> exact .cons (.clash ..) .nil
      | erased _ _ _ horigin' =>
          exact alike_ite Iff.rfl (.clash ..) (horigin.findings h (.clash ..) horigin')
  | parts ht =>
      cases ht with
      | prim p => exact alike_ite (Ty.prim_of_partsButBounds hS p hu) (.clash ..) .nil
      | param p => exact .cons (.type p hu) .nil
      | never =>
          obtain hu | _ := hconcrete
          · cases hu with
            | never => exact .nil
            | _ => exact .cons (.clash ..) .nil
          · exact .cons (.clash ..) .nil
      | path p =>
          obtain hu | _ := hconcrete
          · cases hu with
            | path p' => exact p.findings h (.clash ..) p'
            | _ => exact .cons (.clash ..) .nil
          · exact .cons (.clash ..) .nil
      | dyn trait markers =>
          obtain hu | _ := hconcrete
          · cases hu with
            | dyn trait' markers' =>
                simp only [Ty.findings]
                refine alike_ite (by rw [markers.length_eq, markers'.length_eq]) (.clash ..) ?_
                exact List.rel_append (trait.findings h (.clash ..) trait')
                  (ItemRef.findingsOfList_alike h (.clash ..) markers markers')
            | _ => exact .cons (.clash ..) .nil
          · exact .cons (.clash ..) .nil
      | array elem =>
          obtain hu | _ := hconcrete
          · cases hu with
            | array elem' =>
                exact List.rel_append (h _ _ elem _ _ elem')
                  (Const.findings_alike (.clash ..) _ _)
            | _ => exact .cons (.clash ..) .nil
          · exact .cons (.clash ..) .nil
      | slice elem =>
          obtain hu | _ := hconcrete
          · cases hu with
            | slice elem' => exact h _ _ elem _ _ elem'
            | _ => exact .cons (.clash ..) .nil
          · exact .cons (.clash ..) .nil
      | tuple elems =>
          obtain hu | _ := hconcrete
          · cases hu with
            | tuple elems' =>
                simp only [Ty.findings]
                exact alike_ite (by rw [elems.length_eq, elems'.length_eq]) (.clash ..)
                  (Ty.findingsOfList_alike h elems elems')
            | _ => exact .cons (.clash ..) .nil
          · exact .cons (.clash ..) .nil
      | ref target =>
          obtain hu | _ := hconcrete
          · cases hu with
            | ref target' => exact alike_ite Iff.rfl (.clash ..) (h _ _ target _ _ target')
            | _ => exact .cons (.clash ..) .nil
          · exact .cons (.clash ..) .nil
      | ptr target =>
          obtain hu | _ := hconcrete
          · cases hu with
            | ptr target' => exact alike_ite Iff.rfl (.clash ..) (h _ _ target _ _ target')
            | _ => exact .cons (.clash ..) .nil
          · exact .cons (.clash ..) .nil
      | fn args result =>
          obtain hu | _ := hconcrete
          · cases hu with
            | fn args' result' =>
                simp only [Ty.findings]
                refine alike_ite (by rw [args.length_eq, args'.length_eq]) (.clash ..) ?_
                exact List.rel_append (Ty.findingsOfList_alike h args args')
                  (h _ _ result _ _ result')
            | _ => exact .cons (.clash ..) .nil
          · exact .cons (.clash ..) .nil

end Findings

namespace Ty.SameButBounds

variable {t t' : Ty} (h : t.SameButBounds t')

include h

/-- Types that differ in bounds only lead to the same findings, save that parameters line up
with types that are related as those in which the patterns are looked for. -/
theorem findings {S : Ty → Ty → Prop} (hS : ∀ u u', S u u' → Ty.PartsButBounds S u u')
    {u u' : Ty} (hu : S u u') :
    List.Forall₂ (Finding.Alike S) (t.findings u) (t'.findings u') := by
  refine h.induct (P := fun t t' => ∀ u u', S u u' →
    List.Forall₂ (Finding.Alike S) (t.findings u) (t'.findings u')) ?parts ?erased u u' hu
  case parts =>
    intro t t' ht u u' hu
    exact Ty.PartsButBounds.findings (fun _ _ ih => ih) hS (.parts ht) hu
  case erased =>
    intro origin origin' index bounds bounds' horigin u u' hu
    exact Ty.PartsButBounds.findings (fun _ _ ih => ih) hS
      (.erased index bounds bounds' horigin) hu

/-- Patterns that differ in bounds only fit the same types. -/
theorem fits (u : Ty) : t.fits u = t'.fits u := by
  have hanswer (f g : Finding) (hfg : f.Alike Eq g) :
      Fit.matcher.answer f = Fit.matcher.answer g := by
    cases hfg with
    | type p hsame => rw [hsame]
    | const => rfl
    | clash => rfl
  have hreplay : Fit.matcher.replay (t.findings u) = Fit.matcher.replay (t'.findings u) :=
    Run.lockstep_eq_iff.1 <| Matcher.replay_related
      (fun f g hfg => Run.lockstep_eq_iff.2 (hanswer f g hfg))
      (h.findings (fun _ _ => Ty.partsButBounds_of_eq) rfl)
  rw [Ty.fits, Ty.fits, Ty.matchWith_eq_replay, Ty.matchWith_eq_replay, hreplay]

theorem binding {origin : Path} {u : Ty} {bound bound₁ bound₂ : ImplBinding}
    (hmatch : t.matchWith (ImplBinding.matcher origin) u bound = (.ok (), bound₁))
    (hmatch' : t'.matchWith (ImplBinding.matcher origin) u bound = (.ok (), bound₂)) :
    bound₁ = bound₂ := by
  rw [Ty.matchWith_eq_replay] at hmatch hmatch'
  have hanswer (f g : Finding) (hfg : f.Alike Eq g) :
      (Run.concord ExpansionError ExpansionError fun _ => True).Holds Eq
        ((ImplBinding.matcher origin).answer f)
        fun _ => (ImplBinding.matcher origin).answer g := by
    cases hfg with
    | type p hsame => exact hsame ▸ Run.concord_refl _
    | const => exact Run.concord_refl _
    | clash => exact Run.concord_of_not_ok fun s a s₁ hstop => by cases hstop
  have hfindings := h.findings (fun _ _ => Ty.partsButBounds_of_eq) (rfl : u = u)
  exact (Matcher.replay_related hanswer hfindings bound trivial () bound₁ hmatch () bound₂
    hmatch').2.1

end Ty.SameButBounds

namespace ImplBinding

variable {origin : Path} {generics generics' : Generics} {bound : ImplBinding}

theorem types_ok {index : Nat} {ts : List Ty}
    (h : types origin generics index bound = .ok ts) : bound = ts.map some := by
  induction bound generalizing index ts with
  | nil =>
      cases h
      rfl
  | cons t? bound ih =>
      cases t? with
      | none =>
          rw [types] at h
          split at h <;> cases h
      | some t =>
          simp only [types, except_bind_ok_iff] at h
          obtain ⟨ts, hts, ⟨⟩⟩ := h
          rw [List.map_cons, ← ih hts]

theorem toArgs_unique {a b : Args} (ha : bound.toArgs origin generics = .ok a)
    (hb : bound.toArgs origin generics' = .ok b) : a = b := by
  simp only [toArgs, except_bind_ok_iff] at ha hb
  obtain ⟨ts, hts, ha⟩ := ha
  obtain ⟨us, hus, hb⟩ := hb
  have hmap : ts.map some = us.map some := (types_ok hts).symm.trans (types_ok hus)
  have hsame : ts = us := (List.map_inj_right fun _ _ => Option.some.inj).1 hmap
  split at ha <;> cases ha
  split at hb <;> cases hb
  rw [hsame]

end ImplBinding

end Unerase
