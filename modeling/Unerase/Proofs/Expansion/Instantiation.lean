import Unerase.Proofs.Expansion.Expands
import Unerase.Proofs.Expansion.Resolution

namespace Unerase

/-- Expanding an instance of the first type gives the same instance of the second. -/
def Commutes (index : Index) (s : Subst) (t u : Ty) : Prop :=
  ∀ t' u', t.subst s = .ok t' → Expands index t' u' → u.subst s = .ok u'

section Parts

variable {index : Index} {s : Subst} {R : Ty → Ty → Prop}
  (h : ∀ t u, R t u → Commutes index s t u)

include h

theorem Ty.substList_commutes {ts us : List Ty} (htu : List.Forall₂ R ts us)
    {ts' us' : List Ty} (hts : Ty.substList s ts = .ok ts')
    (hexpands : List.Forall₂ (Expands index) ts' us') :
    Ty.substList s us = .ok us' := by
  induction htu generalizing ts' us' with
  | nil =>
      cases hts
      cases hexpands
      rfl
  | cons htu _ ih =>
      simp only [Ty.substList, except_bind_ok_iff] at hts
      obtain ⟨t', ht, ts', hts, ⟨⟩⟩ := hts
      rcases hexpands with - | ⟨ht', hts'⟩
      simp [Ty.substList, bind, Except.bind, h _ _ htu _ _ ht ht', ih hts hts']

theorem Args.subst_commutes {a b : Args} (hab : a.Rel R b) {a' b' : Args}
    (ha : a.subst s = .ok a') (hexpands : a'.Rel (Expands index) b') :
    b.subst s = .ok b' := by
  obtain ⟨htypes⟩ := hab
  simp only [Args.subst, except_bind_ok_iff] at ha
  obtain ⟨ts, hts, cs, hcs, ⟨⟩⟩ := ha
  obtain ⟨hexpands⟩ := hexpands
  simp [Args.subst, bind, Except.bind, Ty.substList_commutes h htypes hts hexpands, hcs]

theorem ItemRef.subst_commutes {r q : ItemRef} (hrq : r.Rel R q) {r' q' : ItemRef}
    (hr : r.subst s = .ok r') (hexpands : r'.Rel (Expands index) q') :
    q.subst s = .ok q' := by
  obtain ⟨hargs⟩ := hrq
  simp only [ItemRef.subst, except_bind_ok_iff] at hr
  obtain ⟨a, ha, ⟨⟩⟩ := hr
  obtain ⟨hexpands⟩ := hexpands
  simp [ItemRef.subst, bind, Except.bind, Args.subst_commutes h hargs ha hexpands]

theorem ItemRef.substList_commutes {rs qs : List ItemRef}
    (hrq : List.Forall₂ (ItemRef.Rel R) rs qs) {rs' qs' : List ItemRef}
    (hrs : ItemRef.substList s rs = .ok rs')
    (hexpands : List.Forall₂ (ItemRef.Rel (Expands index)) rs' qs') :
    ItemRef.substList s qs = .ok qs' := by
  induction hrq generalizing rs' qs' with
  | nil =>
      cases hrs
      cases hexpands
      rfl
  | cons hrq _ ih =>
      simp only [ItemRef.substList, except_bind_ok_iff] at hrs
      obtain ⟨r', hr, rs', hrs, ⟨⟩⟩ := hrs
      rcases hexpands with - | ⟨hr', hrs'⟩
      simp [ItemRef.substList, bind, Except.bind, ItemRef.subst_commutes h hrq hr hr',
        ih hrs hrs']

theorem Path.subst_commutes {p q : Path} (hpq : p.Rel R q) {p' q' : Path}
    (hp : p.subst s = .ok p') (hexpands : p'.Rel (Expands index) q') :
    q.subst s = .ok q' := by
  cases hpq with
  | item target =>
      simp only [Path.subst, except_bind_ok_iff] at hp
      obtain ⟨r, hr, ⟨⟩⟩ := hp
      obtain ⟨hexpands⟩ := hexpands
      simp [Path.subst, bind, Except.bind, ItemRef.subst_commutes h target hr hexpands]
  | inherent self args =>
      simp only [Path.subst, except_bind_ok_iff] at hp
      obtain ⟨t, ht, a, ha, ⟨⟩⟩ := hp
      rcases hexpands with - | ⟨ht', ha'⟩
      simp [Path.subst, bind, Except.bind, h _ _ self _ _ ht ht',
        Args.subst_commutes h args ha ha']
  | known self trait args =>
      simp only [Path.subst, except_bind_ok_iff] at hp
      obtain ⟨t, ht, r, hr, a, ha, ⟨⟩⟩ := hp
      rcases hexpands with - | - | ⟨ht', hr', ha'⟩
      simp [Path.subst, bind, Except.bind, h _ _ self _ _ ht ht',
        ItemRef.subst_commutes h trait hr hr', Args.subst_commutes h args ha ha']
  | unknown self args =>
      simp only [Path.subst, except_bind_ok_iff] at hp
      obtain ⟨t, ht, a, ha, ⟨⟩⟩ := hp
      rcases hexpands with - | - | - | ⟨ht', ha'⟩
      simp [Path.subst, bind, Except.bind, h _ _ self _ _ ht ht',
        Args.subst_commutes h args ha ha']

theorem Ty.Parts.commutes (hs : s.Free) {t u : Ty} (htu : Ty.Parts R t u) :
    Commutes index s t u := by
  intro t' u' ht hexpands
  cases htu with
  | never =>
      cases ht
      cases hexpands.to_parts rfl
      rfl
  | prim p =>
      cases ht
      cases hexpands.to_parts rfl
      rfl
  | param p =>
      rw [hexpands.eq_of_hasErased (hs p t' (Param.orUncovered_eq_ok_iff.1 ht))]
      exact ht
  | path p =>
      simp only [Ty.subst, except_bind_ok_iff] at ht
      obtain ⟨p', hp, ⟨⟩⟩ := ht
      rcases hexpands.to_parts rfl with - | - | ⟨hp'⟩
      simp [Ty.subst, bind, Except.bind, Path.subst_commutes h p hp hp']
  | dyn trait markers =>
      simp only [Ty.subst, except_bind_ok_iff] at ht
      obtain ⟨r, hr, rs, hrs, ⟨⟩⟩ := ht
      cases hexpands.to_parts rfl with
      | dyn hr' hrs' =>
          simp [Ty.subst, bind, Except.bind, ItemRef.subst_commutes h trait hr hr',
            ItemRef.substList_commutes h markers hrs hrs']
  | array elem =>
      simp only [Ty.subst, except_bind_ok_iff] at ht
      obtain ⟨v, hv, c, hc, ⟨⟩⟩ := ht
      cases hexpands.to_parts rfl with
      | array hv' => simp [Ty.subst, bind, Except.bind, h _ _ elem _ _ hv hv', hc]
  | slice elem =>
      simp only [Ty.subst, except_bind_ok_iff] at ht
      obtain ⟨v, hv, ⟨⟩⟩ := ht
      cases hexpands.to_parts rfl with
      | slice hv' => simp [Ty.subst, bind, Except.bind, h _ _ elem _ _ hv hv']
  | tuple elems =>
      simp only [Ty.subst, except_bind_ok_iff] at ht
      obtain ⟨vs, hvs, ⟨⟩⟩ := ht
      cases hexpands.to_parts rfl with
      | tuple hvs' =>
          simp [Ty.subst, bind, Except.bind, Ty.substList_commutes h elems hvs hvs']
  | ref target =>
      simp only [Ty.subst, except_bind_ok_iff] at ht
      obtain ⟨v, hv, ⟨⟩⟩ := ht
      cases hexpands.to_parts rfl with
      | ref hv' => simp [Ty.subst, bind, Except.bind, h _ _ target _ _ hv hv']
  | ptr target =>
      simp only [Ty.subst, except_bind_ok_iff] at ht
      obtain ⟨v, hv, ⟨⟩⟩ := ht
      cases hexpands.to_parts rfl with
      | ptr hv' => simp [Ty.subst, bind, Except.bind, h _ _ target _ _ hv hv']
  | fn args result =>
      simp only [Ty.subst, except_bind_ok_iff] at ht
      obtain ⟨vs, hvs, v, hv, ⟨⟩⟩ := ht
      cases hexpands.to_parts rfl with
      | fn hvs' hv' =>
          simp [Ty.subst, bind, Except.bind, Ty.substList_commutes h args hvs hvs',
            h _ _ result _ _ hv hv']

end Parts

/-- Expanding first and instantiating later equals instantiating first and expanding
later. -/
theorem Expands.commutes {index : Index} {s : Subst} (hindex : index.Stable)
    (hs : s.Free) {t u : Ty} (h : Expands index t u) : Commutes index s t u := by
  refine h.induct ?parts ?placeholder
  case parts =>
    intro t u htu
    exact htu.commutes (fun _ _ ih => ih.2) hs
  case placeholder =>
    intro origin origin' i bounds t u horigin hunfold _ ih t' u' ht hexpands
    simp only [Ty.subst, except_bind_ok_iff] at ht
    obtain ⟨p, hp, bounds', -, ⟨⟩⟩ := ht
    cases hexpands with
    | parts hparts => cases hparts
    | placeholder hp' hunfold' hexpands =>
        -- The expanded origin of the instance is an instance of the expanded origin.
        have horigin' := Path.subst_commutes (fun _ _ ih => ih.2) horigin hp hp'
        obtain ⟨v, hv, hsubst⟩ := Index.unfold_subst hindex horigin' hunfold
        rw [hv] at hunfold'
        cases hunfold'
        exact ih _ u' hsubst hexpands

end Unerase
