import Unerase.Proofs.Relation.Erased
import Unerase.Ty.Subst

namespace Unerase

theorem except_bind_ok_iff {ε α β : Type} {x : Except ε α} {f : α → Except ε β}
    {b : β} : (x >>= f) = .ok b ↔ ∃ a, x = .ok a ∧ f a = .ok b := by
  cases x <;> simp [bind, Except.bind]

theorem except_bind_error_iff {ε α β : Type} {x : Except ε α} {f : α → Except ε β}
    {e : ε} : (x >>= f) = .error e ↔ x = .error e ∨ ∃ a, x = .ok a ∧ f a = .error e := by
  cases x <;> simp [bind, Except.bind]

theorem Param.orUncovered_eq_ok_iff {α : Type} {p : Param} {a? : Option α} {a : α} :
    p.orUncovered a? = .ok a ↔ a? = some a := by
  cases a? <;> simp [orUncovered]

section Lists

variable {s : Subst}

theorem Const.forall₂_of_substList : ∀ {cs ds : List Const},
    Const.substList s cs = .ok ds →
    List.Forall₂ (fun c d => Const.subst s c = .ok d) cs ds
  | [], _, h => by
      cases h
      exact .nil
  | c :: cs, _, h => by
      simp only [Const.substList, except_bind_ok_iff] at h
      obtain ⟨d, hd, ds, hds, ⟨⟩⟩ := h
      exact .cons hd (Const.forall₂_of_substList hds)

theorem Ty.forall₂_of_substList : ∀ {ts us : List Ty},
    Ty.substList s ts = .ok us → List.Forall₂ (fun t u => Ty.subst s t = .ok u) ts us
  | [], _, h => by
      cases h
      exact .nil
  | t :: ts, _, h => by
      simp only [Ty.substList, except_bind_ok_iff] at h
      obtain ⟨u, hu, us, hus, ⟨⟩⟩ := h
      exact .cons hu (Ty.forall₂_of_substList hus)

theorem ItemRef.forall₂_of_substList : ∀ {rs rs' : List ItemRef},
    ItemRef.substList s rs = .ok rs' →
    List.Forall₂ (fun r r' => ItemRef.subst s r = .ok r') rs rs'
  | [], _, h => by
      cases h
      exact .nil
  | r :: rs, _, h => by
      simp only [ItemRef.substList, except_bind_ok_iff] at h
      obtain ⟨r', hr, rs', hrs, ⟨⟩⟩ := h
      exact .cons hr (ItemRef.forall₂_of_substList hrs)

theorem Args.types_subst {a b : Args} (h : a.subst s = .ok b) (i : Nat) :
    Option.Rel (fun t u => Ty.subst s t = .ok u) a.types[i]? b.types[i]? := by
  obtain ⟨types, consts⟩ := a
  simp only [Args.subst, except_bind_ok_iff] at h
  obtain ⟨us, hus, ds, -, ⟨⟩⟩ := h
  exact forall₂_getElem? (Ty.forall₂_of_substList hus) i

theorem Args.consts_subst {a b : Args} (h : a.subst s = .ok b) (i : Nat) :
    Option.Rel (fun c d => Const.subst s c = .ok d) a.consts[i]? b.consts[i]? := by
  obtain ⟨types, consts⟩ := a
  simp only [Args.subst, except_bind_ok_iff] at h
  obtain ⟨us, -, ds, hds, ⟨⟩⟩ := h
  exact forall₂_getElem? (Const.forall₂_of_substList hds) i

end Lists

/-- The third substitution has the values of the first one, instantiated by the
second. -/
structure Subst.Then (s₁ s₂ s₃ : Subst) : Prop where
  self? : Option.Rel (fun t u => Ty.subst s₂ t = .ok u) s₁.self? s₃.self?
  impl? : Option.Rel (fun a b => Args.subst s₂ a = .ok b) s₁.impl? s₃.impl?
  method? : Option.Rel (fun a b => Args.subst s₂ a = .ok b) s₁.method? s₃.method?

namespace Subst.Then

variable {s₁ s₂ s₃ : Subst}

theorem getType? (h : s₁.Then s₂ s₃) (p : Param) :
    Option.Rel (fun t u => Ty.subst s₂ t = .ok u) (s₁.getType? p)
      (s₃.getType? p) := by
  obtain ⟨name, slot⟩ := p
  cases slot with
  | self => exact h.self?
  | impl i => exact optionRel_bind h.impl? fun _ _ hab => Args.types_subst hab i
  | method i => exact optionRel_bind h.method? fun _ _ hab => Args.types_subst hab i

theorem getConst? (h : s₁.Then s₂ s₃) (p : Param) :
    Option.Rel (fun c d => Const.subst s₂ c = .ok d) (s₁.getConst? p)
      (s₃.getConst? p) := by
  obtain ⟨name, slot⟩ := p
  cases slot with
  | self => exact .none
  | impl i => exact optionRel_bind h.impl? fun _ _ hab => Args.consts_subst hab i
  | method i => exact optionRel_bind h.method? fun _ _ hab => Args.consts_subst hab i

end Subst.Then

section Then

variable {s₁ s₂ s₃ : Subst}

theorem Const.subst_then (h : s₁.Then s₂ s₃) {c d : Const}
    (hc : c.subst s₁ = .ok d) : ∃ e, d.subst s₂ = .ok e ∧ c.subst s₃ = .ok e := by
  cases c with
  | lit value =>
      cases hc
      exact ⟨.lit value, rfl, rfl⟩
  | param p =>
      have hp := h.getConst? p
      rw [Param.orUncovered_eq_ok_iff.1 hc] at hp
      generalize he : s₃.getConst? p = e? at hp
      cases hp with
      | some hd => exact ⟨_, hd, Param.orUncovered_eq_ok_iff.2 he⟩

theorem Const.substList_then (h : s₁.Then s₂ s₃) : ∀ {cs ds : List Const},
    Const.substList s₁ cs = .ok ds →
    ∃ es, Const.substList s₂ ds = .ok es ∧ Const.substList s₃ cs = .ok es
  | [], ds, hcs => by
      cases hcs
      exact ⟨[], rfl, rfl⟩
  | c :: cs, ds, hcs => by
      simp only [Const.substList, except_bind_ok_iff] at hcs
      obtain ⟨d, hd, ds, hds, ⟨⟩⟩ := hcs
      obtain ⟨e, he, he'⟩ := Const.subst_then h hd
      obtain ⟨es, hes, hes'⟩ := Const.substList_then h hds
      refine ⟨e :: es, ?_, ?_⟩ <;> simp [Const.substList, bind, Except.bind, *]

mutual

theorem Ty.subst_then (h : s₁.Then s₂ s₃) : ∀ {t u : Ty}, t.subst s₁ = .ok u →
    ∃ v, u.subst s₂ = .ok v ∧ t.subst s₃ = .ok v
  | .never, _, ht => by
      cases ht
      exact ⟨_, rfl, rfl⟩
  | .prim p, _, ht => by
      cases ht
      exact ⟨_, rfl, rfl⟩
  | .param p, u, ht => by
      have hp := h.getType? p
      rw [Param.orUncovered_eq_ok_iff.1 ht] at hp
      generalize hv : s₃.getType? p = v? at hp
      cases hp with
      | some hu => exact ⟨_, hu, Param.orUncovered_eq_ok_iff.2 hv⟩
  | .path p, _, ht => by
      simp only [Ty.subst, except_bind_ok_iff] at ht
      obtain ⟨q, hq, ⟨⟩⟩ := ht
      obtain ⟨r, hr, hr'⟩ := Path.subst_then h hq
      refine ⟨.path r, ?_, ?_⟩ <;> simp [Ty.subst, bind, Except.bind, *]
  | .dyn trait markers, _, ht => by
      simp only [Ty.subst, except_bind_ok_iff] at ht
      obtain ⟨trait', htrait, markers', hmarkers, ⟨⟩⟩ := ht
      obtain ⟨r, hr, hr'⟩ := ItemRef.subst_then h htrait
      obtain ⟨rs, hrs, hrs'⟩ := ItemRef.substList_then h hmarkers
      refine ⟨.dyn r rs, ?_, ?_⟩ <;> simp [Ty.subst, bind, Except.bind, *]
  | .erased origin index bounds, _, ht => by
      simp only [Ty.subst, except_bind_ok_iff] at ht
      obtain ⟨origin', horigin, bounds', hbounds, ⟨⟩⟩ := ht
      obtain ⟨p, hp, hp'⟩ := Path.subst_then h horigin
      obtain ⟨rs, hrs, hrs'⟩ := ItemRef.substList_then h hbounds
      refine ⟨.erased p index rs, ?_, ?_⟩ <;> simp [Ty.subst, bind, Except.bind, *]
  | .array elem size, _, ht => by
      simp only [Ty.subst, except_bind_ok_iff] at ht
      obtain ⟨elem', helem, size', hsize, ⟨⟩⟩ := ht
      obtain ⟨v, hv, hv'⟩ := Ty.subst_then h helem
      obtain ⟨c, hc, hc'⟩ := Const.subst_then h hsize
      refine ⟨.array v c, ?_, ?_⟩ <;> simp [Ty.subst, bind, Except.bind, *]
  | .slice elem, _, ht => by
      simp only [Ty.subst, except_bind_ok_iff] at ht
      obtain ⟨elem', helem, ⟨⟩⟩ := ht
      obtain ⟨v, hv, hv'⟩ := Ty.subst_then h helem
      refine ⟨.slice v, ?_, ?_⟩ <;> simp [Ty.subst, bind, Except.bind, *]
  | .tuple elems, _, ht => by
      simp only [Ty.subst, except_bind_ok_iff] at ht
      obtain ⟨elems', helems, ⟨⟩⟩ := ht
      obtain ⟨vs, hvs, hvs'⟩ := Ty.substList_then h helems
      refine ⟨.tuple vs, ?_, ?_⟩ <;> simp [Ty.subst, bind, Except.bind, *]
  | .ref kind target, _, ht => by
      simp only [Ty.subst, except_bind_ok_iff] at ht
      obtain ⟨target', htarget, ⟨⟩⟩ := ht
      obtain ⟨v, hv, hv'⟩ := Ty.subst_then h htarget
      refine ⟨.ref kind v, ?_, ?_⟩ <;> simp [Ty.subst, bind, Except.bind, *]
  | .ptr mutable target, _, ht => by
      simp only [Ty.subst, except_bind_ok_iff] at ht
      obtain ⟨target', htarget, ⟨⟩⟩ := ht
      obtain ⟨v, hv, hv'⟩ := Ty.subst_then h htarget
      refine ⟨.ptr mutable v, ?_, ?_⟩ <;> simp [Ty.subst, bind, Except.bind, *]
  | .fn args result, _, ht => by
      simp only [Ty.subst, except_bind_ok_iff] at ht
      obtain ⟨args', hargs, result', hresult, ⟨⟩⟩ := ht
      obtain ⟨vs, hvs, hvs'⟩ := Ty.substList_then h hargs
      obtain ⟨v, hv, hv'⟩ := Ty.subst_then h hresult
      refine ⟨.fn vs v, ?_, ?_⟩ <;> simp [Ty.subst, bind, Except.bind, *]
termination_by structural t => t

theorem Path.subst_then (h : s₁.Then s₂ s₃) : ∀ {p q : Path}, p.subst s₁ = .ok q →
    ∃ r, q.subst s₂ = .ok r ∧ p.subst s₃ = .ok r
  | .item target, _, hp => by
      simp only [Path.subst, except_bind_ok_iff] at hp
      obtain ⟨target', htarget, ⟨⟩⟩ := hp
      obtain ⟨r, hr, hr'⟩ := ItemRef.subst_then h htarget
      refine ⟨.item r, ?_, ?_⟩ <;> simp [Path.subst, bind, Except.bind, *]
  | .inherent self name args, _, hp => by
      simp only [Path.subst, except_bind_ok_iff] at hp
      obtain ⟨self', hself, args', hargs, ⟨⟩⟩ := hp
      obtain ⟨v, hv, hv'⟩ := Ty.subst_then h hself
      obtain ⟨a, ha, ha'⟩ := Args.subst_then h hargs
      refine ⟨.inherent v name a, ?_, ?_⟩ <;> simp [Path.subst, bind, Except.bind, *]
  | .known self trait name args, _, hp => by
      simp only [Path.subst, except_bind_ok_iff] at hp
      obtain ⟨self', hself, trait', htrait, args', hargs, ⟨⟩⟩ := hp
      obtain ⟨v, hv, hv'⟩ := Ty.subst_then h hself
      obtain ⟨r, hr, hr'⟩ := ItemRef.subst_then h htrait
      obtain ⟨a, ha, ha'⟩ := Args.subst_then h hargs
      refine ⟨.known v r name a, ?_, ?_⟩ <;> simp [Path.subst, bind, Except.bind, *]
  | .unknown self name args, _, hp => by
      simp only [Path.subst, except_bind_ok_iff] at hp
      obtain ⟨self', hself, args', hargs, ⟨⟩⟩ := hp
      obtain ⟨v, hv, hv'⟩ := Ty.subst_then h hself
      obtain ⟨a, ha, ha'⟩ := Args.subst_then h hargs
      refine ⟨.unknown v name a, ?_, ?_⟩ <;> simp [Path.subst, bind, Except.bind, *]
termination_by structural p => p

theorem ItemRef.subst_then (h : s₁.Then s₂ s₃) : ∀ {r r' : ItemRef},
    r.subst s₁ = .ok r' → ∃ r'', r'.subst s₂ = .ok r'' ∧ r.subst s₃ = .ok r''
  | ⟨name, args⟩, _, hr => by
      simp only [ItemRef.subst, except_bind_ok_iff] at hr
      obtain ⟨args', hargs, ⟨⟩⟩ := hr
      obtain ⟨a, ha, ha'⟩ := Args.subst_then h hargs
      refine ⟨⟨name, a⟩, ?_, ?_⟩ <;> simp [ItemRef.subst, bind, Except.bind, *]
termination_by structural r => r

theorem Args.subst_then (h : s₁.Then s₂ s₃) : ∀ {a b : Args}, a.subst s₁ = .ok b →
    ∃ c, b.subst s₂ = .ok c ∧ a.subst s₃ = .ok c
  | ⟨types, consts⟩, _, ha => by
      simp only [Args.subst, except_bind_ok_iff] at ha
      obtain ⟨types', htypes, consts', hconsts, ⟨⟩⟩ := ha
      obtain ⟨vs, hvs, hvs'⟩ := Ty.substList_then h htypes
      obtain ⟨cs, hcs, hcs'⟩ := Const.substList_then h hconsts
      refine ⟨⟨vs, cs⟩, ?_, ?_⟩ <;> simp [Args.subst, bind, Except.bind, *]
termination_by structural a => a

theorem Ty.substList_then (h : s₁.Then s₂ s₃) : ∀ {ts us : List Ty},
    Ty.substList s₁ ts = .ok us →
    ∃ vs, Ty.substList s₂ us = .ok vs ∧ Ty.substList s₃ ts = .ok vs
  | [], _, hts => by
      cases hts
      exact ⟨[], rfl, rfl⟩
  | t :: ts, _, hts => by
      simp only [Ty.substList, except_bind_ok_iff] at hts
      obtain ⟨u, hu, us, hus, ⟨⟩⟩ := hts
      obtain ⟨v, hv, hv'⟩ := Ty.subst_then h hu
      obtain ⟨vs, hvs, hvs'⟩ := Ty.substList_then h hus
      refine ⟨v :: vs, ?_, ?_⟩ <;> simp [Ty.substList, bind, Except.bind, *]
termination_by structural ts => ts

theorem ItemRef.substList_then (h : s₁.Then s₂ s₃) : ∀ {rs rs' : List ItemRef},
    ItemRef.substList s₁ rs = .ok rs' →
    ∃ rs'', ItemRef.substList s₂ rs' = .ok rs'' ∧ ItemRef.substList s₃ rs = .ok rs''
  | [], _, hrs => by
      cases hrs
      exact ⟨[], rfl, rfl⟩
  | r :: rs, _, hrs => by
      simp only [ItemRef.substList, except_bind_ok_iff] at hrs
      obtain ⟨r', hr, rs', hrs, ⟨⟩⟩ := hrs
      obtain ⟨r'', hr', hr''⟩ := ItemRef.subst_then h hr
      obtain ⟨rs'', hrs', hrs''⟩ := ItemRef.substList_then h hrs
      refine ⟨r'' :: rs'', ?_, ?_⟩ <;> simp [ItemRef.substList, bind, Except.bind, *]
termination_by structural rs => rs

end

end Then

end Unerase
