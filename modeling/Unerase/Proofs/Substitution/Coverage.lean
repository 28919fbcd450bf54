import Unerase.Proofs.Matching.Occurrences
import Unerase.Proofs.Substitution.Composition

/-!
What a substitution needs and what it leaves. It fails at the first parameter of the type
that it has no value for (`Ty.subst_blames`). If there is none, the parameters of the result
are those in the values that have been put in, and the placeholders, unless some were put
in as well, are those of the type with their parameters replaced (`Ty.subst_rebuilds`).
-/

namespace Unerase

/-- The parameter that is used. -/
def ParamUse.param : ParamUse → Param
  | .type p => p
  | .const p => p

namespace Subst

/-- There is a value for the parameter, of the sort that it is used as. -/
def Covers (s : Subst) : ParamUse → Prop
  | .type p => (s.getType? p).isSome = true
  | .const p => (s.getConst? p).isSome = true

instance (s : Subst) : DecidablePred s.Covers
  | .type p => inferInstanceAs (Decidable ((s.getType? p).isSome = true))
  | .const p => inferInstanceAs (Decidable ((s.getConst? p).isSome = true))

/-- The uses of parameters in the value for a parameter. -/
def paramsAt (s : Subst) : ParamUse → List ParamUse
  | .type p => (s.getType? p).elim [] (Ty.params true)
  | .const p => (s.getConst? p).elim [] Const.params

theorem mem_args_types {s : Subst} {args? : Option Args} {i : Nat} {t : Ty}
    (hargs : ∀ a ∈ args?, a ∈ s.args) (h : (args?.bind fun a => a.types[i]?) = some t) :
    t ∈ s.types := by
  obtain ⟨a, ha, ht⟩ := Option.bind_eq_some_iff.1 h
  exact List.mem_append_right _
    (List.mem_flatMap.2 ⟨a, hargs a ha, List.mem_of_getElem? ht⟩)

theorem mem_types_of_getType? {s : Subst} {p : Param} {t : Ty} (h : s.getType? p = some t) :
    t ∈ s.types := by
  obtain ⟨name, slot⟩ := p
  cases slot with
  | self => exact List.mem_append_left _ (Option.mem_toList.2 h)
  | impl i =>
      refine mem_args_types (fun a ha => ?_) h
      exact List.mem_append_left _ (Option.mem_toList.2 ha)
  | method i =>
      refine mem_args_types (fun a ha => ?_) h
      exact List.mem_append_right _ (Option.mem_toList.2 ha)

end Subst

/-! ### Where a substitution fails -/

def errorOf {ε α : Type} : Except ε α → Option ε
  | .ok _ => none
  | .error e => some e

/-- A computation fails with the first of the parameters that has no value, and succeeds if
all of them have one. -/
def Blames {α : Type} (s : Subst) (x : Except Param α) (us : List ParamUse) : Prop :=
  errorOf x = (us.find? fun u => ¬ s.Covers u).map ParamUse.param

namespace Blames

variable {α β : Type} {s : Subst} {x : Except Param α} {us vs : List ParamUse}

theorem ok (a : α) : Blames s (.ok a) [] := rfl

theorem bind {f : α → Except Param β} (hx : Blames s x us) (hf : ∀ a, Blames s (f a) vs) :
    Blames s (x >>= f) (us ++ vs) := by
  unfold Blames at *
  rw [List.find?_append, Option.map_or, ← hx]
  cases x with
  | error p => rfl
  | ok a => exact hf a

theorem map {f : α → β} (hx : Blames s x us) : Blames s (x >>= fun a => .ok (f a)) us := by
  simpa using hx.bind fun a => ok (f a)

theorem ok_iff (h : Blames s x us) : (∃ a, x = .ok a) ↔ ∀ u ∈ us, s.Covers u := by
  have hfind : errorOf x = none ↔ ∀ u ∈ us, s.Covers u := by
    rw [h]
    simp
  rw [← hfind]
  cases x <;> simp [errorOf]

theorem of_error {p : Param} (h : Blames s (.error p : Except Param α) us) :
    ∃ before u after, us = before ++ u :: after ∧ (∀ v ∈ before, s.Covers v) ∧
      ¬ s.Covers u ∧ u.param = p := by
  obtain ⟨u, hu, hp⟩ := Option.map_eq_some_iff.1 h.symm
  obtain ⟨hcovers, before, after, rfl, hbefore⟩ := List.find?_eq_some_iff_append.1 hu
  exact ⟨before, u, after, rfl, by simpa using hbefore, by simpa using hcovers, hp⟩

end Blames

section Failure

variable (s : Subst)

theorem Const.subst_blames (c : Const) : Blames s (c.subst s) c.params := by
  cases c with
  | lit => exact .ok _
  | param p =>
      cases h : s.getConst? p <;>
        simp [Const.subst, Const.params, Param.orUncovered, Blames, errorOf, Subst.Covers,
          ParamUse.param, h]

theorem Const.substList_blames : ∀ cs : List Const,
    Blames s (Const.substList s cs) (cs.flatMap Const.params)
  | [] => .ok _
  | c :: cs => (Const.subst_blames s c).bind fun _ => (Const.substList_blames cs).map

mutual

/-- A substitution fails at the first parameter that it does not cover, and nowhere else. -/
theorem Ty.subst_blames : ∀ t : Ty, Blames s (t.subst s) (t.params true)
  | .never => .ok _
  | .prim _ => .ok _
  | .path p => (Path.subst_blames p).map
  | .param p => by
      cases h : s.getType? p <;>
        simp [Ty.subst, Ty.params, Param.orUncovered, Blames, errorOf, Subst.Covers,
          ParamUse.param, h]
  | .dyn trait markers =>
      (ItemRef.subst_blames trait).bind fun _ => (ItemRef.substList_blames markers).map
  | .erased origin _ bounds =>
      (Path.subst_blames origin).bind fun _ => (ItemRef.substList_blames bounds).map
  | .array elem size => (Ty.subst_blames elem).bind fun _ => (Const.subst_blames s size).map
  | .slice elem => (Ty.subst_blames elem).map
  | .tuple elems => (Ty.substList_blames elems).map
  | .ref _ target => (Ty.subst_blames target).map
  | .ptr _ target => (Ty.subst_blames target).map
  | .fn args result => (Ty.substList_blames args).bind fun _ => (Ty.subst_blames result).map
termination_by structural t => t

theorem Path.subst_blames : ∀ p : Path, Blames s (p.subst s) (p.params true)
  | .item target => (ItemRef.subst_blames target).map
  | .inherent self _ args => (Ty.subst_blames self).bind fun _ => (Args.subst_blames args).map
  | .known self trait _ args => by
      rw [Path.params, List.append_assoc]
      exact (Ty.subst_blames self).bind fun _ =>
        (ItemRef.subst_blames trait).bind fun _ => (Args.subst_blames args).map
  | .unknown self _ args => (Ty.subst_blames self).bind fun _ => (Args.subst_blames args).map
termination_by structural p => p

theorem ItemRef.subst_blames : ∀ r : ItemRef, Blames s (r.subst s) (r.params true)
  | ⟨_, args⟩ => (Args.subst_blames args).map
termination_by structural r => r

theorem Args.subst_blames : ∀ a : Args, Blames s (a.subst s) (a.params true)
  | ⟨types, consts⟩ =>
      (Ty.substList_blames types).bind fun _ => (Const.substList_blames s consts).map
termination_by structural a => a

theorem Ty.substList_blames : ∀ ts : List Ty,
    Blames s (Ty.substList s ts) (Ty.paramsOfList true ts)
  | [] => .ok _
  | t :: ts => (Ty.subst_blames t).bind fun _ => (Ty.substList_blames ts).map
termination_by structural ts => ts

theorem ItemRef.substList_blames : ∀ rs : List ItemRef,
    Blames s (ItemRef.substList s rs) (ItemRef.paramsOfList true rs)
  | [] => .ok _
  | r :: rs => (ItemRef.subst_blames r).bind fun _ => (ItemRef.substList_blames rs).map
termination_by structural rs => rs

end

end Failure

/-! ### What a substitution leaves -/

/-- The number of the template behind a placeholder; other types stand for themselves. -/
def Ty.index? : Ty → Option Nat
  | .erased _ index _ => some index
  | _ => none

/-- The second uses and placeholders come from the first ones: a use of a parameter gives
way to the uses in its value, and a placeholder to its instance. Placeholders are compared
for a substitution that holds none. -/
structure Rebuilds (s : Subst) (us vs : List ParamUse) (ts ws : List Ty) : Prop where
  params : vs = us.flatMap s.paramsAt
  placeholders : (∀ t ∈ s.types, t.hasErased = false) →
    List.Forall₂ (fun t w => t.subst s = .ok w ∧ w.index? = t.index?) ts ws

namespace Rebuilds

variable {s : Subst} {us vs us' vs' : List ParamUse} {ts ws ts' ws' : List Ty}

theorem nil : Rebuilds s [] [] [] [] where
  params := rfl
  placeholders _ := .nil

theorem append (h : Rebuilds s us vs ts ws) (h' : Rebuilds s us' vs' ts' ws') :
    Rebuilds s (us ++ us') (vs ++ vs') (ts ++ ts') (ws ++ ws') where
  params := by rw [List.flatMap_append, ← h.params, ← h'.params]
  placeholders hs := List.rel_append (h.placeholders hs) (h'.placeholders hs)

theorem append_consts (h : Rebuilds s us vs ts ws) (h' : Rebuilds s us' vs' [] []) :
    Rebuilds s (us ++ us') (vs ++ vs') ts ws := by
  simpa using h.append h'

theorem placeholder {origin origin' : Path} {index : Nat} {bounds bounds' : List ItemRef}
    (h : Rebuilds s us vs ts ws)
    (hsubst : Ty.subst s (.erased origin index bounds) = .ok (.erased origin' index bounds')) :
    Rebuilds s us vs (.erased origin index bounds :: ts) (.erased origin' index bounds' :: ws) where
  params := h.params
  placeholders hs := .cons ⟨hsubst, rfl⟩ (h.placeholders hs)

end Rebuilds

section Rebuilding

variable {s : Subst}

theorem Const.subst_rebuilds {c d : Const} (h : c.subst s = .ok d) :
    Rebuilds s c.params d.params [] [] := by
  cases c with
  | lit =>
      cases h
      exact .nil
  | param p =>
      have hp : s.getConst? p = some d := Param.orUncovered_eq_ok_iff.1 h
      exact ⟨by simp [Const.params, Subst.paramsAt, hp], fun _ => .nil⟩

theorem Const.substList_rebuilds : ∀ {cs ds : List Const}, Const.substList s cs = .ok ds →
    Rebuilds s (cs.flatMap Const.params) (ds.flatMap Const.params) [] []
  | [], _, h => by
      cases h
      exact .nil
  | c :: cs, _, h => by
      simp only [Const.substList, except_bind_ok_iff] at h
      obtain ⟨d, hd, ds, hds, ⟨⟩⟩ := h
      exact (Const.subst_rebuilds hd).append (Const.substList_rebuilds hds)

mutual

/-- A substitution puts values in the place of parameters and changes nothing else. -/
theorem Ty.subst_rebuilds : ∀ {t u : Ty}, t.subst s = .ok u →
    Rebuilds s (t.params true) (u.params true) t.placeholders u.placeholders
  | .never, _, h => by
      cases h
      exact .nil
  | .prim _, _, h => by
      cases h
      exact .nil
  | .param p, u, h => by
      have hp : s.getType? p = some u := Param.orUncovered_eq_ok_iff.1 h
      refine ⟨by simp [Ty.params, Subst.paramsAt, hp], fun hs => ?_⟩
      -- The value is one of those that hold no placeholders.
      have hu : u.placeholders = [] :=
        (Ty.placeholders_eq_nil_iff u).2 (hs u (Subst.mem_types_of_getType? hp))
      rw [hu]
      exact .nil
  | .path p, _, h => by
      simp only [Ty.subst, except_bind_ok_iff] at h
      obtain ⟨q, hq, ⟨⟩⟩ := h
      exact Path.subst_rebuilds hq
  | .dyn trait markers, _, h => by
      simp only [Ty.subst, except_bind_ok_iff] at h
      obtain ⟨trait', htrait, markers', hmarkers, ⟨⟩⟩ := h
      exact (ItemRef.subst_rebuilds htrait).append (ItemRef.substList_rebuilds hmarkers)
  | .erased origin index bounds, _, h => by
      have hsubst := h
      simp only [Ty.subst, except_bind_ok_iff] at h
      obtain ⟨origin', horigin, bounds', hbounds, ⟨⟩⟩ := h
      have hparts := (Path.subst_rebuilds horigin).append (ItemRef.substList_rebuilds hbounds)
      exact hparts.placeholder hsubst
  | .array elem size, _, h => by
      simp only [Ty.subst, except_bind_ok_iff] at h
      obtain ⟨elem', helem, size', hsize, ⟨⟩⟩ := h
      exact (Ty.subst_rebuilds helem).append_consts (Const.subst_rebuilds hsize)
  | .slice elem, _, h => by
      simp only [Ty.subst, except_bind_ok_iff] at h
      obtain ⟨elem', helem, ⟨⟩⟩ := h
      simp only [Ty.params, Ty.placeholders]
      exact Ty.subst_rebuilds helem
  | .tuple elems, _, h => by
      simp only [Ty.subst, except_bind_ok_iff] at h
      obtain ⟨elems', helems, ⟨⟩⟩ := h
      exact Ty.substList_rebuilds helems
  | .ref kind target, _, h => by
      simp only [Ty.subst, except_bind_ok_iff] at h
      obtain ⟨target', htarget, ⟨⟩⟩ := h
      simp only [Ty.params, Ty.placeholders]
      exact Ty.subst_rebuilds htarget
  | .ptr mutable target, _, h => by
      simp only [Ty.subst, except_bind_ok_iff] at h
      obtain ⟨target', htarget, ⟨⟩⟩ := h
      simp only [Ty.params, Ty.placeholders]
      exact Ty.subst_rebuilds htarget
  | .fn args result, _, h => by
      simp only [Ty.subst, except_bind_ok_iff] at h
      obtain ⟨args', hargs, result', hresult, ⟨⟩⟩ := h
      exact (Ty.substList_rebuilds hargs).append (Ty.subst_rebuilds hresult)
termination_by structural t => t

theorem Path.subst_rebuilds : ∀ {p q : Path}, p.subst s = .ok q →
    Rebuilds s (p.params true) (q.params true) p.placeholders q.placeholders
  | .item target, _, h => by
      simp only [Path.subst, except_bind_ok_iff] at h
      obtain ⟨target', htarget, ⟨⟩⟩ := h
      exact ItemRef.subst_rebuilds htarget
  | .inherent self name args, _, h => by
      simp only [Path.subst, except_bind_ok_iff] at h
      obtain ⟨self', hself, args', hargs, ⟨⟩⟩ := h
      exact (Ty.subst_rebuilds hself).append (Args.subst_rebuilds hargs)
  | .known self trait name args, _, h => by
      simp only [Path.subst, except_bind_ok_iff] at h
      obtain ⟨self', hself, trait', htrait, args', hargs, ⟨⟩⟩ := h
      have hfirst := (Ty.subst_rebuilds hself).append (ItemRef.subst_rebuilds htrait)
      exact hfirst.append (Args.subst_rebuilds hargs)
  | .unknown self name args, _, h => by
      simp only [Path.subst, except_bind_ok_iff] at h
      obtain ⟨self', hself, args', hargs, ⟨⟩⟩ := h
      exact (Ty.subst_rebuilds hself).append (Args.subst_rebuilds hargs)
termination_by structural p => p

theorem ItemRef.subst_rebuilds : ∀ {r r' : ItemRef}, r.subst s = .ok r' →
    Rebuilds s (r.params true) (r'.params true) r.placeholders r'.placeholders
  | ⟨name, args⟩, _, h => by
      simp only [ItemRef.subst, except_bind_ok_iff] at h
      obtain ⟨args', hargs, ⟨⟩⟩ := h
      exact Args.subst_rebuilds hargs
termination_by structural r => r

theorem Args.subst_rebuilds : ∀ {a b : Args}, a.subst s = .ok b →
    Rebuilds s (a.params true) (b.params true) a.placeholders b.placeholders
  | ⟨types, consts⟩, _, h => by
      simp only [Args.subst, except_bind_ok_iff] at h
      obtain ⟨types', htypes, consts', hconsts, ⟨⟩⟩ := h
      exact (Ty.substList_rebuilds htypes).append_consts (Const.substList_rebuilds hconsts)
termination_by structural a => a

theorem Ty.substList_rebuilds : ∀ {ts us : List Ty}, Ty.substList s ts = .ok us →
    Rebuilds s (Ty.paramsOfList true ts) (Ty.paramsOfList true us)
      (Ty.placeholdersOfList ts) (Ty.placeholdersOfList us)
  | [], _, h => by
      cases h
      exact .nil
  | t :: ts, _, h => by
      simp only [Ty.substList, except_bind_ok_iff] at h
      obtain ⟨u, hu, us, hus, ⟨⟩⟩ := h
      exact (Ty.subst_rebuilds hu).append (Ty.substList_rebuilds hus)
termination_by structural ts => ts

theorem ItemRef.substList_rebuilds : ∀ {rs rs' : List ItemRef},
    ItemRef.substList s rs = .ok rs' →
    Rebuilds s (ItemRef.paramsOfList true rs) (ItemRef.paramsOfList true rs')
      (ItemRef.placeholdersOfList rs) (ItemRef.placeholdersOfList rs')
  | [], _, h => by
      cases h
      exact .nil
  | r :: rs, _, h => by
      simp only [ItemRef.substList, except_bind_ok_iff] at h
      obtain ⟨r', hr, rs', hrs, ⟨⟩⟩ := h
      exact (ItemRef.subst_rebuilds hr).append (ItemRef.substList_rebuilds hrs)
termination_by structural rs => rs

end

end Rebuilding

namespace Subst

theorem instantiate_error_iff {s : Subst} {t : Ty} {e : ExpansionError} :
    s.instantiate t = .error e ↔ ∃ p, t.subst s = .error p ∧ e = .uncovered p t := by
  rw [instantiate]
  cases t.subst s <;> simp [eq_comm]

/-- A template has an instance if there is a value for each parameter in it, and otherwise
the error tells of the template and of the first parameter without a value, from left to
right. The parameters of the instance are those in the values that have been put in. If the
values have no placeholders, those of the instance are the instances of those of the
template, in the same order and with the same indices. -/
theorem instantiate_covered (s : Subst) (t : Ty) :
    ((∃ u, s.instantiate t = .ok u) ↔ ∀ v ∈ t.params true, s.Covers v) ∧
    (∀ e, s.instantiate t = .error e →
      ∃ before v after, t.params true = before ++ v :: after ∧
        (∀ w ∈ before, s.Covers w) ∧ ¬ s.Covers v ∧ e = .uncovered v.param t) ∧
    ∀ u, s.instantiate t = .ok u →
      u.params true = (t.params true).flatMap s.paramsAt ∧
      ((∀ held ∈ s.types, held.hasErased = false) →
        List.Forall₂ (fun p q => s.instantiate p = .ok q ∧ q.index? = p.index?)
          t.placeholders u.placeholders) := by
  have hblames := Ty.subst_blames s t
  simp only [instantiate_ok_iff]
  refine ⟨hblames.ok_iff, fun e he => ?_, fun u hu => ?_⟩
  · obtain ⟨p, hp, rfl⟩ := instantiate_error_iff.1 he
    rw [hp] at hblames
    obtain ⟨before, v, after, hparams, hbefore, hv, rfl⟩ := hblames.of_error
    exact ⟨before, v, after, hparams, hbefore, hv, rfl⟩
  · have hrebuilds := Ty.subst_rebuilds hu
    exact ⟨hrebuilds.params, hrebuilds.placeholders⟩

/-- A type under the index of the size is no value for the size. -/
example :
    let t := Ty.array (.param ⟨"T", .method 0⟩) (.param ⟨"N", .method 0⟩)
    (ofFunction ⟨[.never], []⟩).instantiate t = .error (.uncovered ⟨"N", .method 0⟩ t) := rfl

end Subst

end Unerase
