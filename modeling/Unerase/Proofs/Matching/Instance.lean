import Unerase.Proofs.Comparison
import Unerase.Proofs.Matching.Findings
import Unerase.Proofs.Substitution

namespace Unerase

namespace Finding

/-- Nothing disagrees. -/
def NoClash (fs : List Finding) : Prop :=
  ∀ pattern concrete, .clash pattern concrete ∉ fs

@[simp] theorem noClash_nil : NoClash [] := by simp [NoClash]

@[simp] theorem noClash_type (p : Param) (t : Ty) : NoClash [.type p t] := by
  simp [NoClash]

@[simp] theorem noClash_const (p : Param) (c : Const) : NoClash [.const p c] := by
  simp [NoClash]

@[simp] theorem not_noClash_clash (t u : Ty) : ¬ NoClash [.clash t u] := by
  simp [NoClash]

@[simp] theorem noClash_append {fs gs : List Finding} :
    NoClash (fs ++ gs) ↔ NoClash fs ∧ NoClash gs := by
  simp only [NoClash, List.mem_append, not_or]
  exact ⟨fun h => ⟨fun t u => (h t u).1, fun t u => (h t u).2⟩,
    fun h t u => ⟨h.1 t u, h.2 t u⟩⟩

/-- The second finding is the first one with an instance in its place. -/
inductive Instance (s : Subst) : Finding → Finding → Prop
  | type {p : Param} {t u : Ty} :
      t.subst s = .ok u → Instance s (.type p t) (.type p u)
  | const {p : Param} {c d : Const} :
      c.subst s = .ok d → Instance s (.const p c) (.const p d)

theorem instance_ite {s : Subst} {c c' : Prop} [Decidable c] [Decidable c']
    {clash clash' : Finding} {fs fs' : List Finding} (hclash : ¬ NoClash [clash])
    (h : NoClash (if c then fs else [clash])) (hc : c → c')
    (hfs : NoClash fs → List.Forall₂ (Instance s) fs fs') :
    List.Forall₂ (Instance s) (if c then fs else [clash])
      (if c' then fs' else [clash']) := by
  split at h
  · rename_i hif
    rw [if_pos hif, if_pos (hc hif)]
    exact hfs h
  · exact absurd h hclash

end Finding

section Findings

open Finding

variable {s : Subst}

theorem Const.findings_subst {clash clash' : Finding} (hclash : ¬ NoClash [clash])
    {a b b' : Const} (hb : b.subst s = .ok b') (h : NoClash (a.findings clash b)) :
    List.Forall₂ (Instance s) (a.findings clash b) (a.findings clash' b') := by
  cases a with
  | param p => exact .cons (.const hb) .nil
  | lit a =>
      simp only [Const.findings] at h ⊢
      refine instance_ite hclash h ?_ fun _ => .nil
      rintro rfl
      cases hb
      rfl

theorem Const.findingsOfList_subst {clash clash' : Finding}
    (hclash : ¬ NoClash [clash]) : ∀ (as : List Const) {bs bs' : List Const},
    Const.substList s bs = .ok bs' → NoClash (Const.findingsOfList clash as bs) →
    List.Forall₂ (Instance s) (Const.findingsOfList clash as bs)
      (Const.findingsOfList clash' as bs')
  | [], _, _, _, _ => by simp [Const.findingsOfList]
  | _ :: _, [], _, hbs, _ => by
      cases hbs
      simp [Const.findingsOfList]
  | a :: as, b :: bs, _, hbs, h => by
      simp only [Const.substList, except_bind_ok_iff] at hbs
      obtain ⟨b', hb, bs', hbs, ⟨⟩⟩ := hbs
      simp only [Const.findingsOfList, noClash_append] at h ⊢
      exact List.rel_append (Const.findings_subst hclash hb h.1)
        (Const.findingsOfList_subst hclash as hbs h.2)

mutual

theorem Ty.findings_subst : ∀ (t : Ty) {u u' : Ty}, u.subst s = .ok u' →
    NoClash (t.findings u) →
    List.Forall₂ (Instance s) (t.findings u) (t.findings u')
  | .param p, _, _, hu, _ => .cons (.type hu) .nil
  | .never, u, _, hu, h => by
      cases u with
      | never =>
          cases hu
          simp [Ty.findings]
      | _ => simp [Ty.findings] at h
  | .prim a, u, _, hu, h => by
      simp only [Ty.findings] at h ⊢
      refine instance_ite (by simp) h ?_ fun _ => .nil
      rintro rfl
      cases hu
      rfl
  | .path a, u, _, hu, h => by
      cases u with
      | path b =>
          simp only [Ty.subst, except_bind_ok_iff] at hu
          obtain ⟨b', hb, ⟨⟩⟩ := hu
          simp only [Ty.findings] at h ⊢
          exact Path.findings_subst (by simp) a hb h
      | _ => simp [Ty.findings] at h
  | .dyn trait markers, u, _, hu, h => by
      cases u with
      | dyn trait' markers' =>
          simp only [Ty.subst, except_bind_ok_iff] at hu
          obtain ⟨r, hr, rs, hrs, ⟨⟩⟩ := hu
          simp only [Ty.findings] at h ⊢
          have hlen := (ItemRef.forall₂_of_substList hrs).length_eq
          refine instance_ite (by simp) h (fun h => h.trans hlen) fun h => ?_
          rw [noClash_append] at h
          exact List.rel_append (ItemRef.findings_subst (by simp) trait hr h.1)
            (ItemRef.findingsOfList_subst (by simp) markers hrs h.2)
      | _ => simp [Ty.findings] at h
  | .erased origin index bounds, u, _, hu, h => by
      cases u with
      | erased origin' index' bounds' =>
          simp only [Ty.subst, except_bind_ok_iff] at hu
          obtain ⟨p, hp, rs, hrs, ⟨⟩⟩ := hu
          simp only [Ty.findings] at h ⊢
          exact instance_ite (by simp) h id (Path.findings_subst (by simp) origin hp)
      | _ => simp [Ty.findings] at h
  | .array elem size, u, _, hu, h => by
      cases u with
      | array elem' size' =>
          simp only [Ty.subst, except_bind_ok_iff] at hu
          obtain ⟨v, hv, c, hc, ⟨⟩⟩ := hu
          simp only [Ty.findings, noClash_append] at h ⊢
          exact List.rel_append (Ty.findings_subst elem hv h.1)
            (Const.findings_subst (by simp) hc h.2)
      | _ => simp [Ty.findings] at h
  | .slice elem, u, _, hu, h => by
      cases u with
      | slice elem' =>
          simp only [Ty.subst, except_bind_ok_iff] at hu
          obtain ⟨v, hv, ⟨⟩⟩ := hu
          simp only [Ty.findings] at h ⊢
          exact Ty.findings_subst elem hv h
      | _ => simp [Ty.findings] at h
  | .tuple elems, u, _, hu, h => by
      cases u with
      | tuple elems' =>
          simp only [Ty.subst, except_bind_ok_iff] at hu
          obtain ⟨vs, hvs, ⟨⟩⟩ := hu
          simp only [Ty.findings] at h ⊢
          have hlen := (Ty.forall₂_of_substList hvs).length_eq
          exact instance_ite (by simp) h (fun h => h.trans hlen)
            (Ty.findingsOfList_subst elems hvs)
      | _ => simp [Ty.findings] at h
  | .ref kind target, u, _, hu, h => by
      cases u with
      | ref kind' target' =>
          simp only [Ty.subst, except_bind_ok_iff] at hu
          obtain ⟨v, hv, ⟨⟩⟩ := hu
          simp only [Ty.findings] at h ⊢
          exact instance_ite (by simp) h id (Ty.findings_subst target hv)
      | _ => simp [Ty.findings] at h
  | .ptr mutable target, u, _, hu, h => by
      cases u with
      | ptr mutable' target' =>
          simp only [Ty.subst, except_bind_ok_iff] at hu
          obtain ⟨v, hv, ⟨⟩⟩ := hu
          simp only [Ty.findings] at h ⊢
          exact instance_ite (by simp) h id (Ty.findings_subst target hv)
      | _ => simp [Ty.findings] at h
  | .fn args result, u, _, hu, h => by
      cases u with
      | fn args' result' =>
          simp only [Ty.subst, except_bind_ok_iff] at hu
          obtain ⟨vs, hvs, v, hv, ⟨⟩⟩ := hu
          simp only [Ty.findings] at h ⊢
          have hlen := (Ty.forall₂_of_substList hvs).length_eq
          refine instance_ite (by simp) h (fun h => h.trans hlen) fun h => ?_
          rw [noClash_append] at h
          exact List.rel_append (Ty.findingsOfList_subst args hvs h.1)
            (Ty.findings_subst result hv h.2)
      | _ => simp [Ty.findings] at h
termination_by structural t => t

theorem Path.findings_subst {clash clash' : Finding} (hclash : ¬ NoClash [clash]) :
    ∀ (p : Path) {q q' : Path}, q.subst s = .ok q' → NoClash (p.findings clash q) →
    List.Forall₂ (Instance s) (p.findings clash q) (p.findings clash' q')
  | .item target, q, _, hq, h => by
      cases q with
      | item target' =>
          simp only [Path.subst, except_bind_ok_iff] at hq
          obtain ⟨r, hr, ⟨⟩⟩ := hq
          exact ItemRef.findings_subst hclash target hr h
      | _ => exact absurd h hclash
  | .inherent self name args, q, _, hq, h => by
      cases q with
      | inherent self' name' args' =>
          simp only [Path.subst, except_bind_ok_iff] at hq
          obtain ⟨v, hv, a, ha, ⟨⟩⟩ := hq
          simp only [Path.findings] at h ⊢
          refine instance_ite hclash h id fun h => ?_
          rw [noClash_append] at h
          exact List.rel_append (Ty.findings_subst self hv h.1)
            (Args.findings_subst hclash args ha h.2)
      | _ => exact absurd h hclash
  | .known self trait name args, q, _, hq, h => by
      cases q with
      | known self' trait' name' args' =>
          simp only [Path.subst, except_bind_ok_iff] at hq
          obtain ⟨v, hv, r, hr, a, ha, ⟨⟩⟩ := hq
          simp only [Path.findings] at h ⊢
          refine instance_ite hclash h id fun h => ?_
          rw [noClash_append, noClash_append] at h
          exact List.rel_append (List.rel_append (Ty.findings_subst self hv h.1.1)
            (ItemRef.findings_subst hclash trait hr h.1.2))
            (Args.findings_subst hclash args ha h.2)
      | _ => exact absurd h hclash
  | .unknown self name args, q, _, hq, h => by
      cases q with
      | unknown self' name' args' =>
          simp only [Path.subst, except_bind_ok_iff] at hq
          obtain ⟨v, hv, a, ha, ⟨⟩⟩ := hq
          simp only [Path.findings] at h ⊢
          refine instance_ite hclash h id fun h => ?_
          rw [noClash_append] at h
          exact List.rel_append (Ty.findings_subst self hv h.1)
            (Args.findings_subst hclash args ha h.2)
      | _ => exact absurd h hclash
termination_by structural p => p

theorem ItemRef.findings_subst {clash clash' : Finding} (hclash : ¬ NoClash [clash]) :
    ∀ (r : ItemRef) {q q' : ItemRef}, q.subst s = .ok q' →
    NoClash (r.findings clash q) →
    List.Forall₂ (Instance s) (r.findings clash q) (r.findings clash' q')
  | ⟨name, args⟩, ⟨name', args'⟩, _, hq, h => by
      simp only [ItemRef.subst, except_bind_ok_iff] at hq
      obtain ⟨a, ha, ⟨⟩⟩ := hq
      simp only [ItemRef.findings] at h ⊢
      exact instance_ite hclash h id (Args.findings_subst hclash args ha)
termination_by structural r => r

theorem Args.findings_subst {clash clash' : Finding} (hclash : ¬ NoClash [clash]) :
    ∀ (a : Args) {b b' : Args}, b.subst s = .ok b' → NoClash (a.findings clash b) →
    List.Forall₂ (Instance s) (a.findings clash b) (a.findings clash' b')
  | ⟨types, consts⟩, ⟨types', consts'⟩, _, hb, h => by
      simp only [Args.subst, except_bind_ok_iff] at hb
      obtain ⟨us, hus, cs, hcs, ⟨⟩⟩ := hb
      simp only [Args.findings] at h ⊢
      have hlen := (Ty.forall₂_of_substList hus).length_eq
      have hlen' := (Const.forall₂_of_substList hcs).length_eq
      refine instance_ite hclash h (fun h => ⟨h.1.trans hlen, h.2.trans hlen'⟩)
        fun h => ?_
      rw [noClash_append] at h
      exact List.rel_append (Ty.findingsOfList_subst types hus h.1)
        (Const.findingsOfList_subst hclash consts hcs h.2)
termination_by structural a => a

theorem Ty.findingsOfList_subst : ∀ (ts : List Ty) {us us' : List Ty},
    Ty.substList s us = .ok us' → NoClash (Ty.findingsOfList ts us) →
    List.Forall₂ (Instance s) (Ty.findingsOfList ts us) (Ty.findingsOfList ts us')
  | [], _, _, _, _ => by simp [Ty.findingsOfList]
  | _ :: _, [], _, hus, _ => by
      cases hus
      simp [Ty.findingsOfList]
  | t :: ts, u :: us, _, hus, h => by
      simp only [Ty.substList, except_bind_ok_iff] at hus
      obtain ⟨u', hu, us', hus, ⟨⟩⟩ := hus
      simp only [Ty.findingsOfList, noClash_append] at h ⊢
      exact List.rel_append (Ty.findings_subst t hu h.1)
        (Ty.findingsOfList_subst ts hus h.2)
termination_by structural ts => ts

theorem ItemRef.findingsOfList_subst {clash clash' : Finding}
    (hclash : ¬ NoClash [clash]) : ∀ (rs : List ItemRef) {qs qs' : List ItemRef},
    ItemRef.substList s qs = .ok qs' →
    NoClash (ItemRef.findingsOfList clash rs qs) →
    List.Forall₂ (Instance s) (ItemRef.findingsOfList clash rs qs)
      (ItemRef.findingsOfList clash' rs qs')
  | [], _, _, _, _ => by simp [ItemRef.findingsOfList]
  | _ :: _, [], _, hqs, _ => by
      cases hqs
      simp [ItemRef.findingsOfList]
  | r :: rs, q :: qs, _, hqs, h => by
      simp only [ItemRef.substList, except_bind_ok_iff] at hqs
      obtain ⟨q', hq, qs', hqs, ⟨⟩⟩ := hqs
      simp only [ItemRef.findingsOfList, noClash_append] at h ⊢
      exact List.rel_append (ItemRef.findings_subst hclash r hq h.1)
        (ItemRef.findingsOfList_subst hclash rs hqs h.2)
termination_by structural rs => rs

end

end Findings

end Unerase
