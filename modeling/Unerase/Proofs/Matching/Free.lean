import Unerase.Proofs.Matching.Findings

namespace Unerase

namespace Finding

/-- The types that line up with parameters have no placeholders. -/
def AllFree (fs : List Finding) : Prop :=
  ∀ p t, .type p t ∈ fs → t.hasErased = false

@[simp] theorem allFree_nil : AllFree [] := by simp [AllFree]

@[simp] theorem allFree_type {p : Param} {t : Ty} :
    AllFree [.type p t] ↔ t.hasErased = false := by
  simp [AllFree]

@[simp] theorem allFree_const (p : Param) (c : Const) : AllFree [.const p c] := by
  simp [AllFree]

@[simp] theorem allFree_clash (t u : Ty) : AllFree [.clash t u] := by
  simp [AllFree]

@[simp] theorem allFree_append {fs gs : List Finding} :
    AllFree (fs ++ gs) ↔ AllFree fs ∧ AllFree gs := by
  simp only [AllFree, List.mem_append]
  grind

theorem allFree_ite {c : Prop} [Decidable c] {clash : Finding} {fs : List Finding}
    (hclash : AllFree [clash]) (hfs : AllFree fs) :
    AllFree (if c then fs else [clash]) := by
  split
  · exact hfs
  · exact hclash

end Finding

section Free

open Finding

theorem Const.findings_free {clash : Finding} (hclash : AllFree [clash])
    (a b : Const) : AllFree (a.findings clash b) := by
  cases a with
  | param p => simp [Const.findings]
  | lit a =>
      simp only [Const.findings]
      exact allFree_ite hclash allFree_nil

theorem Const.findingsOfList_free {clash : Finding} (hclash : AllFree [clash]) :
    ∀ as bs : List Const, AllFree (Const.findingsOfList clash as bs)
  | [], _ => by simp [Const.findingsOfList]
  | _ :: _, [] => by simp [Const.findingsOfList]
  | a :: as, b :: bs => by
      simp [Const.findingsOfList, Const.findings_free hclash a b,
        Const.findingsOfList_free hclash as bs]

mutual

theorem Ty.findings_free : ∀ (t : Ty) {u : Ty}, u.hasErased = false →
    AllFree (t.findings u)
  | .param p, _, hu => by simpa [Ty.findings] using hu
  | .never, u, _ => by cases u <;> simp [Ty.findings]
  | .prim a, u, _ => by
      simp only [Ty.findings]
      split <;> simp
  | .path a, u, hu => by
      cases u with
      | path b => exact Path.findings_free (by simp) a (by simpa [Ty.hasErased] using hu)
      | _ => simp [Ty.findings]
  | .dyn trait markers, u, hu => by
      cases u with
      | dyn trait' markers' =>
          simp only [Ty.hasErased, Bool.or_eq_false_iff] at hu
          simp only [Ty.findings]
          exact allFree_ite (by simp) <| allFree_append.2
            ⟨ItemRef.findings_free (by simp) trait hu.1,
              ItemRef.findingsOfList_free (by simp) markers hu.2⟩
      | _ => simp [Ty.findings]
  | .erased origin index bounds, u, hu => by
      cases u with
      | erased => simp [Ty.hasErased] at hu
      | _ => simp [Ty.findings]
  | .array elem size, u, hu => by
      cases u with
      | array elem' size' =>
          exact allFree_append.2 ⟨Ty.findings_free elem (by simpa [Ty.hasErased] using hu),
            Const.findings_free (by simp) size size'⟩
      | _ => simp [Ty.findings]
  | .slice elem, u, hu => by
      cases u with
      | slice elem' => exact Ty.findings_free elem (by simpa [Ty.hasErased] using hu)
      | _ => simp [Ty.findings]
  | .tuple elems, u, hu => by
      cases u with
      | tuple elems' =>
          simp only [Ty.findings]
          exact allFree_ite (by simp)
            (Ty.findingsOfList_free elems (by simpa [Ty.hasErased] using hu))
      | _ => simp [Ty.findings]
  | .ref kind target, u, hu => by
      cases u with
      | ref kind' target' =>
          simp only [Ty.findings]
          exact allFree_ite (by simp)
            (Ty.findings_free target (by simpa [Ty.hasErased] using hu))
      | _ => simp [Ty.findings]
  | .ptr mutable target, u, hu => by
      cases u with
      | ptr mutable' target' =>
          simp only [Ty.findings]
          exact allFree_ite (by simp)
            (Ty.findings_free target (by simpa [Ty.hasErased] using hu))
      | _ => simp [Ty.findings]
  | .fn args result, u, hu => by
      cases u with
      | fn args' result' =>
          simp only [Ty.hasErased, Bool.or_eq_false_iff] at hu
          simp only [Ty.findings]
          exact allFree_ite (by simp) <| allFree_append.2
            ⟨Ty.findingsOfList_free args hu.1, Ty.findings_free result hu.2⟩
      | _ => simp [Ty.findings]
termination_by structural t => t

theorem Path.findings_free {clash : Finding} (hclash : AllFree [clash]) :
    ∀ (p : Path) {q : Path}, q.hasErased = false → AllFree (p.findings clash q)
  | .item target, q, hq => by
      cases q with
      | item target' =>
          exact ItemRef.findings_free hclash target (by simpa [Path.hasErased] using hq)
      | _ => exact hclash
  | .inherent self name args, q, hq => by
      cases q with
      | inherent self' name' args' =>
          simp only [Path.hasErased, Bool.or_eq_false_iff] at hq
          simp only [Path.findings]
          exact allFree_ite hclash <| allFree_append.2
            ⟨Ty.findings_free self hq.1, Args.findings_free hclash args hq.2⟩
      | _ => exact hclash
  | .known self trait name args, q, hq => by
      cases q with
      | known self' trait' name' args' =>
          simp only [Path.hasErased, Bool.or_eq_false_iff] at hq
          simp only [Path.findings]
          exact allFree_ite hclash <| allFree_append.2
            ⟨allFree_append.2 ⟨Ty.findings_free self hq.1.1,
              ItemRef.findings_free hclash trait hq.1.2⟩,
              Args.findings_free hclash args hq.2⟩
      | _ => exact hclash
  | .unknown self name args, q, hq => by
      cases q with
      | unknown self' name' args' =>
          simp only [Path.hasErased, Bool.or_eq_false_iff] at hq
          simp only [Path.findings]
          exact allFree_ite hclash <| allFree_append.2
            ⟨Ty.findings_free self hq.1, Args.findings_free hclash args hq.2⟩
      | _ => exact hclash
termination_by structural p => p

theorem ItemRef.findings_free {clash : Finding} (hclash : AllFree [clash]) :
    ∀ (r : ItemRef) {q : ItemRef}, q.hasErased = false →
      AllFree (r.findings clash q)
  | ⟨name, args⟩, ⟨name', args'⟩, hq => by
      simp only [ItemRef.findings]
      exact allFree_ite hclash
        (Args.findings_free hclash args (by simpa [ItemRef.hasErased] using hq))
termination_by structural r => r

theorem Args.findings_free {clash : Finding} (hclash : AllFree [clash]) :
    ∀ (a : Args) {b : Args}, b.hasErased = false → AllFree (a.findings clash b)
  | ⟨types, consts⟩, ⟨types', consts'⟩, hb => by
      simp only [Args.findings]
      exact allFree_ite hclash <| allFree_append.2
        ⟨Ty.findingsOfList_free types (by simpa [Args.hasErased] using hb),
          Const.findingsOfList_free hclash consts consts'⟩
termination_by structural a => a

theorem Ty.findingsOfList_free : ∀ (ts : List Ty) {us : List Ty},
    Ty.anyErased us = false → AllFree (Ty.findingsOfList ts us)
  | [], _, _ => by simp [Ty.findingsOfList]
  | _ :: _, [], _ => by simp [Ty.findingsOfList]
  | t :: ts, u :: us, hus => by
      simp only [Ty.anyErased, Bool.or_eq_false_iff] at hus
      exact allFree_append.2 ⟨Ty.findings_free t hus.1,
        Ty.findingsOfList_free ts hus.2⟩
termination_by structural ts => ts

theorem ItemRef.findingsOfList_free {clash : Finding} (hclash : AllFree [clash]) :
    ∀ (rs : List ItemRef) {qs : List ItemRef}, ItemRef.anyErased qs = false →
      AllFree (ItemRef.findingsOfList clash rs qs)
  | [], _, _ => by simp [ItemRef.findingsOfList]
  | _ :: _, [], _ => by simp [ItemRef.findingsOfList]
  | r :: rs, q :: qs, hqs => by
      simp only [ItemRef.anyErased, Bool.or_eq_false_iff] at hqs
      exact allFree_append.2 ⟨ItemRef.findings_free hclash r hqs.1,
        ItemRef.findingsOfList_free hclash rs hqs.2⟩
termination_by structural rs => rs

end

end Free

end Unerase
