import Unerase.Proofs.Matching.Bounds
import Unerase.Proofs.Matching.Occurrences

namespace Unerase

/-- What is used is one of the first `size` type parameters of the impl block. -/
def ParamUse.IsOwn (size : Nat) : ParamUse → Prop
  | .type p => ∃ i < size, p.slot = .impl i
  | .const _ => False

instance (size : Nat) : (u : ParamUse) → Decidable (u.IsOwn size)
  | .type p => inferInstanceAs (Decidable (∃ i < size, p.slot = .impl i))
  | .const _ => inferInstanceAs (Decidable False)

namespace Finding

/-- What type parameter `i` of the impl block lines up with here. -/
def value? (i : Nat) : Finding → Option Ty
  | .type p t => if p.slot = .impl i then some t else none
  | .const .. | .clash .. => none

/-- What type parameter `i` of the impl block lines up with last. -/
def last? (i : Nat) (fs : List Finding) : Option Ty :=
  fs.reverse.findSome? (value? i)

variable {i : Nat} {t : Ty} {fs : List Finding}

theorem last?_nil (i : Nat) : last? i [] = none := rfl

theorem last?_cons (i : Nat) (f : Finding) (fs : List Finding) :
    last? i (f :: fs) = (last? i fs).or (f.value? i) := by
  simp [last?, List.findSome?_append]

theorem forall_use_iff {P : ParamUse → Prop} :
    (∀ f ∈ fs, ∃ u, f.use? = some u ∧ P u) ↔ NoClash fs ∧ ∀ u ∈ uses fs, P u := by
  constructor
  · intro h
    refine ⟨fun t u hclash => ?_, fun u hu => ?_⟩
    · obtain ⟨u, huse, -⟩ := h _ hclash
      cases huse
    · obtain ⟨f, hf, huse⟩ := List.mem_filterMap.1 hu
      obtain ⟨u', huse', hP⟩ := h f hf
      rw [huse] at huse'
      cases huse'
      exact hP
  · rintro ⟨hclash, huses⟩ f hf
    cases f with
    | type p t => exact ⟨_, rfl, huses _ (mem_uses hf rfl)⟩
    | const p c => exact ⟨_, rfl, huses _ (mem_uses hf rfl)⟩
    | clash t u => exact absurd hf (hclash t u)

theorem exists_of_last? (h : last? i fs = some t) : ∃ p, .type p t ∈ fs ∧ p.slot = .impl i := by
  obtain ⟨f, hf, hvalue⟩ := List.exists_of_findSome?_eq_some h
  rw [List.mem_reverse] at hf
  cases f with
  | type p u =>
      simp only [value?] at hvalue
      split at hvalue
      · rename_i hslot
        cases hvalue
        exact ⟨p, hf, hslot⟩
      · cases hvalue
  | const | clash => cases hvalue

theorem last?_isSome_iff :
    (last? i fs).isSome = true ↔ ∃ p, .type p ∈ uses fs ∧ p.slot = .impl i := by
  constructor
  · intro h
    obtain ⟨t, ht⟩ := Option.isSome_iff_exists.1 h
    obtain ⟨p, hp, hslot⟩ := exists_of_last? ht
    exact ⟨p, mem_uses hp rfl, hslot⟩
  · rintro ⟨p, hp, hslot⟩
    obtain ⟨f, hf, huse⟩ := List.mem_filterMap.1 hp
    cases f with
    | type q t =>
        cases huse
        rw [last?, List.findSome?_isSome_iff]
        exact ⟨.type p t, List.mem_reverse.2 hf, by simp [value?, hslot]⟩
    | const | clash => cases huse

end Finding

namespace ImplBinding

open Finding

variable {origin : Path} {generics : Generics} {bound bound₁ : ImplBinding}
  {f : Finding} {fs : List Finding}

/-- The bindings after the findings, in which later ones replace earlier ones. -/
def after (fs : List Finding) (bound : ImplBinding) : ImplBinding :=
  bound.mapIdx fun i t? => (last? i fs).or t?

theorem getElem?_after (fs : List Finding) (bound : ImplBinding) (i : Nat) :
    (after fs bound)[i]? = bound[i]?.map fun t? => (last? i fs).or t? :=
  List.getElem?_mapIdx

theorem length_after (fs : List Finding) (bound : ImplBinding) :
    (after fs bound).length = bound.length :=
  List.length_mapIdx

theorem after_nil (bound : ImplBinding) : after [] bound = bound := by
  apply List.ext_getElem?
  intro i
  simp [getElem?_after, last?]

theorem after_cons (f : Finding) (fs : List Finding) (bound : ImplBinding) :
    after (f :: fs) bound = after fs (after [f] bound) := by
  apply List.ext_getElem?
  intro i
  simp [getElem?_after, last?_cons, last?_nil, Option.or_assoc, Function.comp_def]

theorem after_unbound (fs : List Finding) (generics : Generics) :
    after fs (unbound generics) =
      (List.range generics.types.length).map fun i => last? i fs := by
  apply List.ext_getElem?
  intro i
  by_cases hi : i < generics.types.length <;> simp [getElem?_after, unbound, hi]

theorem after_type {p : Param} {i : Nat} (hslot : p.slot = .impl i) (t : Ty)
    (bound : ImplBinding) : after [.type p t] bound = bound.set i (some t) := by
  apply List.ext_getElem?
  intro j
  rw [getElem?_after, last?_cons, last?_nil, value?, hslot, List.getElem?_set]
  by_cases hj : i = j
  · subst hj
    by_cases hi : i < bound.length <;> simp [hi]
  · simp [hj]

theorem answer_ok_iff : (matcher origin).answer f bound = (.ok (), bound₁) ↔
    (∃ u, f.use? = some u ∧ u.IsOwn bound.length) ∧ bound₁ = after [f] bound := by
  cases f with
  | type p t =>
      obtain ⟨name, slot⟩ := p
      cases slot with
      | impl i =>
          simp only [Matcher.answer, matcher, bindType]
          rw [after_type rfl]
          by_cases hi : i < bound.length <;> simp [use?, ParamUse.IsOwn, hi, eq_comm]
      | _ => simp [Matcher.answer, matcher, bindType, use?, ParamUse.IsOwn]
  | const p c => simp [Matcher.answer, matcher, Run.stop, use?, ParamUse.IsOwn]
  | clash t u => simp [Matcher.answer, Matcher.reject, matcher, use?]

theorem replay_ok_iff : (matcher origin).replay fs bound = (.ok (), bound₁) ↔
    (∀ f ∈ fs, ∃ u, f.use? = some u ∧ u.IsOwn bound.length) ∧ bound₁ = after fs bound := by
  induction fs generalizing bound with
  | nil =>
      rw [after_nil]
      simp [Matcher.replay, pure, Run.value, eq_comm]
  | cons f fs ih =>
      rw [List.forall_mem_cons, after_cons, Matcher.replay, Run.bind_ok_iff]
      constructor
      · rintro ⟨⟨⟩, _, hanswer, hreplay⟩
        obtain ⟨hf, rfl⟩ := answer_ok_iff.1 hanswer
        obtain ⟨hfs, rfl⟩ := ih.1 hreplay
        rw [length_after] at hfs
        exact ⟨⟨hf, hfs⟩, rfl⟩
      · rintro ⟨⟨hf, hfs⟩, rfl⟩
        refine ⟨(), _, answer_ok_iff.2 ⟨hf, rfl⟩, ih.2 ⟨?_, rfl⟩⟩
        rwa [length_after]

/-- A self type matches if it has the shape of the receiver and no other parameters than
those of the block. These are bound to what they have lined up with last. -/
theorem matchWith_ok_iff {pattern t : Ty} :
    pattern.matchWith (matcher origin) t (unbound generics) = (.ok (), bound) ↔
      NoClash (pattern.findings t) ∧
      (∀ u ∈ pattern.params false, u.IsOwn generics.types.length) ∧
      bound = (List.range generics.types.length).map fun i =>
        last? i (pattern.findings t) := by
  rw [Ty.matchWith_eq_replay, replay_ok_iff, after_unbound, forall_use_iff, and_assoc]
  refine and_congr_right fun hclash => ?_
  rw [Ty.uses_of_findings hclash, unbound, List.length_replicate]

theorem matchWith_unsupported {pattern t : Ty} (origin : Path)
    (hclash : NoClash (pattern.findings t))
    (h : ∃ u ∈ pattern.params false, ¬ u.IsOwn generics.types.length) :
    ∃ feature bound, pattern.matchWith (matcher origin) t (unbound generics) =
      (.error (.unsupported origin feature), bound) := by
  rcases hmatch : pattern.matchWith (matcher origin) t (unbound generics) with ⟨e | ⟨⟨⟩⟩, bound⟩
  · rw [Ty.matchWith_eq_replay] at hmatch
    obtain ⟨f, hf, bound₁, hanswer⟩ := Matcher.exists_answer_of_replay hmatch
    cases f with
    | type p u =>
        simp only [Matcher.answer, matcher, bindType] at hanswer
        split at hanswer
        · split at hanswer <;> cases hanswer
          exact ⟨_, _, rfl⟩
        · cases hanswer
          exact ⟨_, _, rfl⟩
    | const p c =>
        cases hanswer
        exact ⟨_, _, rfl⟩
    | clash t u => exact absurd hf (hclash t u)
  · obtain ⟨u, hu, hforeign⟩ := h
    obtain ⟨-, hown, -⟩ := matchWith_ok_iff.1 hmatch
    exact absurd (hown u hu) hforeign

theorem types_ok_iff {index : Nat} {ts : List Ty} :
    types origin generics index bound = .ok ts ↔ bound = ts.map some := by
  refine ⟨types_ok, ?_⟩
  rintro rfl
  induction ts generalizing index with
  | nil => rfl
  | cons t ts ih =>
      rw [List.map_cons, types, ih]
      rfl

/-- The bindings are arguments if none is missing and the block has no constant
parameters. -/
theorem toArgs_ok_iff {a : Args} : bound.toArgs origin generics = .ok a ↔
    bound = a.types.map some ∧ a.consts = [] ∧ generics.consts = [] := by
  obtain ⟨types, consts⟩ := a
  simp only [toArgs, except_bind_ok_iff, types_ok_iff, List.isEmpty_iff]
  by_cases hconsts : generics.consts = [] <;> simp [hconsts]

theorem types_unconstrained {index i : Nat} {param : TypeParam}
    (hparam : generics.types[index + i]? = some param) (hmissing : bound[i]? = some none)
    (hbefore : ∀ j < i, ∃ t, bound[j]? = some (some t)) :
    types origin generics index bound =
      .error (.error (.unconstrained origin param.name (index + i))) := by
  induction i generalizing index bound with
  | zero =>
      cases bound with
      | nil => cases hmissing
      | cons t? bound =>
          cases hmissing
          rw [types, ← Nat.add_zero index, hparam]
  | succ i ih =>
      obtain ⟨t, ht⟩ := hbefore 0 (Nat.zero_lt_succ i)
      cases bound with
      | nil => cases hmissing
      | cons t? bound =>
          cases ht
          have hrest : types origin generics (index + 1) bound =
              .error (.error (.unconstrained origin param.name (index + 1 + i))) :=
            ih (by rwa [Nat.add_right_comm]) hmissing
              fun j hj => hbefore (j + 1) (Nat.succ_lt_succ hj)
          rw [types, hrest, Nat.add_right_comm]
          rfl

theorem toArgs_consts {ts : List Ty} (hbound : bound = ts.map some)
    (hconsts : generics.consts ≠ []) : bound.toArgs origin generics =
      .error (.error (.unsupported origin .implConsts)) := by
  rw [toArgs, types_ok_iff.2 hbound]
  simp only [bind, Except.bind, List.isEmpty_iff, if_neg hconsts]

theorem toArgs_unconstrained {i : Nat} {param : TypeParam}
    (hparam : generics.types[i]? = some param) (hmissing : bound[i]? = some none)
    (hbefore : ∀ j < i, ∃ t, bound[j]? = some (some t)) :
    bound.toArgs origin generics =
      .error (.error (.unconstrained origin param.name i)) := by
  have htypes : types origin generics 0 bound =
      .error (.error (.unconstrained origin param.name (0 + i))) :=
    types_unconstrained (by rwa [Nat.zero_add]) hmissing hbefore
  rw [toArgs, htypes, Nat.zero_add]
  rfl

end ImplBinding

end Unerase
