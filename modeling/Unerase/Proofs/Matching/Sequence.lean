import Unerase.Proofs.Matching.Alignment
import Unerase.Proofs.Matching.Calls
import Unerase.Proofs.Matching.Fitting
import Unerase.Proofs.Matching.LastBinding

/-!
One matcher for several matches. In each of them it is told the calls up to the first one
that it refuses, and what it has bound before a failure stays bound. In the end the
parameters of an impl block stand for what they have lined up with last, in whichever match
that was, and these are the arguments of the block if none is missing
(`ImplBinding.matchEach_toArgs`).
-/

namespace Unerase

open Finding

namespace Finding

theorem untilClash_le (fs : List Finding) : untilClash fs <+: fs := by
  induction fs with
  | nil => exact List.prefix_rfl
  | cons f fs ih =>
      cases f with
      | clash => exact List.cons_prefix_cons.2 ⟨rfl, List.nil_prefix⟩
      | _ => exact List.cons_prefix_cons.2 ⟨rfl, ih⟩

theorem AllRelate.of_le {R : Ty → Ty → Prop} {fs gs : List Finding} (h : AllRelate R gs)
    (hle : fs <+: gs) : AllRelate R fs :=
  fun f hf => h f (hle.subset hf)

end Finding

namespace Matcher

variable {ε σ : Type} {m : Matcher ε σ} {s : σ}

/-- What the matcher is told in each of several matches, and how they end. Each match starts
from the state that the one before has left, also if that one has failed. What it is told is
what has been written down in the match, and these are the calls for the two types up to the
first one that it answers with an error. -/
inductive ToldEach (m : Matcher ε σ) :
    σ → List (Ty × Ty) → List (List Finding) → List (Except ε Unit) × σ → Prop
  | nil {s : σ} : m.ToldEach s [] [] ([], s)
  | cons {s s₁ s₂ : σ} {pattern concrete : Ty} {seen : List Finding} {outcome : Except ε Unit}
      {steps : List (Ty × Ty)} {told : List (List Finding)}
      {outcomes : List (Except ε Unit)} :
      pattern.matchWith m.watched concrete (s, []) = (outcome, s₁, seen) →
      m.Feeds s (pattern.calls concrete) seen (outcome, s₁) →
      m.ToldEach s₁ steps told (outcomes, s₂) →
      m.ToldEach s ((pattern, concrete) :: steps) (seen :: told) (outcome :: outcomes, s₂)

/-- The record of a match has the calls that the matcher gets to see, and no others. -/
theorem matchWith_watched_iff {pattern concrete : Ty} {s₁ : σ} {seen : List Finding}
    {outcome : Except ε Unit} :
    pattern.matchWith m.watched concrete (s, []) = (outcome, s₁, seen) ↔
      m.Feeds s (pattern.calls concrete) seen (outcome, s₁) := by
  constructor
  · intro h
    obtain ⟨seen', hseen'⟩ := m.exists_feeds (pattern.calls concrete) s
    have hrecord := hseen'.replay_watched []
    rw [← matchWith_eq_replay_calls, h] at hrecord
    cases hrecord
    exact hseen'
  · intro h
    rw [matchWith_eq_replay_calls]
    exact h.replay_watched []

theorem Feeds.linesUp {pattern concrete : Ty} {seen : List Finding}
    {outcome : Except ε Unit × σ} (h : m.Feeds s (pattern.calls concrete) seen outcome) :
    uses seen <+: pattern.params false ∧ AllRelate (pattern.LinesUp concrete) seen := by
  have hcalls : seen <+: pattern.calls concrete := h.seen_le
  have hfindings : seen <+: pattern.findings concrete := hcalls.trans (untilClash_le _)
  exact ⟨(hcalls.filterMap use?).trans (Ty.findings_follow pattern concrete).first,
    (Ty.findings_linesUp pattern concrete).of_le hfindings⟩

theorem ToldEach.linesUp {steps : List (Ty × Ty)} {told : List (List Finding)}
    {outcomes : List (Except ε Unit) × σ} (h : m.ToldEach s steps told outcomes) :
    List.Forall₂ (fun step seen => uses seen <+: step.1.params false ∧
      AllRelate (step.1.LinesUp step.2) seen) steps told := by
  induction h with
  | nil => exact .nil
  | cons _ hfeeds _ ih => exact .cons hfeeds.linesUp ih

end Matcher

namespace ImplBinding

variable {origin : Path} {bound : ImplBinding}

theorem exists_toldEach (origin : Path) (steps : List (Ty × Ty)) (bound : ImplBinding) :
    ∃ told, (matcher origin).ToldEach bound steps told (matchEach origin steps bound) := by
  induction steps generalizing bound with
  | nil => exact ⟨[], .nil⟩
  | cons step steps ih =>
      obtain ⟨pattern, concrete⟩ := step
      obtain ⟨seen, hseen⟩ := (matcher origin).exists_feeds (pattern.calls concrete) bound
      rw [← Matcher.matchWith_eq_replay_calls] at hseen
      obtain ⟨told, htold⟩ := ih (pattern.matchWith (matcher origin) concrete bound).2
      exact ⟨seen :: told, .cons (Matcher.matchWith_watched_iff.2 hseen) hseen htold⟩

theorem after_of_value? {f : Finding} (h : ∀ i, f.value? i = none) (bound : ImplBinding) :
    after [f] bound = bound := by
  apply List.ext_getElem?
  intro i
  simp [getElem?_after, last?_cons, last?_nil, h]

theorem after_append (fs gs : List Finding) (bound : ImplBinding) :
    after (fs ++ gs) bound = after gs (after fs bound) := by
  induction fs generalizing bound with
  | nil => rw [List.nil_append, after_nil]
  | cons f fs ih => rw [List.cons_append, after_cons, ih, ← after_cons]

theorem snd_answer (origin : Path) (f : Finding) (bound : ImplBinding) :
    ((matcher origin).answer f bound).2 = after [f] bound := by
  cases f with
  | type p t =>
      obtain ⟨name, slot⟩ := p
      cases slot with
      | impl i =>
          rw [after_type rfl]
          simp only [Matcher.answer, matcher, bindType]
          split
          · rfl
          · rename_i hi
            exact (List.set_eq_of_length_le (Nat.le_of_not_lt hi)).symm
      | self | method => exact (after_of_value? (fun _ => rfl) bound).symm
  | const | clash => exact (after_of_value? (fun _ => rfl) bound).symm

theorem after_of_feeds {fs seen : List Finding}
    {outcome : Except ExpansionError Unit × ImplBinding}
    (h : (matcher origin).Feeds bound fs seen outcome) : outcome.2 = after seen bound := by
  induction h with
  | done => exact (after_nil _).symm
  | @stop s s' f _ e hanswer =>
      rw [← snd_answer origin, hanswer]
  | @next s s' f _ seen _ hanswer _ ih =>
      rw [ih, after_cons, ← snd_answer origin f, hanswer]

/-- Failures make no difference to what is bound in the end. -/
theorem after_of_toldEach {steps : List (Ty × Ty)} {told : List (List Finding)}
    {outcomes : List (Except ExpansionError Unit) × ImplBinding}
    (h : (matcher origin).ToldEach bound steps told outcomes) :
    outcomes.2 = after told.flatten bound := by
  induction h with
  | nil => exact (after_nil _).symm
  | cons _ hfeeds _ ih =>
      rw [ih, List.flatten_cons, after_append, ← after_of_feeds hfeeds]

/-- After any matches, failed ones among them, the arguments of the block are what its type
parameters have lined up with last. The first parameter that has lined up with nothing is an
error, and if there is none, constant parameters are. -/
theorem matchEach_toArgs (origin : Path) (generics : Generics) (steps : List (Ty × Ty)) :
    ∃ told : List (List Finding),
      (matcher origin).ToldEach (unbound generics) steps told
        (matchEach origin steps (unbound generics)) ∧
      List.Forall₂ (fun step seen => uses seen <+: step.1.params false ∧
        AllRelate (step.1.LinesUp step.2) seen) steps told ∧
      (∀ i param, generics.types[i]? = some param → last? i told.flatten = none →
        (∀ j < i, (last? j told.flatten).isSome) →
        (matchEach origin steps (unbound generics)).2.toArgs origin generics =
          .error (.error (.unconstrained origin param.name i))) ∧
      ((∀ i < generics.types.length, (last? i told.flatten).isSome) →
        (generics.consts ≠ [] →
          (matchEach origin steps (unbound generics)).2.toArgs origin generics =
            .error (.error (.unsupported origin .implConsts))) ∧
        (generics.consts = [] →
          ∃ types : List Ty,
            (matchEach origin steps (unbound generics)).2.toArgs origin generics =
              .ok ⟨types, []⟩ ∧
            types.length = generics.types.length ∧
            ∀ i < generics.types.length, types[i]? = last? i told.flatten)) := by
  obtain ⟨told, htold⟩ := exists_toldEach origin steps (unbound generics)
  have hbound := after_of_toldEach htold
  rw [after_unbound] at hbound
  refine ⟨told, htold, htold.linesUp, ?_, fun hall => ?_⟩
  · intro i param hparam hmissing hbefore
    have hi : i < generics.types.length := (List.getElem?_eq_some_iff.1 hparam).1
    have hentry (j : Nat) (hj : j < generics.types.length) :
        (matchEach origin steps (unbound generics)).2[j]? = some (last? j told.flatten) := by
      simp [hbound, hj]
    refine toArgs_unconstrained hparam (hmissing ▸ hentry i hi) fun j hj => ?_
    obtain ⟨t, ht⟩ := Option.isSome_iff_exists.1 (hbefore j hj)
    exact ⟨t, ht ▸ hentry j (Nat.lt_trans hj hi)⟩
  · obtain ⟨types, htypes⟩ : ∃ types : List Ty,
        types.map some = (List.range generics.types.length).map fun i => last? i told.flatten :=
      ⟨_, map_some_valuesUpTo .never hall⟩
    have htypes' := hbound.trans htypes.symm
    refine ⟨toArgs_consts htypes', fun hconsts => ?_⟩
    refine ⟨types, toArgs_ok_iff.2 ⟨htypes', rfl, hconsts⟩, ?_, fun i hi => ?_⟩
    · simpa using congrArg List.length htypes
    · obtain ⟨t, ht⟩ := Option.isSome_iff_exists.1 (hall i hi)
      have hentry := congrArg (·[i]?) htypes
      simpa [hi, ht] using hentry

/-- The match fails at the second component, and the first one stays bound. -/
example (origin : Path) :
    let generics : Generics := ⟨[⟨"T", none⟩], [], []⟩
    (matchEach origin [(.tuple [.param ⟨"T", .impl 0⟩, .never], .tuple [.prim .u8, .prim .i8])]
      (unbound generics)).2.toArgs origin generics = .ok ⟨[.prim .u8], []⟩ :=
  rfl

end ImplBinding

end Unerase
