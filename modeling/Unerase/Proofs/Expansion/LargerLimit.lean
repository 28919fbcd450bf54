import Unerase.Proofs.Expansion.Reference

namespace Unerase

variable {limit larger : Nat}

/-- The depth limit is what has stopped an expansion. -/
def Fault.IsTooDeep (limit : Nat) (fault : Fault ExpansionError) : Prop :=
  ∃ k, fault = .error (.tooDeep k limit)

namespace Expand

variable {index : Index} {memoize : Bool}

/-- A type takes the same course where there is more room, unless there is not room enough
in the first place. -/
theorem typeWithin_larger {room more : Nat} (hle : room ≤ more) (t : Ty) :
    (Run.lockstepUnless PassState Unit (Fault.IsTooDeep limit)).Holds Eq
      (typeWithin index ⟨memoize, limit⟩ room t)
      fun _ => typeWithin index ⟨memoize, larger⟩ more t := by
  induction room using Nat.strongRecOn generalizing more t with
  | ind room ih =>
      simp only [typeWithin_eq_replacing]
      refine Ty.visit_replacing_related (fun origin i => ?_) t
      rw [Run.lockstepUnless_iff]
      intro s
      simp only [answer, key_apply, freshKey_apply]
      cases s.cache.lookup ⟨origin, i⟩ with
      | some u => exact .inr rfl
      | none =>
          by_cases hk : ⟨origin, i⟩ ∈ s.countResolved.active
          · simp [hk]
          · simp only [hk, if_false]
            cases room with
            | zero => exact .inl ⟨_, _, rfl, _, rfl⟩
            | succ less =>
                obtain ⟨m, rfl⟩ : ∃ m, more = m + 1 := ⟨more - 1, by omega⟩
                simp only [below, bracket_apply]
                cases index.unfold ⟨origin, i⟩ with
                | error fault => exact .inr rfl
                | ok t =>
                    have hless := Run.lockstepUnless_iff.1
                      (ih less (Nat.lt_succ_self less) (Nat.le_of_succ_le_succ hle) t)
                      (s.countResolved.push ⟨origin, i⟩)
                    simp only
                    rcases hless with ⟨fault, s₁, h, hdeep⟩ | h
                    · exact .inl ⟨fault, s₁.pop, by rw [h], hdeep⟩
                    · exact .inr (by rw [h]; rfl)

end Expand

theorem Expansion.pass_larger (scope : Scope) (hle : limit ≤ larger) (memoize : Bool)
    (c : Crate) :
    (∃ fault, pass scope ⟨memoize, limit⟩ c = .error fault ∧ fault.IsTooDeep limit) ∨
      pass scope ⟨memoize, larger⟩ c = pass scope ⟨memoize, limit⟩ c := by
  have hvisit := scope.visit_same
    (Run.lockstepUnless_keepsFaults (Fault.IsTooDeep limit))
    (Expand.passVisitor_forTypes (Index.ofCrate c) ⟨memoize, limit⟩)
    (fun _ : Unit => Expand.passVisitor_forTypes (Index.ofCrate c) ⟨memoize, larger⟩)
    (fun t => by
      simp only [Expand.visit_passVisitor]
      exact Expand.typeWithin_larger hle t) c
  simp only [pass, passBy]
  rcases Run.lockstepUnless_iff.1 hvisit PassState.start with ⟨fault, s, h, hdeep⟩ | h
  · exact .inl ⟨fault, by rw [h], hdeep⟩
  · exact .inr (by rw [h])

namespace Crate

/-- The limit has stopped the expansion, or it makes no difference. -/
theorem expand_tooDeep_or_eq (hle : limit ≤ larger) (memoize : Bool) (c : Crate) :
    (∃ fault, c.expand ⟨memoize, limit⟩ = .error fault ∧ fault.IsTooDeep limit) ∨
      c.expand ⟨memoize, larger⟩ = c.expand ⟨memoize, limit⟩ := by
  rcases Expansion.pass_larger .bodies hle memoize c with
    ⟨fault, hfault, hdeep⟩ | hbodies
  · exact .inl ⟨fault, expand_error_iff.2 (.inl hfault), hdeep⟩
  cases hfirst : Expansion.pass .bodies ⟨memoize, limit⟩ c with
  | error fault =>
      rw [hfirst] at hbodies
      rw [expand_error_iff.2 (.inl hfirst)]
      exact .inr (expand_error_iff.2 (.inl hbodies))
  | ok out =>
      obtain ⟨c₁, first⟩ := out
      rw [hfirst] at hbodies
      rcases Expansion.pass_larger .signatures hle memoize c₁ with
        ⟨fault, hfault, hdeep⟩ | hsignatures
      · exact .inl ⟨fault, expand_error_iff.2 (.inr ⟨c₁, first, hfirst, hfault⟩), hdeep⟩
      · refine .inr ?_
        simp only [expand_eq, hbodies, hfirst, bind, Except.bind, hsignatures]

/-- A larger limit never hurts: what is expanded is expanded to the same crate with the
same tally, and what fails for another reason than the limit fails for that reason. -/
theorem expand_larger (hle : limit ≤ larger) (memoize : Bool) (c : Crate) :
    (∀ c' tally, c.expand ⟨memoize, limit⟩ = .ok (c', tally) →
      c.expand ⟨memoize, larger⟩ = .ok (c', tally)) ∧
    ∀ fault, c.expand ⟨memoize, limit⟩ = .error fault → ¬ fault.IsTooDeep limit →
      c.expand ⟨memoize, larger⟩ = .error fault := by
  rcases expand_tooDeep_or_eq hle memoize c with ⟨fault, hfault, hdeep⟩ | heq
  · constructor
    · intro c' tally h
      rw [hfault] at h
      cases h
    · intro fault' h hnot
      rw [hfault] at h
      cases h
      exact absurd hdeep hnot
  · rw [heq]
    exact ⟨fun _ _ h => h, fun _ h _ => h⟩

theorem expand_larger_sample :
    2 ≤ 64 ∧ Sample.before.expand ⟨true, 2⟩ = .ok (Sample.after, ⟨7, 3, 4⟩) ∧
      Sample.before.expand ⟨true, 64⟩ = .ok (Sample.after, ⟨7, 3, 4⟩) := by
  have hexpand : Sample.before.expand ⟨true, 2⟩ = .ok (Sample.after, ⟨7, 3, 4⟩) := rfl
  have hle : 2 ≤ 64 := by omega
  exact ⟨hle, hexpand, (expand_larger hle true Sample.before).1 _ _ hexpand⟩

end Crate

end Unerase
