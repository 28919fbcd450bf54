import Unerase.Proofs.Expansion.Reference

/-!
Memoization cannot be seen in the result. A crate that is expanded without a cache is
expanded to the same crate with one, at the same depth limit. The converse needs a
larger limit in general, because a key that is found in the cache takes no depth. So a crate
that is expanded at all is expanded with all options from some limit on
(`Crate.exists_limit_of_ok`).
-/

namespace Unerase

namespace Expansion

variable {c c' : Crate} {s : PassState} {maxDepth : Nat}

theorem pass_memoized {scope : Scope} (h : pass scope ⟨false, maxDepth⟩ c = .ok (c', s)) :
    ∃ s', pass scope ⟨true, maxDepth⟩ c = .ok (c', s') ∧
      s'.resolved ≤ s.resolved ∧ s.hits = 0 := by
  obtain ⟨s', hs', hahead⟩ := Expand.pass_memoized scope (pass_ok_iff.1 h)
  exact ⟨s', pass_ok_iff.2 hs', hahead.resolved, hahead.plain.2⟩

theorem pass_plain {scope : Scope} {options : ExpansionOptions}
    (h : pass scope options c = .ok (c', s)) :
    ∃ bound, ∀ maxDepth, bound ≤ maxDepth →
      ∃ s', pass scope ⟨false, maxDepth⟩ c = .ok (c', s') := by
  obtain ⟨⟨bound, hbound⟩, -⟩ := Expand.pass_unfolding scope (pass_ok_iff.1 h)
  refine ⟨bound, fun maxDepth hle => ?_⟩
  have hplain : (⟨false, maxDepth⟩ : ExpansionOptions).memoize = false := rfl
  obtain ⟨s', hs'⟩ := Expand.pass_of_unfolding scope hplain hle hbound
  exact ⟨s', pass_ok_iff.2 hs'⟩

end Expansion

namespace Crate

variable {c : Crate} {options : ExpansionOptions} {maxDepth : Nat}

theorem expand_succeeds_iff :
    (∃ out, c.expand options = .ok out) ↔ ∃ c₁ first,
      Expansion.pass .bodies options c = .ok (c₁, first) ∧
      ∃ c' second, Expansion.pass .signatures options c₁ = .ok (c', second) := by
  constructor
  · rintro ⟨⟨c', tally⟩, h⟩
    obtain ⟨c₁, first, second, hfirst, hsecond, -⟩ := expand_ok_iff.1 h
    exact ⟨c₁, first, hfirst, c', second, hsecond⟩
  · rintro ⟨c₁, first, hfirst, c', second, hsecond⟩
    exact ⟨_, expand_ok_iff.2 ⟨c₁, first, second, hfirst, hsecond, rfl⟩⟩

theorem expand_memoized_of_plain (h : ∃ out, c.expand ⟨false, maxDepth⟩ = .ok out) :
    ∃ out, c.expand ⟨true, maxDepth⟩ = .ok out := by
  obtain ⟨c₁, first, hfirst, c', second, hsecond⟩ := expand_succeeds_iff.1 h
  obtain ⟨first', hfirst', -⟩ := Expansion.pass_memoized hfirst
  obtain ⟨second', hsecond', -⟩ := Expansion.pass_memoized hsecond
  exact expand_succeeds_iff.2 ⟨c₁, first', hfirst', c', second', hsecond'⟩

/-- What is expanded with some options is expanded with all options from some limit on. -/
theorem exists_limit_of_ok (h : ∃ out, c.expand options = .ok out) :
    ∃ least, ∀ options', least ≤ options'.maxDepth →
      ∃ out, c.expand options' = .ok out := by
  obtain ⟨c₁, first, hfirst, c', second, hsecond⟩ := expand_succeeds_iff.1 h
  obtain ⟨m, hm⟩ := Expansion.pass_plain hfirst
  obtain ⟨n, hn⟩ := Expansion.pass_plain hsecond
  refine ⟨max m n, fun ⟨memoize, maxDepth⟩ hle => ?_⟩
  obtain ⟨hm', hn'⟩ := Nat.max_le.1 hle
  obtain ⟨first', hfirst'⟩ := hm maxDepth hm'
  obtain ⟨second', hsecond'⟩ := hn maxDepth hn'
  have hplain : ∃ out, c.expand ⟨false, maxDepth⟩ = .ok out :=
    expand_succeeds_iff.2 ⟨c₁, first', hfirst', c', second', hsecond'⟩
  cases memoize with
  | false => exact hplain
  | true => exact expand_memoized_of_plain hplain

end Crate

/-- With a cache every expansion goes as without one, and takes no more lookups. Without
a cache every expansion goes as with one, if the depth limit is large enough. -/
theorem Crate.expand_memoize (c : Crate) (maxDepth : Nat) :
    (∀ c' tally, c.expand ⟨false, maxDepth⟩ = .ok (c', tally) →
      tally.fromCache = 0 ∧
      ∃ tally', c.expand ⟨true, maxDepth⟩ = .ok (c', tally') ∧
        tally'.inBodies ≤ tally.inBodies ∧
        tally'.inSignatures ≤ tally.inSignatures) ∧
    (∀ c' tally, c.expand ⟨true, maxDepth⟩ = .ok (c', tally) →
      ∃ least, ∀ maxDepth', least ≤ maxDepth' →
        ∃ tally', c.expand ⟨false, maxDepth'⟩ = .ok (c', tally')) := by
  refine ⟨fun c' tally h => ?_, fun c' tally h => ?_⟩
  · obtain ⟨c₁, first, second, hfirst, hsecond, rfl⟩ := expand_ok_iff.1 h
    obtain ⟨first', hfirst', hbodies, hhits⟩ := Expansion.pass_memoized hfirst
    obtain ⟨second', hsecond', hsignatures, hhits'⟩ := Expansion.pass_memoized hsecond
    exact ⟨by simp [hhits, hhits'], _,
      expand_ok_iff.2 ⟨c₁, first', second', hfirst', hsecond', rfl⟩, hbodies,
      hsignatures⟩
  · obtain ⟨c₁, first, second, hfirst, hsecond, -⟩ := expand_ok_iff.1 h
    obtain ⟨bound, hbound⟩ := Expansion.pass_plain hfirst
    obtain ⟨bound', hbound'⟩ := Expansion.pass_plain hsecond
    refine ⟨max bound bound', fun maxDepth' hle => ?_⟩
    obtain ⟨first', hfirst'⟩ := hbound maxDepth' (by omega)
    obtain ⟨second', hsecond'⟩ := hbound' maxDepth' (by omega)
    exact ⟨_, expand_ok_iff.2 ⟨c₁, first', second', hfirst', hsecond', rfl⟩⟩

theorem Crate.expand_memoize_sample :
    Sample.before.expand ⟨false, 2⟩ = .ok (Sample.after, ⟨9, 3, 0⟩) ∧
      (∃ tally', Sample.before.expand ⟨true, 2⟩ = .ok (Sample.after, tally') ∧
        tally'.inBodies ≤ 9 ∧ tally'.inSignatures ≤ 3) ∧
      ∃ least, ∀ maxDepth', least ≤ maxDepth' →
        ∃ tally', Sample.before.expand ⟨false, maxDepth'⟩ =
          .ok (Sample.after, tally') := by
  have hplain : Sample.before.expand ⟨false, 2⟩ = .ok (Sample.after, ⟨9, 3, 0⟩) := rfl
  obtain ⟨-, tally', hmemoized, hbodies, hsignatures⟩ :=
    (expand_memoize Sample.before 2).1 _ _ hplain
  exact ⟨hplain, ⟨tally', hmemoized, hbodies, hsignatures⟩,
    (expand_memoize Sample.before 2).2 _ _ hmemoized⟩

end Unerase
