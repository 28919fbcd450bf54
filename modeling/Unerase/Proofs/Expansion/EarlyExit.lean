import Unerase.Proofs.Expansion.Idempotence
import Unerase.Proofs.Walk.Observer

namespace Unerase

open Observer

namespace Expand

variable {index : Index} {options : ExpansionOptions} {room : Nat} {t : Ty}

/-- The visitor of a pass leaves the type as it is and does not go into it. -/
def Skips (index : Index) (options : ExpansionOptions) (room : Nat) (t : Ty) : Prop :=
  (visitorWithin index options room).type t = pure (some t)

/-- The visitor of a pass, but for the types that it leaves out: these are walked as well. -/
def unskipping (index : Index) (options : ExpansionOptions) (room : Nat) :
    Visitor ExpansionError PassState :=
  { visitorWithin index options room with type := fun _ => pure none }

theorem unskipping_eq_replacing :
    unskipping index options room = .replacing (answer index options room) := by
  cases room <;> rfl

theorem skips_iff : Skips index options room t ↔ t.hasErased = false := by
  have htype : (visitorWithin index options room).type t =
      pure (if t.hasErased then none else some t) := by
    cases room <;> rfl
  rw [Skips, htype]
  cases t.hasErased with
  | false => simp
  | true =>
      -- The two answers differ in whatever state they are given.
      have hne : (pure none : Expand (Option Ty)) ≠ pure (some t) := by
        intro heq
        cases congrFun heq PassState.start
      simpa using hne

theorem visit_unskipping :
    t.visit (unskipping index options room) = t.visit (visitorWithin index options room) := by
  rw [unskipping_eq_replacing, ← typeWithin_eq_replacing, typeWithin_eq_visit]

theorem visit_unskipping_of_skips (h : Skips index options room t) :
    t.visit (unskipping index options room) = pure t := by
  rw [unskipping_eq_replacing]
  exact (Visitor.replacing_thorough _).visit_of_hasErased t (skips_iff.1 h)

theorem resolved_lt_of_not_skips (h : ¬ Skips index options room t) {u : Ty} {s s' : PassState}
    (hu : t.visit (unskipping index options room) s = (.ok u, s')) :
    s.resolved < s'.resolved := by
  rw [unskipping_eq_replacing, ← typeWithin_eq_replacing] at hu
  obtain ⟨hle, u', -, hsame⟩ := typeWithin_uncounted room t s u s' hu
  refine Nat.lt_of_le_of_ne hle fun heq => h (skips_iff.2 ?_)
  have hcompletes : t.Completes (Unfolding.visitor index 0) := ⟨u', hsame heq.symm⟩
  exact heightAtMost_zero_iff.1 (Unfolding.completes_iff.1 hcompletes)

theorem skips_iff_visit_unskipping :
    Skips index options room t ↔ t.visit (unskipping index options room) = pure t := by
  refine ⟨visit_unskipping_of_skips, fun hpure => ?_⟩
  by_contra h
  have hu := congrFun hpure PassState.start
  exact Nat.lt_irrefl _ (resolved_lt_of_not_skips h hu)

/-- A placeholder occurs in a type, a path, a reference or an argument list if and only if a
walk shows one to a visitor that only looks. A pass leaves out a type if and only if none is
shown there, and these are the types in which it would have nothing to do: going into them
changes neither the type nor the state, while in any other type it fails or counts a
placeholder. -/
theorem skips_iff_nothing_shown :
    (∀ t : Ty, ∃ seen, Shows (fun o => t.visit o.visitor) t seen ∧
      (t.hasErased = true ↔ ∃ u ∈ seen, u.isErased = true) ∧
      ∀ (index : Index) (options : ExpansionOptions) (room : Nat),
        t.visit (visitorWithin index options room) =
          t.visit (unskipping index options room) ∧
        (Skips index options room t ↔ ∀ u ∈ seen, u.isErased = false) ∧
        (Skips index options room t ↔ t.visit (unskipping index options room) = pure t) ∧
        (¬ Skips index options room t → ∀ s u s',
          t.visit (unskipping index options room) s = (.ok u, s') →
            s.resolved < s'.resolved)) ∧
    (∀ p : Path, ∃ seen, Shows (fun o => p.visit o.visitor) p seen ∧
      (p.hasErased = true ↔ ∃ u ∈ seen, u.isErased = true)) ∧
    (∀ r : ItemRef, ∃ seen, Shows (fun o => r.visit o.visitor) r seen ∧
      (r.hasErased = true ↔ ∃ u ∈ seen, u.isErased = true)) ∧
    ∀ a : Args, ∃ seen, Shows (fun o => a.visit o.visitor) a seen ∧
      (a.hasErased = true ↔ ∃ u ∈ seen, u.isErased = true) := by
  refine ⟨fun t => ?_, fun p => (Path.visit_tells p).exists_shown,
    fun r => (ItemRef.visit_tells r).exists_shown, fun a => (Args.visit_tells a).exists_shown⟩
  obtain ⟨seen, hseen, hfound⟩ := (Ty.visit_tells t).exists_shown
  refine ⟨seen, hseen, hfound, fun index options room => ⟨visit_unskipping.symm, ?_,
    skips_iff_visit_unskipping, fun h _ _ _ hu => resolved_lt_of_not_skips h hu⟩⟩
  rw [skips_iff, Bool.eq_false_iff, ne_eq, hfound]
  simp

end Expand

end Unerase
