import Unerase.Proofs.Expansion.Limit
import Unerase.Proofs.Walk.Observer

/-!
Expansions that have nothing to do. Whatever counts placeholders on its way, a pass as well
as the visitor that does nothing else, has met none of them if the count is still zero in
the end (`Scope.free_of_pass`, `Scope.free_of_counting`). A crate without placeholders is
left as it is, and what an expansion leaves is such a crate, so that further expansions of
it with whatever options change nothing and count nothing (`Crate.expand_idempotent`).
-/

namespace Unerase

variable {index : Index} {options : ExpansionOptions} {scope : Scope} {c c' : Crate}

/-! ### Counts -/

/-- The second side, which is meant to expand no keys, comes to the same value as the first
one unless that counts something. -/
abbrev Run.Uncounted {ε σ α : Type} (count : σ → Nat) (x : Run (Fault ε) σ α)
    (y : Run (Fault ExpansionError) Unit α) : Prop :=
  (uncounted (Fault ε) (Fault ExpansionError) count).Holds Eq x fun _ => y

theorem Expand.typeWithin_uncounted (room : Nat) (t : Ty) :
    Run.Uncounted PassState.resolved (typeWithin index options room t)
      (t.visit (Unfolding.visitor index 0)) := by
  induction room using Nat.strongRecOn generalizing t with
  | ind room ih =>
      rw [typeWithin_eq_replacing]
      refine Ty.visit_replacing_related (fun origin i => ?_) t
      apply Run.uncounted_of_lt
      intro s u s' hanswer
      rcases answer_ok_iff.1 hanswer with ⟨-, rfl⟩ | ⟨-, -, less, t, s₁, rfl, -, ht, rfl⟩
      · exact Nat.lt_succ_self s.resolved
      · have hle : s.resolved + 1 ≤ s₁.resolved :=
          (ih less (Nat.lt_succ_self less) t _ u s₁ ht).1
        rwa [finish_resolved]

theorem Ty.visit_counter_erased {body : Body → Run (Fault Empty) Nat Body} {t : Ty}
    (h : t.isErased = true) (n : Nat) :
    t.visit (Observer.counter.visitor body) n =
      t.walk (Observer.counter.visitor body) (n + 1) := by
  rw [Observer.visit_apply]
  exact congrArg _ (if_pos h)

theorem Ty.visit_counter {body : Body → Run (Fault Empty) Nat Body} {t : Ty}
    (h : t.isErased = false) :
    t.visit (Observer.counter.visitor body) = t.walk (Observer.counter.visitor body) := by
  funext n
  rw [Observer.visit_apply]
  exact congrArg _ (if_neg (Bool.eq_false_iff.1 h))

theorem Ty.visit_counter_uncounted (body : Body → Run (Fault Empty) Nat Body) (t : Ty) :
    Run.Uncounted id (t.visit (Observer.counter.visitor body))
      (t.visit (Unfolding.visitor index 0)) := by
  have hv := Observer.counter.entersAll body
  have hw := Unfolding.visitor_thorough index 0
  have hereditary : Ty.Hereditary fun t u =>
      Run.Uncounted id (t.visit (Observer.counter.visitor body))
        (u.visit (Unfolding.visitor index 0)) := by
    refine ⟨fun t h => ?_, fun origin i bounds horigin hbounds => ?_⟩
    · rw [visit_counter h.isErased, hw.visit]
      exact Run.Comparison.mono (fun _ _ => Ty.Parts.eq)
        (Ty.walk_related hv (fun _ => hw.entersAll) (fun _ _ ht => ht) h)
    · -- The walk over the origin and the bounds counts on.
      have hwalk : (Run.uncounted (Fault Empty) (Fault ExpansionError) id).Holds
          (fun _ _ => True) (Ty.walk (Observer.counter.visitor body) (.erased origin i bounds))
          fun _ => origin.visit (Unfolding.visitor index 0) >>= fun _ =>
            ItemRef.visitList (Unfolding.visitor index 0) bounds >>= fun _ => pure () := by
        refine Run.Comparison.bind _
          (Path.visit_related hv (fun _ => hw.entersAll) (fun _ _ ht => ht) horigin) ?_
        intro _ _ _
        refine Run.Comparison.bind _
          (ItemRef.visitList_related hv (fun _ => hw.entersAll) (fun _ _ ht => ht) hbounds) ?_
        exact fun _ _ _ => Run.Comparison.pure _ trivial
      apply Run.uncounted_of_lt
      intro n u n' h
      rw [visit_counter_erased rfl] at h
      have hle : n + 1 ≤ n' := (hwalk (n + 1) u n' h).1
      exact hle
  exact hereditary.ty t

/-! ### Crates without placeholders -/

namespace Scope

/-- The bodies that a pass walks come to an end, and no type that it comes to has a
placeholder. -/
structure Free (scope : Scope) (c : Crate) : Prop where
  wellFormed : ∀ b ∈ scope.bodiesOf c, b.WellFormed
  types : ∀ t, scope.Uses c t → t.hasErased = false

theorem free_of_visit
    (h : c.visit (scope.restrict (Unfolding.visitor index 0)) () = (.ok c', ())) :
    scope.Free c := by
  cases scope with
  | bodies =>
      have hbodies := Unfolding.bodies_ok_iff.1 ⟨c', h⟩
      constructor
      · intro b hb
        exact (hbodies b hb).1
      · rintro t ⟨b, hb, ht⟩
        exact heightAtMost_zero_iff.1 ((hbodies b hb).2 t ht)
  | signatures =>
      have htypes := Unfolding.signatures_ok_iff.1 ⟨c', h⟩
      constructor
      · simp
      · intro t ht
        exact heightAtMost_zero_iff.1 (htypes t ht)

theorem free_of_pass {s : PassState} (hs : s.resolved = 0)
    (h : c.visit (scope.restrict (Expand.passVisitor index options)) PassState.start =
      (.ok c', s)) : scope.Free c := by
  have hvisit := scope.visit_same (Run.uncounted_keepsFaults PassState.resolved)
    (Expand.passVisitor_forTypes index options)
    (fun _ => Unfolding.visitor_forTypes index 0)
    (fun t => by
      rw [Expand.visit_passVisitor]
      exact Expand.typeWithin_uncounted options.maxDepth t) c
  obtain ⟨-, d, -, hsame⟩ := hvisit PassState.start c' s h
  exact free_of_visit (hsame hs)

theorem free_of_counting (h : c.visit Observer.counter.everywhere 0 = (.ok c', 0)) :
    scope.Free c := by
  have hv := Unfolding.visitor_forTypes (Index.ofCrate c) 0
  have hc : c.Rel Eq Eq c := by rw [Crate.rel_eq]
  have types (body : Body → Run (Fault Empty) Nat Body) (t : Ty) :
      Run.Uncounted id (t.visit (Observer.counter.visitor body))
        (t.visit (Unfolding.visitor (Index.ofCrate c) 0)) :=
    Ty.visit_counter_uncounted body t
  have hbody (b : Body) : Run.Uncounted id (b.visit Observer.counter.visitor)
      (b.visit (Unfolding.visitor (Index.ofCrate c) 0)) :=
    Body.visit_same (Run.uncounted_keepsFaults id) (Observer.counter.entersAll pure)
      (fun _ => hv.entersAll) (types pure) (fun _ => rfl) b
  have hvisit := Crate.visit_related (R := fun _ _ => True) (B := fun _ _ => True)
    (L := Run.uncounted (Fault Empty) (Fault ExpansionError) id)
    (v := Observer.counter.everywhere)
    (w := fun _ => scope.restrict (Unfolding.visitor (Index.ofCrate c) 0))
    (Observer.counter.entersAll _) (fun _ => scope.restrict_entersAll hv.entersAll)
    ?types ?bodies hc
  · obtain ⟨-, d, -, hsame⟩ := hvisit 0 c' 0 h
    exact free_of_visit (hsame rfl)
  case types =>
    rintro t _ rfl
    cases scope with
    | bodies =>
        simp only [bodies_visit]
        exact Run.uncounted_pure (types _ t) t
    | signatures => exact Run.Comparison.mono (fun _ _ _ => trivial) (types _ t)
  case bodies =>
    rintro b _ rfl
    cases scope with
    | bodies => exact Run.Comparison.mono (fun _ _ _ => trivial) (hbody b)
    | signatures => exact Run.uncounted_pure (hbody b) b

theorem Free.visit (h : scope.Free c) :
    c.visit (scope.restrict (Expand.passVisitor index options)) = pure c := by
  have hv := Expand.passVisitor_forTypes index options
  refine Crate.visit_eq_pure (c := c) (scope.restrict_entersAll hv.entersAll)
    (Crate.rel_of_places (fun t ht => ?_) fun b hb => ?_)
  · cases scope with
    | bodies => exact bodies_visit _ t
    | signatures => exact Expand.visit_of_hasErased (h.types t ht)
  · cases scope with
    | bodies =>
        have hends : b.Ends (Expand.passVisitor index options).patience :=
          Body.ends_iff.2 (h.wellFormed b hb)
        refine Body.visit_eq_pure (b := b) hv.entersAll (Body.rel_of_uses fun t ht => ?_) hends
        exact Expand.visit_of_hasErased (h.types t ⟨b, hb, ht⟩)
    | signatures => exact hv.body b

theorem Free.pass (h : scope.Free c) :
    Expansion.pass scope options c = .ok (c, PassState.start) := by
  rw [Expansion.pass_ok_iff, h.visit]
  rfl

end Scope

namespace Crate

/-- All bodies come to an end, and there is no placeholder in any type. -/
def Free (c : Crate) : Prop :=
  ∀ scope : Scope, scope.Free c

theorem Free.expand (h : c.Free) (options : ExpansionOptions) :
    c.expand options = .ok (c, ⟨0, 0, 0⟩) :=
  expand_ok_iff.2 ⟨c, _, _, (h .bodies).pass, (h .signatures).pass, rfl⟩

theorem Free.expandEach (h : c.Free) (later : List ExpansionOptions) :
    c.expandEach later = .ok (c, later.map fun _ => ⟨0, 0, 0⟩) := by
  induction later with
  | nil => rfl
  | cons options later ih =>
      rw [Crate.expandEach, h.expand options]
      simp only [bind, Except.bind, ih, List.map_cons]

theorem Free.countErased (h : c.Free) : c.countErased = .ok 0 := by
  refine countErased_of_rel (c := c) (rel_of_places (h .signatures).types fun b hb => ?_)
  constructor
  · exact Body.rel_of_uses fun t ht => (h .bodies).types t ⟨b, hb, ht⟩
  · exact Body.ends_iff.2 ((h .bodies).wellFormed b hb)

theorem countErased_iff : c.countErased = .ok 0 ↔ c.Free := by
  constructor
  · intro h scope
    rw [Crate.countErased] at h
    rcases hvisit : c.visit Observer.counter.everywhere 0 with ⟨fault | c', n⟩
    · rw [hvisit] at h
      cases h
    · rw [hvisit] at h
      cases h
      exact Scope.free_of_counting hvisit
  · exact Free.countErased

/-- An expansion that counts nothing has nothing to do. -/
theorem free_of_expand (h : c.expand options = .ok (c', ⟨0, 0, 0⟩)) : c.Free := by
  obtain ⟨c₁, first, second, hfirst, hsecond, htally⟩ := expand_ok_iff.1 h
  have hfirstZero : first.resolved = 0 := (congrArg ExpansionTally.inBodies htally).symm
  have hsecondZero : second.resolved = 0 :=
    (congrArg ExpansionTally.inSignatures htally).symm
  have hbodies : Scope.bodies.Free c :=
    Scope.free_of_pass hfirstZero (Expansion.pass_ok_iff.1 hfirst)
  -- So the second pass starts from the same crate.
  have hsame : Expansion.pass .bodies options c = .ok (c, PassState.start) :=
    hbodies.pass
  cases hfirst.symm.trans hsame
  have hsignatures : Scope.signatures.Free c :=
    Scope.free_of_pass hsecondZero (Expansion.pass_ok_iff.1 hsecond)
  intro scope
  cases scope with
  | bodies => exact hbodies
  | signatures => exact hsignatures

theorem free_of_ok {tally : ExpansionTally} (h : c.expand options = .ok (c', tally)) :
    c'.Free := by
  obtain ⟨c₁, first, -, hc⟩ := expand_rel h
  refine countErased_iff.1 (countErased_of_rel (hc.mono (fun _ _ ht => ht.hasErased) ?_))
  rintro b b' ⟨hb, hends⟩
  exact ⟨hb.mono fun _ _ ht => ht.hasErased, hends⟩

/-- An expansion counts nothing exactly if a visitor of the whole crate comes to no
placeholder, and then it changes nothing. So after any expansion all further ones, with
whatever options, change nothing and count nothing. -/
theorem expand_idempotent (c : Crate) (options : ExpansionOptions) :
    ((∃ c', c.expand options = .ok (c', ⟨0, 0, 0⟩)) ↔ c.countErased = .ok 0) ∧
    (c.countErased = .ok 0 → c.expand options = .ok (c, ⟨0, 0, 0⟩)) ∧
    ∀ c' tally, c.expand options = .ok (c', tally) → ∀ later : List ExpansionOptions,
      c'.expandEach later = .ok (c', later.map fun _ => ⟨0, 0, 0⟩) := by
  refine ⟨?_, ?_, ?_⟩
  · constructor
    · rintro ⟨c', h⟩
      exact (free_of_expand h).countErased
    · intro h
      exact ⟨c, (countErased_iff.1 h).expand options⟩
  · intro h
    exact (countErased_iff.1 h).expand options
  · intro c' tally h later
    exact (free_of_ok h).expandEach later

/-- A crate is expanded once and for all, and needs no room after that. -/
theorem expand_idempotent_sample :
    Sample.before.expand {} = .ok (Sample.after, ⟨7, 3, 4⟩) ∧
      Sample.after.countErased = .ok 0 ∧
      Sample.after.expand ⟨true, 0⟩ = .ok (Sample.after, ⟨0, 0, 0⟩) ∧
      Sample.after.expandEach [⟨false, 0⟩, ⟨true, 64⟩] =
        .ok (Sample.after, [⟨0, 0, 0⟩, ⟨0, 0, 0⟩]) := by
  have hexpand : Sample.before.expand {} = .ok (Sample.after, ⟨7, 3, 4⟩) := rfl
  have hcount : Sample.after.countErased = .ok 0 := rfl
  obtain ⟨-, -, hlater⟩ := expand_idempotent Sample.before {}
  obtain ⟨-, hzero, -⟩ := expand_idempotent Sample.after ⟨true, 0⟩
  exact ⟨hexpand, hcount, hzero hcount, hlater _ _ hexpand _⟩

end Crate

end Unerase
