import Unerase.Proofs.Expansion.Reference
import Unerase.Proofs.Expansion.Resolution

/-!
Expansion comes to an end, whatever the templates are. The recursion of the expansion is
unrolled here for a number of times that has nothing to do with the depth limit: there is
room for a key as long as fewer keys are active than the limit says, and a recursion that
goes on after the last time is taken to be endless. It never goes on, because a key is
active while what it stands for is expanded (`Expand.answer_unrolled`). In crates whose
bodies do not refer back to themselves the walks over bodies need no patience either, so
that the expansion finishes after a fixed number of nested calls
(`Crate.expand_finishes`).
-/

namespace Unerase

variable {ε : Type} {c : Crate} {depth patience : Nat}

namespace Expand

/-- Expands a key, with the recursion unrolled so many times. -/
def keyUnrolled (index : Index) (options : ExpansionOptions) :
    (depth : Nat) → Path → Nat → Expand Ty
  | 0, _, _ => .stop .endless
  | depth + 1, origin, i => do
      let s ← .state
      let descend? :=
        if s.active.length < options.maxDepth then
          some fun t : Ty => t.visit (.skipping (keyUnrolled index options depth))
        else none
      key index options descend? ⟨origin, i⟩

/-- The visitor that expands types in a pass, with the recursion unrolled so many times. -/
def visitorUnrolled (depth patience : Nat) (index : Index) (options : ExpansionOptions) :
    Visitor ExpansionError PassState :=
  .skipping (keyUnrolled index options depth) patience

variable {index : Index} {options : ExpansionOptions} {P : Fault ExpansionError → Prop}

theorem bracket_guarded {descend descend' : Ty → Expand Ty} {active : List TemplateKey}
    {k : TemplateKey} {t : Ty} (h : (Run.guarded Unit (fun s => s.active = k :: active) P).Holds
      Eq (descend t) fun _ => descend' t) :
    (Run.guarded Unit (fun s => s.active = active) P).Holds Eq
      (bracket options descend k t) fun _ => bracket options descend' k t := by
  intro _ s hs
  have h : Run.GuardedEnd _ P Eq (descend t (s.push k)) (descend' t (s.push k)) :=
    h () (s.push k) (congrArg (k :: ·) hs)
  simp only [bracket_apply]
  generalize descend t (s.push k) = outcome at h ⊢
  generalize descend' t (s.push k) = outcome' at h ⊢
  cases h with
  | ok huv hs =>
      subst huv
      exact .ok rfl (finish_active.trans (congrArg List.tail hs))
  | error he => exact .error he

/-- The room that is left and the keys that are active make up the limit. So the recursion is
over before it has been unrolled more often than there is room. -/
theorem answer_unrolled (hP : ∀ e, P (.error e)) {active : List TemplateKey} {room : Nat}
    (hroom : active.length + room = options.maxDepth) (hdepth : room < depth)
    (origin : Path) (i : Nat) :
    (Run.guarded Unit (fun s => s.active = active) P).Holds Eq
      (answer index options room origin i)
      fun _ => keyUnrolled index options depth origin i := by
  induction depth generalizing active room origin i with
  | zero => omega
  | succ depth ih =>
      rintro ⟨⟩ s rfl
      show Run.GuardedEnd _ P Eq (key index options (below index options room) ⟨origin, i⟩ s)
        (key index options (if s.active.length < options.maxDepth then
          some fun t : Ty => t.visit (.skipping (keyUnrolled index options depth))
        else none) ⟨origin, i⟩ s)
      simp only [key_apply, freshKey_apply]
      cases s.cache.lookup ⟨origin, i⟩ with
      | some u => exact .ok rfl rfl
      | none =>
          by_cases hk : ⟨origin, i⟩ ∈ s.countResolved.active
          · simp only [hk, if_true]
            exact .error (hP _)
          simp only [hk, if_false]
          cases room with
          | zero =>
              rw [if_neg (by omega)]
              exact .error (hP _)
          | succ less =>
              rw [if_pos (by omega)]
              simp only [below]
              cases hunfold : index.unfold ⟨origin, i⟩ with
              | error fault =>
                  obtain ⟨e, rfl, -⟩ := Index.unfold_error hunfold
                  exact .error (hP e)
              | ok t =>
                  have hactive : (⟨origin, i⟩ :: s.active).length + less =
                      options.maxDepth := by
                    rw [List.length_cons]
                    omega
                  refine bracket_guarded ?_ () s.countResolved rfl
                  simp only [typeWithin_eq_replacing, Ty.visit_skipping]
                  exact Ty.visit_replacing_related
                    (ih hactive (Nat.lt_of_succ_lt_succ hdepth)) t

theorem passVisitor_unrolled (hP : ∀ e, P (.error e)) (hdepth : options.maxDepth < depth)
    (t : Ty) : t.VisitsAlike (fun s => s.active = []) P (fun _ => True)
      (passVisitor index options)
      fun _ : Unit => visitorUnrolled depth patience index options := by
  have hroom : ([] : List TemplateKey).length + options.maxDepth = options.maxDepth :=
    Nat.zero_add _
  rw [Ty.VisitsAlike, visit_passVisitor, typeWithin_eq_replacing]
  simp only [visitorUnrolled, Ty.visit_skipping]
  exact Run.Comparison.mono (fun _ _ h => ⟨h, trivial⟩)
    (Ty.visit_replacing_related (answer_unrolled hP hroom hdepth) t)

end Expand

/-- The fault is one of the errors of the expansion, or a position in use in one of the bodies
does not exist. -/
inductive Fault.Justified (bs : List Body) : Fault ε → Prop
  | error (e : ε) : Justified bs (.error e)
  | outOfBounds {b : Body} {id : NodeId} : b ∈ bs → b.Reachable id → b.nodes.length ≤ id →
      Justified bs (.outOfBounds b.nodes.length id)

namespace Expansion

variable {options : ExpansionOptions}

theorem visit_unrolled (scope : Scope) (hc : ∀ b ∈ scope.bodiesOf c, b.Acyclic)
    (hdepth : options.maxDepth < depth) (patience : Nat) :
    Run.GuardedEnd (fun s => s.active = []) (Fault.Justified (scope.bodiesOf c)) Eq
      (c.visit (scope.restrict (Expand.passVisitor (Index.ofCrate c) options))
        PassState.start)
      (c.visit (scope.restrict
        (Expand.visitorUnrolled depth patience (Index.ofCrate c) options))
        PassState.start) := by
  have hv := Expand.passVisitor_forTypes (Index.ofCrate c) options
  have hvisit := scope.visit_guarded
    (w := fun _ : Unit => Expand.visitorUnrolled depth patience (Index.ofCrate c) options)
    hv.entersAll (fun _ => Visitor.skipping_entersAll) hv.body (fun _ _ => rfl)
    (fun _ => rfl) hc
    (fun t _ => Expand.passVisitor_unrolled Fault.Justified.error hdepth t)
    (fun b hb id hid hlength => .outOfBounds hb hid hlength)
  exact hvisit () PassState.start rfl

theorem pass_unrolled (scope : Scope) (hc : ∀ b ∈ scope.bodiesOf c, b.Acyclic)
    (hdepth : options.maxDepth < depth) (patience : Nat) :
    passBy (Expand.visitorUnrolled depth patience) scope options c = pass scope options c := by
  simp only [pass, passBy, (visit_unrolled scope hc hdepth patience).eq]

theorem pass_justified {scope : Scope} {fault : Fault ExpansionError}
    (h : pass scope options c = .error fault) (hc : ∀ b ∈ scope.bodiesOf c, b.Acyclic) :
    fault.Justified (scope.bodiesOf c) := by
  obtain ⟨s, hs⟩ := pass_error_iff.1 h
  have hvisit := visit_unrolled scope hc (Nat.lt_succ_self options.maxDepth) 0
  rw [hs] at hvisit
  exact hvisit.of_error

end Expansion

/-! ### A crate in which origins grow -/

namespace Sample

/-- What the function `grow` returns for the type. -/
def grow (t : Ty) : Ty :=
  .erased (.item ⟨⟨"sample", ["grow"]⟩, ⟨[t], []⟩⟩) 0 []

/-- A body that hides the type. -/
def bodyHiding (t : Ty) : Body :=
  ⟨[⟨.lit (.int 1), .prim .i32⟩], 0, [], [t]⟩

theorem bodyHiding_wellFormed (t : Ty) : (bodyHiding t).WellFormed := by
  apply Body.wellFormed_of_leaves Nat.zero_lt_one
  intro node hnode
  obtain rfl := List.mem_singleton.1 hnode
  rfl

/-- The function `grow` hides what it returns for the boxed type. -/
def growing : Crate where
  name := "sample"
  items := ⟨[("grow", .function ⟨⟨[⟨"T", none⟩], [], []⟩, [],
    grow (.param ⟨"T", .method 0⟩),
    some (bodyHiding (grow (boxed (.param ⟨"T", .method 0⟩))))⟩)]⟩
  inherentImpls := []
  traitImpls := []

theorem growing_wellFormed : ∀ b ∈ growing.bodies, b.WellFormed := by
  intro b hb
  obtain rfl := List.mem_singleton.1 hb
  exact bodyHiding_wellFormed _

end Sample

namespace Crate

variable {options : ExpansionOptions}

/-- An expansion stops with an error, or at a position in use that does not exist. -/
theorem expand_justified (hc : ∀ b ∈ c.bodies, b.Acyclic) {fault : Fault ExpansionError}
    (h : c.expand options = .error fault) : fault.Justified c.bodies := by
  rcases expand_error_iff.1 h with hfault | ⟨c₁, first, -, hfault⟩
  · exact Expansion.pass_justified hfault hc
  · -- No body is walked in the second pass.
    have hnone : ∀ b ∈ Scope.signatures.bodiesOf c₁, b.Acyclic := by simp
    cases Expansion.pass_justified hfault hnone with
    | error e => exact .error e
    | outOfBounds hb => cases hb

theorem expandBy_unrolled (hc : ∀ b ∈ c.bodies, b.Acyclic)
    (hdepth : options.maxDepth < depth) (patience : Nat) :
    c.expandBy (Expand.visitorUnrolled depth patience) options = c.expand options := by
  have hbodies := Expansion.pass_unrolled .bodies hc hdepth patience
  have hsignatures (c₁ : Crate) := Expansion.pass_unrolled .signatures (c := c₁)
    (by simp) hdepth patience
  simp only [expand_eq, expandBy, hbodies, hsignatures]

/-- In a crate whose bodies do not refer back to themselves the expansion finishes with a
crate or with an error, or stops at a position in a body that does not exist. One call more
than the depth limit says inside each other are enough for it, and no patience. -/
theorem expand_finishes (hc : ∀ b ∈ c.bodies, b.Acyclic) (options : ExpansionOptions) :
    (∀ depth patience, options.maxDepth < depth →
      c.expandBy (Expand.visitorUnrolled depth patience) options = c.expand options) ∧
    ((∃ out, c.expand options = .ok out) ∨
      ∃ fault, c.expand options = .error fault ∧ fault.Justified c.bodies) := by
  constructor
  · intro depth patience hdepth
    exact expandBy_unrolled hc hdepth patience
  · cases h : c.expand options with
    | ok out => exact .inl ⟨out, rfl⟩
    | error fault => exact .inr ⟨fault, rfl, expand_justified hc h⟩

/-- The function that hides itself at a larger type is expanded up to the limit. -/
theorem expand_finishes_growing :
    (∀ b ∈ Sample.growing.bodies, b.Acyclic) ∧
      (∀ depth patience, 3 < depth →
        Sample.growing.expandBy (Expand.visitorUnrolled depth patience) ⟨true, 3⟩ =
          Sample.growing.expand ⟨true, 3⟩) ∧
      ∃ k, Sample.growing.expand ⟨true, 3⟩ = .error (.error (.tooDeep k 3)) := by
  have hc : ∀ b ∈ Sample.growing.bodies, b.Acyclic :=
    fun b hb => (Sample.growing_wellFormed b hb).to_acyclic
  exact ⟨hc, (expand_finishes hc ⟨true, 3⟩).1, _, rfl⟩

end Crate

end Unerase
