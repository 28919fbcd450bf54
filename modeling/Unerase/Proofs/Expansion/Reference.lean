import Unerase.Proofs.Expansion.Pass
import Unerase.Proofs.Substitution
import Unerase.Visitor.Count

namespace Unerase

namespace Expansion

variable {options : ExpansionOptions} {c c' : Crate} {s : PassState}
  {tally : ExpansionTally}

theorem pass_ok_iff {scope : Scope} :
    pass scope options c = .ok (c', s) ↔
      c.visit (scope.restrict (Expand.passVisitor (Index.ofCrate c) options))
        PassState.start = (.ok c', s) := by
  rw [pass, passBy]
  split <;> simp_all

theorem pass_error_iff {scope : Scope} {fault : Fault ExpansionError} :
    pass scope options c = .error fault ↔
      ∃ s, c.visit (scope.restrict (Expand.passVisitor (Index.ofCrate c) options))
        PassState.start = (.error fault, s) := by
  rw [pass, passBy]
  split <;> simp_all

theorem bodies_rel (h : pass .bodies options c = .ok (c', s)) :
    c.Rel Eq (fun b b' => b.Rel (Expands (Index.ofCrate c)) b' ∧
      b.Ends Visitor.idle.patience) c' := by
  obtain ⟨⟨bound, hvisit⟩, -⟩ := Expand.pass_unfolding .bodies
    (pass_ok_iff.1 h)
  -- The idle walk stands for the crate before the pass, so the relation between the two
  -- results is one between before and after.
  have hv := Unfolding.visitor_forTypes (Index.ofCrate c) bound
  have hc : c.Rel Eq Eq c := by rw [Crate.rel_eq]
  refine Crate.visit_related (R := Eq)
    (L := Run.agreement (Fault Empty) Unit (Fault ExpansionError) Unit Unit)
    Visitor.idle_thorough.entersAll
    (fun _ => Scope.restrict_entersAll hv.entersAll .bodies) ?types ?bodies hc
    () c () (by rw [Crate.visit_idle]; rfl) () () c' () hvisit
  case types =>
    rintro t _ rfl
    rw [Ty.visit_idle]
    simp only [Scope.bodies_visit]
    exact Run.Comparison.pure _ rfl
  case bodies =>
    rintro b _ rfl ⟨⟩ _ ⟨⟩ ⟨⟩ ⟨⟩ ⟨⟩ b' ⟨⟩ hb
    exact Body.rel_of_visit (v := Unfolding.visitor _ bound) hv.entersAll
      (fun t _ t' _ ht => Unfolding.visit_expands ht)
      (fun t t' ht => (Unfolding.visitor_thorough _ _).visit_of_hasErased t'
        ht.hasErased) hb

theorem signatures_rel {c₁ : Crate} {B : Body → Body → Prop} (hc : c.Rel Eq B c₁)
    (h : pass .signatures options c₁ = .ok (c', s)) :
    c.Rel (Expands (Index.ofCrate c₁)) B c' := by
  obtain ⟨⟨bound, hvisit⟩, -⟩ := Expand.pass_unfolding .signatures
    (pass_ok_iff.1 h)
  have hv := Unfolding.visitor_forTypes (Index.ofCrate c₁) bound
  refine Crate.visit_related
    (L := Run.agreement (Fault Empty) Unit (Fault ExpansionError) Unit Unit)
    Visitor.idle_thorough.entersAll (fun _ => hv.entersAll) ?types ?bodies hc
    () c () (by rw [Crate.visit_idle]; rfl) () () c' () hvisit
  case types =>
    rintro t _ rfl
    exact Ty.agreement_idle fun _ _ _ ht => Unfolding.visit_expands ht
  case bodies =>
    intro b d hbd
    simp only [hv.body]
    exact Run.Comparison.pure _ hbd

end Expansion

/-! ### A crate with a chain of placeholders -/

namespace Sample

def boxed (t : Ty) : Ty :=
  .path (.item ⟨⟨"sample", ["Boxed"]⟩, ⟨[t], []⟩⟩)

/-- What the method `get` of the boxed type returns. -/
def get (t : Ty) : Ty :=
  .erased (.inherent (boxed t) "get" ⟨[], []⟩) 0 []

/-- What the function `make` returns for the type. -/
def make (t : Ty) : Ty :=
  .erased (.item ⟨⟨"sample", ["make"]⟩, ⟨[t], []⟩⟩) 0 []

/-- The method `get` hides the type in the box, `make` hides what `get` returns, and
`main` uses both at a type without parameters. -/
def crate (get make : Ty → Ty) : Crate where
  name := "sample"
  items := ⟨[
    ("make", .function ⟨⟨[⟨"U", none⟩], [], []⟩, [], make (.param ⟨"U", .method 0⟩),
      some ⟨[⟨.lit (.int 1), get (.param ⟨"U", .method 0⟩)⟩], 0, [],
        [get (.param ⟨"U", .method 0⟩)]⟩⟩),
    ("main", .function ⟨⟨[], [], []⟩, [], .slice (make (.prim .i32)),
      some ⟨[⟨.lit (.int 1), make (.prim .i32)⟩,
        ⟨.tuple [0, 0], .tuple [make (.prim .i32), get (.prim .i32)]⟩], 1,
        [make (.prim .i32)], []⟩⟩)]⟩
  inherentImpls := [⟨⟨[⟨"T", none⟩], [], []⟩, boxed (.param ⟨"T", .impl 0⟩),
    ⟨[("get", ⟨⟨[], [], []⟩, [], get (.param ⟨"T", .impl 0⟩),
      some ⟨[⟨.lit (.int 1), .param ⟨"T", .impl 0⟩⟩], 0, [],
        [.param ⟨"T", .impl 0⟩]⟩⟩)]⟩⟩]
  traitImpls := []

/-- The sample with its placeholders. -/
def before : Crate := crate get make

/-- The sample as it is after the expansion. -/
def after : Crate := crate id id

end Sample

namespace Crate

variable {options : ExpansionOptions} {c c' : Crate} {tally : ExpansionTally}

theorem expand_eq (options : ExpansionOptions) (c : Crate) : c.expand options = (do
    let (c, first) ← Expansion.pass .bodies options c
    let (c, second) ← Expansion.pass .signatures options c
    .ok (c, ⟨first.resolved, second.resolved, first.hits + second.hits⟩)) :=
  rfl

theorem expand_ok_iff :
    c.expand options = .ok (c', tally) ↔ ∃ c₁ first second,
      Expansion.pass .bodies options c = .ok (c₁, first) ∧
      Expansion.pass .signatures options c₁ = .ok (c', second) ∧
      tally = ⟨first.resolved, second.resolved, first.hits + second.hits⟩ := by
  rw [expand_eq]
  constructor
  · intro h
    cases hfirst : Expansion.pass .bodies options c with
    | error => simp [bind, Except.bind, hfirst] at h
    | ok out =>
        obtain ⟨c₁, first⟩ := out
        cases hsecond : Expansion.pass .signatures options c₁ with
        | error => simp [bind, Except.bind, hfirst, hsecond] at h
        | ok out =>
            obtain ⟨c₂, second⟩ := out
            simp only [bind, Except.bind, hfirst, hsecond] at h
            cases h
            exact ⟨c₁, first, second, rfl, hsecond, rfl⟩
  · rintro ⟨c₁, first, second, hfirst, hsecond, rfl⟩
    simp only [bind, Except.bind, hfirst, hsecond]

theorem expand_error_iff {fault : Fault ExpansionError} :
    c.expand options = .error fault ↔
      Expansion.pass .bodies options c = .error fault ∨
      ∃ c₁ first, Expansion.pass .bodies options c = .ok (c₁, first) ∧
        Expansion.pass .signatures options c₁ = .error fault := by
  rw [expand_eq, except_bind_error_iff]
  simp only [except_bind_error_iff, reduceCtorEq, and_false, exists_false, or_false,
    Prod.exists]

/-- What the passes leave, and what there was in between. -/
theorem expand_rel (h : c.expand options = .ok (c', tally)) :
    ∃ c₁ first, Expansion.pass .bodies options c = .ok (c₁, first) ∧
      c.Rel (Expands (Index.ofCrate c₁))
        (fun b b' => b.Rel (Expands (Index.ofCrate c)) b' ∧
          b.Ends Visitor.idle.patience) c' := by
  obtain ⟨c₁, first, second, hfirst, hsecond, -⟩ := expand_ok_iff.1 h
  exact ⟨c₁, first, hfirst,
    Expansion.signatures_rel (Expansion.bodies_rel hfirst) hsecond⟩

/-- Wherever a type stands in the crate, the one expansion that it has takes its place:
in a body the expansion with the templates of the crate before both passes, and in a
signature the one with the templates of the crate between them. -/
theorem expand_expands (h : c.expand options = .ok (c', tally)) :
    ∃ c₁ first, Expansion.pass .bodies options c = .ok (c₁, first) ∧
      c.Rel (Expands.Only (Index.ofCrate c₁))
        (Body.Rel (Expands.Only (Index.ofCrate c))) c' := by
  obtain ⟨c₁, first, hfirst, hc⟩ := expand_rel h
  exact ⟨c₁, first, hfirst, hc.mono (fun _ _ ht => ht.only)
    fun _ _ hb => hb.1.mono fun _ _ ht => ht.only⟩

theorem expand_expands_sample :
    Sample.before.expand {} = .ok (Sample.after, ⟨7, 3, 4⟩) ∧
      ∃ c₁ first, Expansion.pass .bodies {} Sample.before = .ok (c₁, first) ∧
        Sample.before.Rel (Expands.Only (Index.ofCrate c₁))
          (Body.Rel (Expands.Only (Index.ofCrate Sample.before))) Sample.after :=
  have hexpand : Sample.before.expand {} = .ok (Sample.after, ⟨7, 3, 4⟩) := rfl
  ⟨hexpand, expand_expands hexpand⟩

theorem countErased_of_rel
    (h : c.Rel (fun _ t => t.hasErased = false)
      (fun b b' => b.Rel (fun _ t => t.hasErased = false) b' ∧
        b.Ends Visitor.idle.patience) c') : c'.countErased = .ok 0 := by
  have htype (body : Body → Run (Fault Empty) Nat Body) (t : Ty) (ht : t.hasErased = false) :
      (Observer.counter.visitor body).type t = pure none := by
    have herased : t.isErased = false := by
      cases t <;> simp_all [Ty.hasErased, Ty.isErased]
    funext n
    exact congrArg (Prod.mk _) (if_neg (Bool.eq_false_iff.1 herased))
  have hvisit : c'.visit Observer.counter.everywhere = pure c' := by
    refine Crate.visit_eq_pure (c := c) (fun _ => rfl) (h.mono ?_ ?_)
    · intro _ t ht
      exact Ty.visit_of_hasErased (fun _ => rfl) (htype _) t ht
    · rintro b b' ⟨hb, hends⟩
      refine Body.visit_eq_pure (b := b) (v := Observer.counter.visitor)
        (fun _ => rfl) (hb.mono fun _ t ht => ?_) hends
      exact Ty.visit_of_hasErased (fun _ => rfl) (htype _) t ht
  rw [countErased, hvisit]
  rfl

/-- No placeholder is left, at whatever depth: a visitor of the whole crate counts
none, and there is none in the place of any type. -/
theorem expand_countErased (h : c.expand options = .ok (c', tally)) :
    c'.countErased = .ok 0 ∧ c.Rel (fun _ t => t.hasErased = false)
      (Body.Rel fun _ t => t.hasErased = false) c' := by
  obtain ⟨c₁, first, -, hc⟩ := expand_rel h
  have hfree := hc.mono (S := fun _ t => t.hasErased = false)
    (D := fun b b' => b.Rel (fun _ t => t.hasErased = false) b' ∧
      b.Ends Visitor.idle.patience)
    (fun _ _ ht => ht.hasErased)
    fun _ _ hb => ⟨hb.1.mono fun _ _ ht => ht.hasErased, hb.2⟩
  exact ⟨countErased_of_rel hfree, hfree.mono (fun _ _ ht => ht) fun _ _ hb => hb.1⟩

theorem expand_countErased_sample :
    Sample.before.expand {} = .ok (Sample.after, ⟨7, 3, 4⟩) ∧
      Sample.after.countErased = .ok 0 ∧
        Sample.before.Rel (fun _ t => t.hasErased = false)
          (Body.Rel fun _ t => t.hasErased = false) Sample.after :=
  have hexpand : Sample.before.expand {} = .ok (Sample.after, ⟨7, 3, 4⟩) := rfl
  ⟨hexpand, expand_countErased hexpand⟩

end Crate

end Unerase
