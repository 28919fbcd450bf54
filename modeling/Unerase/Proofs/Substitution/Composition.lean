import Unerase.Expansion.Index
import Unerase.Proofs.Substitution

namespace Unerase

namespace Subst

/-- The arguments that a substitution holds, those of the impl block first. -/
def args (s : Subst) : List Args :=
  s.impl?.toList ++ s.method?.toList

/-- All types that the substitution has for parameters. -/
def types (s : Subst) : List Ty :=
  s.self?.toList ++ s.args.flatMap Args.types

/-- All constants that it has for parameters. -/
def consts (s : Subst) : List Const :=
  s.args.flatMap Args.consts

/-- The same sources are there, with equally many types and equally many constants. -/
structure SameShape (s s' : Subst) : Prop where
  self? : s.self?.isSome = s'.self?.isSome
  impl? : Option.Rel (fun a b => a.types.length = b.types.length ∧
    a.consts.length = b.consts.length) s.impl? s'.impl?
  method? : Option.Rel (fun a b => a.types.length = b.types.length ∧
    a.consts.length = b.consts.length) s.method? s'.method?

/-- The substitution with the instances of what the first one holds. -/
def compose (s₁ s₂ : Subst) : Except Param Subst := do
  let self? ← s₁.self?.mapM (Ty.subst s₂)
  let impl? ← s₁.impl?.mapM (Args.subst s₂)
  let method? ← s₁.method?.mapM (Args.subst s₂)
  .ok ⟨self?, impl?, method?⟩

theorem instantiate_ok_iff {s : Subst} {t u : Ty} :
    s.instantiate t = .ok u ↔ t.subst s = .ok u := by
  rw [instantiate]
  cases t.subst s <;> simp

end Subst

section Lists

variable {s : Subst}

theorem Const.exists_substList {cs : List Const} (h : ∀ c ∈ cs, ∃ d, c.subst s = .ok d) :
    ∃ ds, Const.substList s cs = .ok ds := by
  induction cs with
  | nil => exact ⟨[], rfl⟩
  | cons c cs ih =>
      obtain ⟨⟨d, hd⟩, hcs⟩ := List.forall_mem_cons.1 h
      obtain ⟨ds, hds⟩ := ih hcs
      exact ⟨d :: ds, by simp [Const.substList, bind, Except.bind, hd, hds]⟩

theorem Ty.exists_substList {ts : List Ty} (h : ∀ t ∈ ts, ∃ u, t.subst s = .ok u) :
    ∃ us, Ty.substList s ts = .ok us := by
  induction ts with
  | nil => exact ⟨[], rfl⟩
  | cons t ts ih =>
      obtain ⟨⟨u, hu⟩, hts⟩ := List.forall_mem_cons.1 h
      obtain ⟨us, hus⟩ := ih hts
      exact ⟨u :: us, by simp [Ty.substList, bind, Except.bind, hu, hus]⟩

theorem Args.exists_subst {a : Args} (htypes : ∀ t ∈ a.types, ∃ u, t.subst s = .ok u)
    (hconsts : ∀ c ∈ a.consts, ∃ d, c.subst s = .ok d) : ∃ b, a.subst s = .ok b := by
  obtain ⟨types, consts⟩ := a
  obtain ⟨us, hus⟩ := Ty.exists_substList htypes
  obtain ⟨ds, hds⟩ := Const.exists_substList hconsts
  exact ⟨⟨us, ds⟩, by simp [Args.subst, bind, Except.bind, hus, hds]⟩

theorem Args.length_subst {a b : Args} (h : a.subst s = .ok b) :
    a.types.length = b.types.length ∧ a.consts.length = b.consts.length := by
  obtain ⟨types, consts⟩ := a
  simp only [Args.subst, except_bind_ok_iff] at h
  obtain ⟨us, hus, ds, hds, ⟨⟩⟩ := h
  exact ⟨(Ty.forall₂_of_substList hus).length_eq, (Const.forall₂_of_substList hds).length_eq⟩

end Lists

theorem option_mapM_ok_iff {ε α β : Type} {f : α → Except ε β} {a? : Option α}
    {b? : Option β} : a?.mapM f = .ok b? ↔ Option.Rel (fun a b => f a = .ok b) a? b? := by
  cases a? with
  | none => cases b? <;> simp [pure, Except.pure]
  | some a =>
      cases h : f a <;> cases b? <;>
        simp [Option.rel_some_some, h, Functor.map, Except.map]

theorem exists_option_mapM {ε α β : Type} (f : α → Except ε β) {a? : Option α}
    (h : ∀ a ∈ a?, ∃ b, f a = .ok b) : ∃ b?, a?.mapM f = .ok b? := by
  cases a? with
  | none => exact ⟨none, rfl⟩
  | some a =>
      obtain ⟨b, hb⟩ := h a rfl
      exact ⟨some b, option_mapM_ok_iff.2 (.some hb)⟩

namespace Subst

variable {s₁ s₂ s₃ : Subst}

theorem compose_ok_iff : s₁.compose s₂ = .ok s₃ ↔ s₁.Then s₂ s₃ := by
  obtain ⟨self?, impl?, method?⟩ := s₃
  simp only [compose, except_bind_ok_iff, option_mapM_ok_iff]
  constructor
  · rintro ⟨_, hself, _, himpl, _, hmethod, ⟨⟩⟩
    exact ⟨hself, himpl, hmethod⟩
  · rintro ⟨hself, himpl, hmethod⟩
    exact ⟨_, hself, _, himpl, _, hmethod, rfl⟩

theorem Then.sameShape (h : s₁.Then s₂ s₃) : s₁.SameShape s₃ where
  self? := optionRel_isSome h.self?
  impl? := optionRel_mono (fun _ _ => Args.length_subst) h.impl?
  method? := optionRel_mono (fun _ _ => Args.length_subst) h.method?

theorem exists_compose (htypes : ∀ t ∈ s₁.types, ∃ u, t.subst s₂ = .ok u)
    (hconsts : ∀ c ∈ s₁.consts, ∃ d, c.subst s₂ = .ok d) :
    ∃ s₃, s₁.compose s₂ = .ok s₃ := by
  have hargs : ∀ a ∈ s₁.args, ∃ b, a.subst s₂ = .ok b := by
    intro a ha
    apply Args.exists_subst
    · intro t ht
      exact htypes t (List.mem_append_right _ (List.mem_flatMap.2 ⟨a, ha, ht⟩))
    · intro c hc
      exact hconsts c (List.mem_flatMap.2 ⟨a, ha, hc⟩)
  have hself : ∀ t ∈ s₁.self?, ∃ u, t.subst s₂ = .ok u := fun t ht =>
    htypes t (List.mem_append_left _ (Option.mem_toList.2 ht))
  have himpl : ∀ a ∈ s₁.impl?, ∃ b, a.subst s₂ = .ok b := fun a ha =>
    hargs a (List.mem_append_left _ (Option.mem_toList.2 ha))
  have hmethod : ∀ a ∈ s₁.method?, ∃ b, a.subst s₂ = .ok b := fun a ha =>
    hargs a (List.mem_append_right _ (Option.mem_toList.2 ha))
  obtain ⟨self?, hself⟩ := exists_option_mapM (Ty.subst s₂) hself
  obtain ⟨impl?, himpl⟩ := exists_option_mapM (Args.subst s₂) himpl
  obtain ⟨method?, hmethod⟩ := exists_option_mapM (Args.subst s₂) hmethod
  exact ⟨⟨self?, impl?, method?⟩, by simp [compose, bind, Except.bind, *]⟩

/-- To instantiate by one substitution and then by another is to instantiate by the
substitution with the instances of what the first one holds. -/
theorem instantiate_compose (htypes : ∀ t ∈ s₁.types, ∃ u, s₂.instantiate t = .ok u)
    (hconsts : ∀ c ∈ s₁.consts, ∃ d, c.subst s₂ = .ok d) :
    ∃ s₃, s₁.compose s₂ = .ok s₃ ∧ s₁.SameShape s₃ ∧
      ∀ t u, s₁.instantiate t = .ok u →
        ∃ v, s₂.instantiate u = .ok v ∧ s₃.instantiate t = .ok v := by
  simp only [instantiate_ok_iff] at htypes ⊢
  obtain ⟨s₃, hcompose⟩ := exists_compose htypes hconsts
  have hthen := compose_ok_iff.1 hcompose
  exact ⟨s₃, hcompose, hthen.sameShape, fun t u ht => Ty.subst_then hthen ht⟩

end Subst

/-! ### Two substitutions with all sources -/

namespace Sample

/-- What `make` hides, with arguments, for a type that has the trait `Show`. -/
def made (t shown : Ty) (size : Const) : Ty :=
  .erased (.item ⟨⟨"sample", ["make"]⟩, ⟨[t], [size]⟩⟩) 0
    [⟨⟨"sample", ["Show"]⟩, ⟨[shown], []⟩⟩]

/-- A method that takes its receiver and an array. -/
def method (self elem : Ty) (size : Const) (result : Ty) : Ty :=
  .fn [self, .array elem size] result

/-- All kinds of slots, also in a placeholder and in its bounds. -/
def template : Ty :=
  method (.param ⟨"Self", .self⟩) (.param ⟨"T", .impl 0⟩) (.param ⟨"N", .impl 0⟩)
    (made (.param ⟨"U", .method 0⟩) (.param ⟨"T", .impl 0⟩) (.param ⟨"M", .method 0⟩))

/-- What the parameters in the template are in a function with parameters of its own. -/
def generic : Subst where
  self? := some (.slice (.param ⟨"V", .method 0⟩))
  impl? := some ⟨[.param ⟨"V", .method 0⟩], [.param ⟨"L", .method 0⟩]⟩
  method? := some ⟨[made (.param ⟨"Self", .self⟩) .never (.lit 1)], [.lit 2]⟩

/-- A call of that function. -/
def call : Subst :=
  .ofInherent (.prim .bool) ⟨[], []⟩ ⟨[.prim .u8], [.lit 7]⟩

end Sample

/-- The two ways of instantiation lead to the same type, in which no parameter is left. -/
theorem Subst.instantiate_compose_sample :
    (∀ t ∈ Sample.generic.types, ∃ u, Sample.call.instantiate t = .ok u) ∧
    (∀ c ∈ Sample.generic.consts, ∃ d, c.subst Sample.call = .ok d) ∧
    ∃ u, Sample.generic.instantiate Sample.template = .ok u ∧
      Sample.call.instantiate u = .ok
        (Sample.method (.slice (.prim .u8)) (.prim .u8) (.lit 7)
          (Sample.made (Sample.made (.prim .bool) .never (.lit 1)) (.prim .u8) (.lit 2))) ∧
      ∃ s₃, Sample.generic.compose Sample.call = .ok s₃ ∧
        s₃.instantiate Sample.template = Sample.call.instantiate u := by
  have htypes : ∀ t ∈ Sample.generic.types, ∃ u, Sample.call.instantiate t = .ok u := by
    exact List.forall_mem_cons.2 ⟨⟨_, rfl⟩, List.forall_mem_cons.2
      ⟨⟨_, rfl⟩, List.forall_mem_cons.2 ⟨⟨_, rfl⟩, List.forall_mem_nil _⟩⟩⟩
  have hconsts : ∀ c ∈ Sample.generic.consts, ∃ d, c.subst Sample.call = .ok d := by
    exact List.forall_mem_cons.2 ⟨⟨_, rfl⟩, List.forall_mem_cons.2
      ⟨⟨_, rfl⟩, List.forall_mem_nil _⟩⟩
  obtain ⟨s₃, hcompose, -, h⟩ := Subst.instantiate_compose htypes hconsts
  obtain ⟨v, hv, hv'⟩ := h Sample.template _ rfl
  exact ⟨htypes, hconsts, _, rfl, rfl, s₃, hcompose, hv'.trans hv.symm⟩

end Unerase
