import Unerase.Proofs.Expansion.Overlap

/-!
Selection of an impl block. A block is selected for a receiver by one matcher, and another
one then matches its self type against the receiver. The two matchers refuse different
things, but whether the two types have the same shape does not depend on the matcher
(`Ty.noClash_of_fits`). So the second match of a selected block comes to no mismatch, and
no expansion ends with one (`Crate.expand_never_mismatch`).
-/

namespace Unerase

theorem Ty.noClash_of_fits {pattern t : Ty} (h : pattern.fits t = true) :
    Finding.NoClash (pattern.findings t) := by
  rw [Ty.fits, Ty.matchWith_eq_replay] at h
  rcases hreplay : Fit.matcher.replay (pattern.findings t) .empty with ⟨_ | ⟨⟨⟩⟩, fit⟩
  · simp [hreplay] at h
  · exact Matcher.noClash_of_replay hreplay

/-- What has stopped the walk is a disagreement about the shape of two types. -/
def Fault.IsMismatch (fault : Fault ExpansionError) : Prop :=
  ∃ pattern concrete, fault = .error (.shapeMismatch pattern concrete)

namespace ImplBinding

variable {origin : Path} {generics : Generics} {bound bound₁ : ImplBinding}

theorem bindType_ne_mismatch {p : Param} {t pattern concrete : Ty} :
    bindType origin p t bound ≠ (.error (.shapeMismatch pattern concrete), bound₁) := by
  intro h
  obtain ⟨name, slot⟩ := p
  cases slot with
  | impl index =>
      simp only [bindType] at h
      split at h <;> cases h
  | _ => cases h

theorem matchWith_ne_mismatch {t u pattern concrete : Ty}
    (hclash : Finding.NoClash (t.findings u)) :
    t.matchWith (matcher origin) u bound ≠
      (.error (.shapeMismatch pattern concrete), bound₁) := by
  intro h
  rw [Ty.matchWith_eq_replay] at h
  obtain ⟨f, hf, bound₂, hanswer⟩ := Matcher.exists_answer_of_replay h
  cases f with
  | type p u => exact bindType_ne_mismatch hanswer
  | const => cases hanswer
  | clash pattern' concrete' => exact hclash pattern' concrete' hf

theorem types_mismatch {index : Nat} {fault : Fault ExpansionError}
    (h : types origin generics index bound = .error fault) : ¬ fault.IsMismatch := by
  rintro ⟨pattern, concrete, rfl⟩
  induction bound generalizing index with
  | nil => cases h
  | cons t? bound ih =>
      cases t? with
      | none =>
          rw [types] at h
          split at h <;> cases h
      | some t =>
          rw [types, except_bind_error_iff] at h
          rcases h with hrest | ⟨ts, -, ⟨⟩⟩
          exact ih hrest

theorem toArgs_mismatch {fault : Fault ExpansionError}
    (h : bound.toArgs origin generics = .error fault) : ¬ fault.IsMismatch := by
  rw [toArgs, except_bind_error_iff] at h
  rcases h with htypes | ⟨ts, -, hconsts⟩
  · exact types_mismatch htypes
  · rintro ⟨pattern, concrete, rfl⟩
    split at hconsts <;> cases hconsts

end ImplBinding

namespace Index

variable {index : Index} {fault : Fault ExpansionError}

theorem fits_of_findMethod? {receiver : Ty} {name : String} {block : ImplEntry}
    {f : FunctionEntry} (h : index.findMethod? receiver name = some (block, f)) :
    block.self.fits receiver = true := by
  obtain ⟨before, after, -, hfits, -, -⟩ := exists_of_findMethod? h
  exact hfits

/-- The second match of a block that was selected comes to no mismatch. -/
theorem findMethod?_matchWith {receiver pattern concrete : Ty} {name : String}
    {block : ImplEntry} {f : FunctionEntry}
    (h : index.findMethod? receiver name = some (block, f)) (origin : Path)
    (bound bound₁ : ImplBinding) :
    block.self.matchWith (ImplBinding.matcher origin) receiver bound ≠
      (.error (.shapeMismatch pattern concrete), bound₁) :=
  ImplBinding.matchWith_ne_mismatch (Ty.noClash_of_fits (fits_of_findMethod? h))

theorem resolve_mismatch {origin : Path} (h : index.resolve origin = .error fault) :
    ¬ fault.IsMismatch := by
  rintro ⟨pattern, concrete, rfl⟩
  cases origin with
  | item target =>
      obtain ⟨name, args⟩ := target
      rw [resolve] at h
      split at h <;> cases h
  | inherent self name args =>
      rw [resolve] at h
      split at h
      · cases h
      · rename_i block f hfind
        split at h
        · rename_i hmatch
          cases h
          exact findMethod?_matchWith hfind _ _ _ hmatch
        · rcases except_bind_error_iff.1 h with hargs | ⟨impl, -, ⟨⟩⟩
          exact ImplBinding.toArgs_mismatch hargs ⟨pattern, concrete, rfl⟩
  | known | unknown => cases h

theorem unfold_mismatch {k : TemplateKey} (h : index.unfold k = .error fault) :
    ¬ fault.IsMismatch := by
  simp only [unfold, template, except_bind_error_iff, Prod.exists] at h
  rintro ⟨pattern, concrete, rfl⟩
  rcases h with (hresolve | ⟨f, s, -, htemplate⟩) | ⟨t, s, -, hinstantiate⟩
  · exact resolve_mismatch hresolve ⟨pattern, concrete, rfl⟩
  · split at htemplate <;> cases htemplate
  · cases hsubst : t.subst s <;>
      rw [Subst.instantiate, hsubst] at hinstantiate <;> cases hinstantiate

end Index

namespace Expand

variable {index : Index} {options : ExpansionOptions}

/-- Faults at the keys that are met are the only faults of the expansion of a type. -/
theorem typeWithin_guards {P : Fault ExpansionError → Prop}
    (hcycle : ∀ k, P (.error (.cycle k))) (hdeep : ∀ k limit, P (.error (.tooDeep k limit)))
    (hunfold : ∀ k fault, index.unfold k = .error fault → P fault) (room : Nat) (t : Ty) :
    (typeWithin index options room t).Guards (fun _ => True) P := by
  induction room using Nat.strongRecOn generalizing t with
  | ind room ih =>
      rw [typeWithin_eq_replacing]
      refine Run.guarded_self_iff.1 (Ty.visit_replacing_related (fun origin i => ?_) t)
      refine Run.guarded_self_iff.2 fun s _ => ⟨fun _ _ _ => trivial, ?_⟩
      intro fault s₁ hanswer
      cases noAnswer hanswer with
      | cycle => exact hcycle _
      | tooDeep => exact hdeep _ _
      | unfold h => exact hunfold _ _ h
      | @below fault less t s₁ _ hroom _ ht =>
          exact (ih less (by omega) t _ trivial).2 fault s₁ ht

/-- Nothing is required of the states, and no expansion stops with a mismatch. -/
abbrev NeverMismatch {α : Type} (x : Expand α) : Prop :=
  x.Guards (fun _ => True) fun fault => ¬ fault.IsMismatch

theorem typeWithin_never_mismatch (room : Nat) (t : Ty) :
    NeverMismatch (typeWithin index options room t) :=
  typeWithin_guards (fun _ ⟨_, _, h⟩ => by cases h) (fun _ _ ⟨_, _, h⟩ => by cases h)
    (fun _ _ h => Index.unfold_mismatch h) room t

theorem pass_never_mismatch (scope : Scope) (c : Crate) :
    NeverMismatch (c.visit (scope.restrict (passVisitor index options))) := by
  have hfaults : (Run.guarded Unit (fun _ : PassState => True)
      fun fault : Fault ExpansionError => ¬ fault.IsMismatch).KeepsFaults :=
    Run.guarded_keepsFaults (fun _ _ ⟨_, _, h⟩ => by cases h) fun ⟨_, _, h⟩ => by cases h
  have hforTypes := passVisitor_forTypes index options
  refine Run.guarded_self_iff.1
    (scope.visit_same hfaults hforTypes (fun _ => hforTypes) (fun t => ?_) c)
  rw [visit_passVisitor]
  exact Run.guarded_self_iff.2 (typeWithin_never_mismatch options.maxDepth t)

end Expand

theorem Expansion.pass_never_mismatch {scope : Scope} {options : ExpansionOptions}
    {c : Crate} {fault : Fault ExpansionError} (h : pass scope options c = .error fault) :
    ¬ fault.IsMismatch := by
  obtain ⟨s, hvisit⟩ := pass_error_iff.1 h
  exact (Expand.pass_never_mismatch scope c PassState.start trivial).2 fault s hvisit

theorem Crate.expand_mismatch {options : ExpansionOptions} {c : Crate}
    {fault : Fault ExpansionError} (h : c.expand options = .error fault) :
    ¬ fault.IsMismatch := by
  rcases expand_error_iff.1 h with hfirst | ⟨c₁, first, -, hsecond⟩
  · exact Expansion.pass_never_mismatch hfirst
  · exact Expansion.pass_never_mismatch hsecond

/-- No shape mismatch is ever told of: not by the second match of a block that was
selected, not by the look-up of an origin, and not by the expansion of a crate. -/
theorem Crate.expand_never_mismatch (pattern concrete : Ty) :
    (∀ (index : Index) (receiver : Ty) (name : String) (block : ImplEntry)
        (f : FunctionEntry), index.findMethod? receiver name = some (block, f) →
      ∀ (origin : Path) (bound : ImplBinding),
        (block.self.matchWith (ImplBinding.matcher origin) receiver bound).1 ≠
          .error (.shapeMismatch pattern concrete)) ∧
    (∀ (index : Index) (origin : Path),
      index.resolve origin ≠ .error (.error (.shapeMismatch pattern concrete))) ∧
    ∀ (c : Crate) (options : ExpansionOptions),
      c.expand options ≠ .error (.error (.shapeMismatch pattern concrete)) := by
  refine ⟨fun index receiver name block f hfind origin bound hmatch => ?_,
    fun index origin h => ?_, fun c options h => ?_⟩
  · exact Index.findMethod?_matchWith hfind origin bound _ (Prod.ext hmatch rfl)
  · exact Index.resolve_mismatch h ⟨pattern, concrete, rfl⟩
  · exact expand_mismatch h ⟨pattern, concrete, rfl⟩

/-- The block for boxes of `i32` comes first, and a box of `u8` would be a mismatch for it.
The block that is selected is the other one. -/
theorem Crate.expand_never_mismatch_specialized :
    ((Sample.boxed (.prim .i32)).matchWith
        (ImplBinding.matcher (.inherent (Sample.boxed (.prim .u8)) "get" ⟨[], []⟩))
        (Sample.boxed (.prim .u8)) []).1 =
      .error (.shapeMismatch (.prim .i32) (.prim .u8)) ∧
    ∃ block f, (Index.ofCrate Sample.specialized).findMethod?
        (Sample.boxed (.prim .u8)) "get" = some (block, f) ∧
      ∀ origin bound, (block.self.matchWith (ImplBinding.matcher origin)
        (Sample.boxed (.prim .u8)) bound).1 ≠
          .error (.shapeMismatch (.prim .i32) (.prim .u8)) :=
  ⟨rfl, _, _, rfl, (expand_never_mismatch (.prim .i32) (.prim .u8)).1
    (Index.ofCrate Sample.specialized) (Sample.boxed (.prim .u8)) "get" _ _ rfl⟩

end Unerase
