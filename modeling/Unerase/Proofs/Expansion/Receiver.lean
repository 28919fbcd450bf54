import Unerase.Proofs.Expansion.Selection
import Unerase.Proofs.Matching.Fitting
import Unerase.Proofs.Matching.LastBinding

/-!
Look-up of an origin through an impl block. If it succeeds, the values that it gives to the
parameters of the block turn the self type of the block into the receiver
(`Index.resolve_restores`). Whether it succeeds, and how it fails otherwise, is a matter of
the header of the block that was selected, and of nothing else (`Index.resolve_by_header`).
-/

namespace Unerase

/-- Type parameter `i` of the block occurs in its self type, outside the bounds of
placeholders. -/
def ImplEntry.Constrains (block : ImplEntry) (i : Nat) : Prop :=
  ∃ p ∈ block.self.typeParams, p.slot = .impl i

/-- The self type of the block has no other parameters than the type parameters of the
block, save in the bounds of placeholders. -/
def ImplEntry.IsClosed (block : ImplEntry) : Prop :=
  ∀ u ∈ block.self.params false, u.IsOwn block.generics.types.length

/-- What the parameters of the block line up with last in a match with the type. -/
def ImplEntry.binding (block : ImplEntry) (t : Ty) : ImplBinding :=
  (List.range block.generics.types.length).map fun i =>
    Finding.last? i (block.self.findings t)

instance (block : ImplEntry) (i : Nat) : Decidable (block.Constrains i) :=
  inferInstanceAs (Decidable (∃ p ∈ block.self.typeParams, p.slot = .impl i))

instance (block : ImplEntry) : Decidable block.IsClosed :=
  inferInstanceAs (Decidable (∀ u ∈ block.self.params false,
    u.IsOwn block.generics.types.length))

namespace Sample

/-- An impl block with the method `get`, which hides `u8`. -/
def block (generics : Generics) (self : Ty) : ImplEntry :=
  ⟨generics, self, ⟨[("get", ⟨⟨[], [], []⟩, [.prim .u8]⟩)]⟩⟩

/-- The functions from a type to itself. -/
def endo (t : Ty) : Ty :=
  .fn [t] t

/-- The first block is not for functions, and the second one has no method. The third one
has a parameter that occurs twice. -/
def headers : Index :=
  ⟨[], [block ⟨[], [], []⟩ .never,
    ⟨⟨[⟨"T", none⟩], [], []⟩, endo (.param ⟨"T", .impl 0⟩), ⟨[]⟩⟩,
    block ⟨[⟨"T", none⟩], [], []⟩ (endo (.param ⟨"T", .impl 0⟩))]⟩

/-- The functions from a type to a placeholder, which may be bounded by an instance of the
trait `Into`. -/
def concealing (t : Ty) (into : List Ty) : Ty :=
  .fn [t] (.erased (.item ⟨⟨"sample", ["make"]⟩, ⟨[], []⟩⟩) 0
    (into.map fun u => ⟨⟨"sample", ["Into"]⟩, ⟨[u], []⟩⟩))

/-- A block whose parameter `U` occurs in a bound only. -/
def bounded : Index :=
  ⟨[], [block ⟨[⟨"T", none⟩, ⟨"U", none⟩], [], []⟩
    (concealing (.param ⟨"T", .impl 0⟩) [.param ⟨"U", .impl 1⟩])]⟩

end Sample

namespace Index

open Finding

variable {index : Index} {self : Ty} {name : String} {args : Args} {block : ImplEntry}
  {f : FunctionEntry} {s : Subst}

theorem getElem?_binding {i : Nat} (hi : i < block.generics.types.length) (t : Ty) :
    (block.binding t)[i]? = some (last? i (block.self.findings t)) := by
  simp [ImplEntry.binding, hi]

theorem allMeet_of_bound {impl : Args} (hfits : block.self.fits self = true)
    (hnames : OneNamePerSlot block.self.typeParams) (hclosed : block.IsClosed)
    (himpl : block.binding self = impl.types.map some) :
    AllMeet (Subst.ofInherent self impl args).valuation (block.self.findings self) := by
  obtain ⟨v, hv⟩ := Ty.fits_iff_exists_valuation.1 hfits
  have huses := Ty.uses_of_findings hv.noClash
  intro f hf
  cases f with
  | type p t =>
      have hp : .type p ∈ block.self.params false := huses ▸ mem_uses hf rfl
      obtain ⟨i, hi, hslot⟩ := hclosed _ hp
      obtain ⟨u, hu⟩ := Option.isSome_iff_exists.1
        (last?_isSome_iff.2 ⟨p, mem_uses hf rfl, hslot⟩)
      obtain ⟨q, hq, hslot'⟩ := exists_of_last? hu
      have hq' : .type q ∈ block.self.params false := huses ▸ mem_uses hq rfl
      obtain rfl : q = p := hnames.eq_of_slot (Ty.mem_typeParams.2 hq')
        (Ty.mem_typeParams.2 hp) (hslot'.trans hslot.symm)
      obtain rfl : u = t := Option.some.inj ((hv _ hq).symm.trans (hv _ hf))
      have hbound : some (some u) = (impl.types.map some)[i]? := by
        rw [← himpl, getElem?_binding hi, hu]
      simpa [Meets, Subst.valuation, Subst.getType?, Subst.ofInherent, hslot]
        using hbound.symm
  | const p c =>
      have hp : .const p ∈ block.self.params false := huses ▸ mem_uses hf rfl
      exact (hclosed _ hp).elim
  | clash => exact hv _ hf

/-- If the look-up of an origin through a type succeeds, then it has found the method in the
first block that answers, and the substitution has the receiver as the self type, the
arguments of the origin, and a type for each type parameter of the block. With these, the
self type of the block stands for the receiver. -/
theorem resolve_restores (h : index.resolve (.inherent self name args) = .ok (f, s)) :
    ∃ before block after types, index.impls = before ++ block :: after ∧
      block.self.fits self = true ∧ block.methods.get? name = some f ∧
      (∀ earlier ∈ before, ¬ earlier.Answers self name) ∧
      s = .ofInherent self ⟨types, []⟩ args ∧
      types.length = block.generics.types.length ∧
      (self.hasErased = false → OneNamePerSlot block.self.typeParams →
        s.instantiate block.self = .ok self) := by
  rw [resolve] at h
  split at h
  · cases h
  · rename_i block g hfind
    split at h
    · cases h
    · rename_i bound hmatch
      obtain ⟨⟨types, consts⟩, hargs, ⟨⟩⟩ := except_bind_ok_iff.1 h
      obtain ⟨before, after, himpls, hfits, hmethod, hbefore⟩ := exists_of_findMethod? hfind
      obtain ⟨-, hclosed, hlast⟩ := ImplBinding.matchWith_ok_iff.1 hmatch
      obtain ⟨hbound, rfl, -⟩ := ImplBinding.toArgs_ok_iff.1 hargs
      have himpl := hlast.symm.trans hbound
      refine ⟨before, block, after, types, himpls, hfits, hmethod, hbefore, rfl, ?_, ?_⟩
      · simpa using (congrArg List.length himpl).symm
      · intro hfree hnames
        have hbare : Bare block.self.placeholders self.placeholders := by
          rw [(Ty.placeholders_eq_nil_iff self).2 hfree]
          exact fun _ _ _ hu => by cases hu
        rw [Subst.instantiate_ok_iff, Ty.subst_iff_meets hbare]
        exact allMeet_of_bound hfits hnames hclosed himpl

/-- The third block answers, and its parameter occurs twice. -/
theorem resolve_restores_repeated :
    ∃ f s, Sample.headers.resolve (.inherent (Sample.endo (.prim .i32)) "get" ⟨[], []⟩) =
        .ok (f, s) ∧
      ∃ before block after types, Sample.headers.impls = before ++ block :: after ∧
        block.self.fits (Sample.endo (.prim .i32)) = true ∧
        block.methods.get? "get" = some f ∧
        (∀ earlier ∈ before, ¬ earlier.Answers (Sample.endo (.prim .i32)) "get") ∧
        s = .ofInherent (Sample.endo (.prim .i32)) ⟨types, []⟩ ⟨[], []⟩ ∧
        types.length = block.generics.types.length ∧
        s.instantiate block.self = .ok (Sample.endo (.prim .i32)) := by
  have h : ∃ f s, Sample.headers.resolve
      (.inherent (Sample.endo (.prim .i32)) "get" ⟨[], []⟩) = .ok (f, s) := ⟨_, _, rfl⟩
  obtain ⟨f, s, h⟩ := h
  obtain ⟨before, block, after, types, himpls, hfits, hmethod, hbefore, hs, hlength, hrestores⟩ :=
    resolve_restores h
  have hnames : ∀ b ∈ Sample.headers.impls, OneNamePerSlot b.self.typeParams := by decide
  exact ⟨f, s, h, before, block, after, types, himpls, hfits, hmethod, hbefore, hs, hlength,
    hrestores rfl (hnames block (by simp [himpls]))⟩

theorem last?_isSome_iff_constrains (hfind : index.findMethod? self name = some (block, f))
    (i : Nat) : (last? i (block.self.findings self)).isSome = true ↔ block.Constrains i := by
  have hclash := Ty.noClash_of_fits (fits_of_findMethod? hfind)
  rw [last?_isSome_iff, Ty.uses_of_findings hclash]
  simp only [ImplEntry.Constrains, Ty.mem_typeParams]

theorem exists_types_of_constrains (hfind : index.findMethod? self name = some (block, f))
    (hall : ∀ i < block.generics.types.length, block.Constrains i) :
    ∃ types : List Ty, block.binding self = types.map some :=
  ⟨_, (map_some_valuesUpTo .never fun i hi =>
    (last?_isSome_iff_constrains hfind i).2 (hall i hi)).symm⟩

theorem resolve_of_not_closed (hfind : index.findMethod? self name = some (block, f))
    (hopen : ¬ block.IsClosed) (args : Args) :
    ∃ feature, index.resolve (.inherent self name args) =
      .error (.error (.unsupported (.inherent self name args) feature)) := by
  have hclash := Ty.noClash_of_fits (fits_of_findMethod? hfind)
  simp only [ImplEntry.IsClosed, not_forall, exists_prop] at hopen
  obtain ⟨feature, bound, hmatch⟩ :=
    ImplBinding.matchWith_unsupported (.inherent self name args) hclash hopen
  refine ⟨feature, ?_⟩
  rw [resolve, hfind]
  simp only [hmatch]

theorem resolve_of_closed (hfind : index.findMethod? self name = some (block, f))
    (hclosed : block.IsClosed) (args : Args) :
    index.resolve (.inherent self name args) =
      ((block.binding self).toArgs (.inherent self name args) block.generics).map
        fun impl => (f, .ofInherent self impl args) := by
  have hclash := Ty.noClash_of_fits (fits_of_findMethod? hfind)
  rw [resolve, hfind]
  simp only [ImplBinding.matchWith_ok_iff.2 ⟨hclash, hclosed, rfl⟩]
  rfl

theorem resolve_of_missing (hfind : index.findMethod? self name = some (block, f))
    (hclosed : block.IsClosed) {i : Nat} {param : TypeParam}
    (hparam : block.generics.types[i]? = some param) (hmissing : ¬ block.Constrains i)
    (hbefore : ∀ j < i, block.Constrains j) (args : Args) :
    index.resolve (.inherent self name args) =
      .error (.error (.unconstrained (.inherent self name args) param.name i)) := by
  have hlast := last?_isSome_iff_constrains hfind
  have hi : i < block.generics.types.length := (List.getElem?_eq_some_iff.1 hparam).1
  have hnone : last? i (block.self.findings self) = none := by
    rwa [← Option.not_isSome_iff_eq_none, hlast]
  have hunbound : (block.binding self)[i]? = some none := by
    rw [getElem?_binding hi, hnone]
  have hbound (j : Nat) (hj : j < i) : ∃ t, (block.binding self)[j]? = some (some t) := by
    obtain ⟨t, ht⟩ := Option.isSome_iff_exists.1 ((hlast j).2 (hbefore j hj))
    exact ⟨t, by rw [getElem?_binding (Nat.lt_trans hj hi), ht]⟩
  rw [resolve_of_closed hfind hclosed,
    ImplBinding.toArgs_unconstrained hparam hunbound hbound]
  rfl

/-- What comes of the look-up of an origin through a type is decided by the header of the
block that is found. The receiver and the arguments have no part in it. -/
theorem resolve_by_header (hfind : index.findMethod? self name = some (block, f))
    (args : Args) :
    let origin : Path := .inherent self name args
    (¬ block.IsClosed →
      ∃ feature, index.resolve origin = .error (.error (.unsupported origin feature))) ∧
    (block.IsClosed →
      (∀ i param, block.generics.types[i]? = some param → ¬ block.Constrains i →
        (∀ j < i, block.Constrains j) →
        index.resolve origin = .error (.error (.unconstrained origin param.name i))) ∧
      ((∀ i < block.generics.types.length, block.Constrains i) →
        (block.generics.consts ≠ [] →
          index.resolve origin = .error (.error (.unsupported origin .implConsts))) ∧
        (block.generics.consts = [] → ∃ s, index.resolve origin = .ok (f, s)))) := by
  intro origin
  refine ⟨fun hopen => resolve_of_not_closed hfind hopen args, fun hclosed => ⟨?_, ?_⟩⟩
  · intro i param hparam hmissing hbefore
    exact resolve_of_missing hfind hclosed hparam hmissing hbefore args
  · intro hall
    obtain ⟨types, htypes⟩ := exists_types_of_constrains hfind hall
    rw [resolve_of_closed hfind hclosed]
    constructor
    · intro hconsts
      rw [ImplBinding.toArgs_consts htypes hconsts]
      rfl
    · intro hconsts
      have hargs : (block.binding self).toArgs origin block.generics = .ok ⟨types, []⟩ :=
        ImplBinding.toArgs_ok_iff.2 ⟨htypes, rfl, hconsts⟩
      exact ⟨_, congrArg _ hargs⟩

/-- A parameter that occurs in a bound only has no value, for whichever receiver. -/
theorem resolve_by_header_bounded :
    Sample.bounded.resolve (.inherent (Sample.concealing (.prim .i32) []) "get" ⟨[], []⟩) =
      .error (.error (.unconstrained
        (.inherent (Sample.concealing (.prim .i32) []) "get" ⟨[], []⟩) "U" 1)) ∧
    Sample.bounded.resolve (.inherent (Sample.concealing .never [.never]) "get" ⟨[], []⟩) =
      .error (.error (.unconstrained
        (.inherent (Sample.concealing .never [.never]) "get" ⟨[], []⟩) "U" 1)) ∧
    ∃ s, Sample.headers.resolve (.inherent (Sample.endo .never) "get" ⟨[], []⟩) =
      .ok (⟨⟨[], [], []⟩, [.prim .u8]⟩, s) := by
  have hheader : ∀ b ∈ Sample.bounded.impls, b.IsClosed ∧ ¬ b.Constrains 1 ∧
      ∀ j < 1, b.Constrains j := by decide
  obtain ⟨hclosed, hmissing, hbefore⟩ := hheader _ (List.mem_singleton_self _)
  exact ⟨((resolve_by_header rfl _).2 hclosed).1 1 _ rfl hmissing hbefore,
    ((resolve_by_header rfl _).2 hclosed).1 1 _ rfl hmissing hbefore,
    (((resolve_by_header rfl _).2 (by decide)).2 (by decide)).2 rfl⟩

end Index

end Unerase
