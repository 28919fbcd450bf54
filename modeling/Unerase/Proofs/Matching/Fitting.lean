import Unerase.Proofs.Matching.Valuation
import Unerase.Proofs.Substitution.Composition

namespace Unerase

namespace ParamUse

def type? : ParamUse → Option Param
  | .type p => some p
  | .const _ => none

def const? : ParamUse → Option Param
  | .type _ => none
  | .const p => some p

end ParamUse

/-- The parameters that stand for types outside the bounds of placeholders. -/
def Ty.typeParams (t : Ty) : List Param :=
  (t.params false).filterMap ParamUse.type?

/-- The parameters that stand for constants outside the bounds of placeholders. -/
def Ty.constParams (t : Ty) : List Param :=
  (t.params false).filterMap ParamUse.const?

theorem Ty.mem_typeParams {t : Ty} {p : Param} :
    p ∈ t.typeParams ↔ .type p ∈ t.params false := by
  simp only [typeParams, List.mem_filterMap]
  exact ⟨fun ⟨u, hu, hp⟩ => by cases u <;> cases hp; exact hu, fun h => ⟨_, h, rfl⟩⟩

theorem Ty.mem_constParams {t : Ty} {p : Param} :
    p ∈ t.constParams ↔ .const p ∈ t.params false := by
  simp only [constParams, List.mem_filterMap]
  exact ⟨fun ⟨u, hu, hp⟩ => by cases u <;> cases hp; exact hu, fun h => ⟨_, h, rfl⟩⟩

/-- Parameters in the same slot have the same name. -/
def OneNamePerSlot (ps : List Param) : Prop :=
  ∀ p ∈ ps, ∀ q ∈ ps, p.slot = q.slot → p.name = q.name

instance (ps : List Param) : Decidable (OneNamePerSlot ps) :=
  inferInstanceAs (Decidable (∀ p ∈ ps, ∀ q ∈ ps, p.slot = q.slot → p.name = q.name))

namespace OneNamePerSlot

variable {ps : List Param} (h : OneNamePerSlot ps) {p q : Param}

include h

theorem eq_of_slot (hp : p ∈ ps) (hq : q ∈ ps) (hslot : p.slot = q.slot) : p = q := by
  have hname := h p hp q hq hslot
  obtain ⟨name, slot⟩ := p
  cases hslot
  cases hname
  rfl

theorem find? (hp : p ∈ ps) : ps.find? (fun q => q.slot = p.slot) = some p := by
  cases hfind : ps.find? (fun q => q.slot = p.slot) with
  | none => simpa using List.find?_eq_none.1 hfind p hp
  | some q =>
      have hslot : q.slot = p.slot := by simpa using List.find?_some hfind
      rw [h.eq_of_slot (List.mem_of_find?_eq_some hfind) hp hslot]

end OneNamePerSlot

/-- The position of a parameter in its list. The self type is in no list. -/
def Slot.index : Slot → Nat
  | .self => 0
  | .impl index => index
  | .method index => index

/-- The first `size` values, with a filler where there is none. -/
def valuesUpTo {α : Type} (size : Nat) (filler : α) (value? : Nat → Option α) : List α :=
  (List.range size).map fun i => (value? i).getD filler

theorem getElem?_valuesUpTo {α : Type} {size i : Nat} (filler : α) {value? : Nat → Option α}
    {a : α} (hi : i < size) (ha : value? i = some a) :
    (valuesUpTo size filler value?)[i]? = some a := by
  simp [valuesUpTo, hi, ha]

theorem map_some_valuesUpTo {α : Type} {size : Nat} (filler : α) {value? : Nat → Option α}
    (h : ∀ i < size, (value? i).isSome = true) :
    (valuesUpTo size filler value?).map some = (List.range size).map value? := by
  rw [valuesUpTo, List.map_map, List.map_inj_left]
  intro i hi
  obtain ⟨a, ha⟩ := Option.isSome_iff_exists.1 (h i (List.mem_range.1 hi))
  simp [ha]

namespace Subst

/-- The arguments with the values for the first `size` positions. -/
def argsUpTo (size : Nat) (type? : Nat → Option Ty) (const? : Nat → Option Const) : Args :=
  ⟨valuesUpTo size .never type?, valuesUpTo size (.lit 0) const?⟩

/-- The substitution with the values for all slots whose index is less than `size`. -/
def ofSlots (size : Nat) (type? : Slot → Option Ty) (const? : Slot → Option Const) :
    Subst where
  self? := type? .self
  impl? := some (argsUpTo size (fun i => type? (.impl i)) fun i => const? (.impl i))
  method? := some (argsUpTo size (fun i => type? (.method i)) fun i => const? (.method i))

variable {size : Nat} {type? : Slot → Option Ty} {const? : Slot → Option Const} {p : Param}

theorem getType?_ofSlots {t : Ty} (hp : p.slot.index < size) (ht : type? p.slot = some t) :
    (ofSlots size type? const?).getType? p = some t := by
  obtain ⟨name, slot⟩ := p
  cases slot with
  | self => exact ht
  | impl i => exact getElem?_valuesUpTo Ty.never hp ht
  | method i => exact getElem?_valuesUpTo Ty.never hp ht

theorem getConst?_ofSlots {c : Const} (hself : p.slot ≠ .self) (hp : p.slot.index < size)
    (hc : const? p.slot = some c) : (ofSlots size type? const?).getConst? p = some c := by
  obtain ⟨name, slot⟩ := p
  cases slot with
  | self => exact absurd rfl hself
  | impl i => exact getElem?_valuesUpTo (Const.lit 0) hp hc
  | method i => exact getElem?_valuesUpTo (Const.lit 0) hp hc

theorem exists_size (ps : List Param) : ∃ size, ∀ p ∈ ps, p.slot.index < size := by
  induction ps with
  | nil => exact ⟨0, by simp⟩
  | cons p ps ih =>
      obtain ⟨size, hsize⟩ := ih
      refine ⟨max (p.slot.index + 1) size, List.forall_mem_cons.2 ⟨by omega, ?_⟩⟩
      intro q hq
      exact Nat.lt_of_lt_of_le (hsize q hq) (Nat.le_max_right _ _)

theorem exists_extending (v : Valuation) {types consts : List Param}
    (htypes : OneNamePerSlot types) (hconsts : OneNamePerSlot consts)
    (hself : ∀ p ∈ consts, p.slot ≠ .self) :
    ∃ s : Subst, (∀ p ∈ types, ∀ t, v.type p = some t → s.getType? p = some t) ∧
      ∀ p ∈ consts, ∀ c, v.const p = some c → s.getConst? p = some c := by
  obtain ⟨size, hsize⟩ := exists_size (types ++ consts)
  obtain ⟨htypesSize, hconstsSize⟩ := List.forall_mem_append.1 hsize
  refine ⟨ofSlots size
    (fun slot => (types.find? fun q => q.slot = slot).bind v.type)
    (fun slot => (consts.find? fun q => q.slot = slot).bind v.const),
    fun p hp t ht => ?_, fun p hp c hc => ?_⟩
  · exact getType?_ofSlots (htypesSize p hp) (by simp [htypes.find? hp, ht])
  · exact getConst?_ofSlots (hself p hp) (hconstsSize p hp) (by simp [hconsts.find? hp, hc])

end Subst

/-- A pattern fits a type exactly if the type is an instance of the pattern. -/
theorem Ty.fits_iff_instance {pattern concrete : Ty}
    (hpattern : ∀ t ∈ pattern.placeholders, t.bounds = [])
    (hconcrete : ∀ t ∈ concrete.placeholders, t.bounds = [])
    (htypes : OneNamePerSlot pattern.typeParams)
    (hconsts : OneNamePerSlot pattern.constParams)
    (hself : ∀ p ∈ pattern.constParams, p.slot ≠ .self) :
    pattern.fits concrete = true ↔ ∃ s : Subst, s.instantiate pattern = .ok concrete := by
  have hbare : Bare pattern.placeholders concrete.placeholders :=
    fun t ht u hu => ⟨hpattern t ht, hconcrete u hu⟩
  simp only [Ty.fits_iff_exists_valuation, Subst.instantiate_ok_iff, Ty.subst_iff_meets hbare]
  constructor
  · rintro ⟨v, hv⟩
    have huses := Ty.uses_of_findings hv.noClash
    obtain ⟨s, hstypes, hsconsts⟩ := Subst.exists_extending v htypes hconsts hself
    refine ⟨s, fun f hf => ?_⟩
    cases f with
    | type p t =>
        have hp := huses ▸ Finding.mem_uses hf rfl
        exact hstypes p (Ty.mem_typeParams.2 hp) t (hv _ hf)
    | const p c =>
        have hp := huses ▸ Finding.mem_uses hf rfl
        exact hsconsts p (Ty.mem_constParams.2 hp) c (hv _ hf)
    | clash => exact hv _ hf
  · rintro ⟨s, hs⟩
    exact ⟨s.valuation, hs⟩

/-! ### A pattern in which parameters are repeated -/

namespace Sample

/-- Functions from a type and an array to what the function `make` hides. -/
def signature (t elem : Ty) (size : Const) (u : Ty) : Ty :=
  .fn [t, .array elem size] (.erased (.item ⟨⟨"sample", ["make"]⟩, ⟨[u], [size]⟩⟩) 0 [])

/-- The parameters `T` and `N` occur twice. -/
def pattern : Ty :=
  signature (.param ⟨"T", .impl 0⟩) (.param ⟨"T", .impl 0⟩) (.param ⟨"N", .impl 0⟩)
    (.param ⟨"U", .method 1⟩)

/-- An instance of the pattern if the array is one of `i32`. -/
def candidate (elem : Ty) : Ty :=
  signature (.prim .i32) elem (.lit 3) .never

end Sample

/-- The pattern fits if the array has elements of the type that stands before it. -/
theorem Ty.fits_iff_instance_repeated :
    (Sample.pattern.fits (Sample.candidate (.prim .i32)) = true ∧
      ∃ s : Subst, s.instantiate Sample.pattern = .ok (Sample.candidate (.prim .i32))) ∧
    Sample.pattern.fits (Sample.candidate (.prim .u8)) = false ∧
      ¬ ∃ s : Subst, s.instantiate Sample.pattern = .ok (Sample.candidate (.prim .u8)) := by
  have hpattern : ∀ t ∈ Sample.pattern.placeholders, t.bounds = [] := by decide
  have htypes : OneNamePerSlot Sample.pattern.typeParams := by decide
  have hconsts : OneNamePerSlot Sample.pattern.constParams := by decide
  have hself : ∀ p ∈ Sample.pattern.constParams, p.slot ≠ .self := by decide
  refine ⟨⟨rfl, ?_⟩, rfl, ?_⟩
  · exact (fits_iff_instance hpattern (by decide) htypes hconsts hself).1 rfl
  · rw [← fits_iff_instance hpattern (by decide) htypes hconsts hself]
    decide

end Unerase
