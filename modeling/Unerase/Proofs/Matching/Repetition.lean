import Unerase.Expansion.Index
import Unerase.Proofs.Matching.Bounds
import Unerase.Proofs.Matching.Fitting

/-!
Types that differ in bounds only, seen by one pattern. A match does not look at bounds, but a
parameter that is repeated has to line up with equal types, and types with different bounds
are not equal. So a pattern tells two such types apart exactly if its repeated parameters do
(`Ty.SameButBounds.fits_iff_treatsAlike`). A pattern that repeats no parameter for types
never does, and one that does is in `Ty.not_fits_sameButBounds`.
-/

namespace Unerase

namespace Finding

variable {S : Ty → Ty → Prop} {fs fs' : List Finding}

/-- Every parameter for types lines up with the same type each time. -/
def SameTypes (fs : List Finding) : Prop :=
  ∀ p t u, .type p t ∈ fs → .type p u ∈ fs → t = u

/-- Every parameter for constants lines up with the same constant each time. -/
def SameConsts (fs : List Finding) : Prop :=
  ∀ p c d, .const p c ∈ fs → .const p d ∈ fs → c = d

theorem exists_valuation_iff :
    (∃ v, AllMeet v fs) ↔ NoClash fs ∧ SameTypes fs ∧ SameConsts fs := by
  constructor
  · rintro ⟨v, hv⟩
    refine ⟨hv.noClash, fun p t u ht hu => ?_, fun p c d hc hd => ?_⟩
    · exact Option.some.inj ((hv _ ht).symm.trans (hv _ hu))
    · exact Option.some.inj ((hv _ hc).symm.trans (hv _ hd))
  · rintro ⟨hclash, htypes, hconsts⟩
    classical
    refine ⟨⟨fun p => if h : ∃ t, .type p t ∈ fs then some h.choose else none,
      fun p => if h : ∃ c, .const p c ∈ fs then some h.choose else none⟩, fun f hf => ?_⟩
    cases f with
    | type p t =>
        have h : ∃ t, .type p t ∈ fs := ⟨t, hf⟩
        exact (dif_pos h).trans (congrArg some (htypes p _ t h.choose_spec hf))
    | const p c =>
        have h : ∃ c, .const p c ∈ fs := ⟨c, hf⟩
        exact (dif_pos h).trans (congrArg some (hconsts p _ c h.choose_spec hf))
    | clash t u => exact absurd hf (hclash t u)

theorem noClash_iff_of_alike (h : List.Forall₂ (Alike S) fs fs') :
    NoClash fs ↔ NoClash fs' := by
  induction h with
  | nil => rfl
  | @cons f g fs gs hfg _ ih =>
      rw [← List.singleton_append, ← List.singleton_append (l := gs), noClash_append,
        noClash_append, ih]
      cases hfg <;> simp

theorem mem_const_iff_of_alike (h : List.Forall₂ (Alike S) fs fs') (p : Param) (c : Const) :
    .const p c ∈ fs ↔ .const p c ∈ fs' := by
  induction h with
  | nil => rfl
  | cons hfg _ ih =>
      rw [List.mem_cons, List.mem_cons, ih]
      cases hfg <;> simp

theorem sameConsts_iff_of_alike (h : List.Forall₂ (Alike S) fs fs') :
    SameConsts fs ↔ SameConsts fs' := by
  simp only [SameConsts, mem_const_iff_of_alike h]

theorem sameTypes_of_nodup (h : ((uses fs).filterMap ParamUse.type?).Nodup) :
    SameTypes fs := by
  induction fs with
  | nil => exact fun p t u ht => nomatch ht
  | cons f fs ih =>
      cases f with
      | type q v =>
          obtain ⟨hq, hrest⟩ := List.nodup_cons.1 h
          have hfresh (t : Ty) (ht : .type q t ∈ fs) : False :=
            hq (List.mem_filterMap.2 ⟨_, mem_uses ht rfl, rfl⟩)
          intro p t u ht hu
          rcases List.mem_cons.1 ht with hhead | ht
          · cases hhead
            rcases List.mem_cons.1 hu with hhead | hu
            · cases hhead
              rfl
            · exact (hfresh u hu).elim
          · rcases List.mem_cons.1 hu with hhead | hu
            · cases hhead
              exact (hfresh t ht).elim
            · exact ih hrest p t u ht hu
      | _ =>
          intro p t u ht hu
          exact ih h p t u (by simpa using ht) (by simpa using hu)

end Finding

open Finding

theorem Ty.fits_iff_sameTypes {pattern t : Ty} : pattern.fits t = true ↔
    NoClash (pattern.findings t) ∧ SameTypes (pattern.findings t) ∧
      SameConsts (pattern.findings t) :=
  fits_iff_exists_valuation.trans exists_valuation_iff

/-- If nothing but repeated parameters for types can keep the pattern from fitting the first
type, then these line up with equal types in both types or in none of them. -/
def Ty.TreatsAlike (pattern t t' : Ty) : Prop :=
  NoClash (pattern.findings t) → SameConsts (pattern.findings t) →
    (SameTypes (pattern.findings t) ↔ SameTypes (pattern.findings t'))

namespace Ty.SameButBounds

variable {t t' : Ty} (h : t.SameButBounds t')

include h

theorem findings_alike (pattern : Ty) : List.Forall₂ (Alike Ty.SameButBounds)
    (pattern.findings t) (pattern.findings t') :=
  (Ty.SameButBounds.refl pattern).findings (fun _ _ => Ty.SameButBounds.partsButBounds) h

theorem fits_eq_iff (pattern : Ty) :
    pattern.fits t = pattern.fits t' ↔ pattern.TreatsAlike t t' := by
  have hfindings := h.findings_alike pattern
  rw [Bool.eq_iff_iff, fits_iff_sameTypes, fits_iff_sameTypes, TreatsAlike,
    ← noClash_iff_of_alike hfindings, ← sameConsts_iff_of_alike hfindings]
  tauto

theorem treatsAlike_of_nodup {pattern : Ty} (hpattern : pattern.typeParams.Nodup) :
    pattern.TreatsAlike t t' := by
  intro hclash _
  have hclash' := (noClash_iff_of_alike (h.findings_alike pattern)).1 hclash
  have hsame (u : Ty) (hu : NoClash (pattern.findings u)) :
      SameTypes (pattern.findings u) := by
    apply sameTypes_of_nodup
    rw [Ty.uses_of_findings hu]
    exact hpattern
  exact iff_of_true (hsame t hclash) (hsame t' hclash')

/-- Two types that differ in bounds only are treated alike by a pattern exactly if its
repeated parameters do so, in particular if none is repeated. Where the self types of all impl
blocks treat two receivers alike, the same method of the same block is found for both. -/
theorem fits_iff_treatsAlike :
    (∀ pattern : Ty, pattern.fits t = pattern.fits t' ↔ pattern.TreatsAlike t t') ∧
      (∀ pattern : Ty, pattern.typeParams.Nodup → pattern.TreatsAlike t t') ∧
      ∀ (index : Index) (name : String), (∀ block ∈ index.impls, block.self.TreatsAlike t t') →
        index.findMethod? t name = index.findMethod? t' name := by
  refine ⟨h.fits_eq_iff, fun pattern => h.treatsAlike_of_nodup, fun index name himpls => ?_⟩
  rw [Index.findMethod?, Index.findMethod?, ← List.head?_filterMap, ← List.head?_filterMap]
  refine congrArg List.head? (List.filterMap_congr fun block hblock => ?_)
  rw [(h.fits_eq_iff block.self).2 (himpls block hblock)]

end Ty.SameButBounds

/-! ### A repeated parameter and two placeholders -/

namespace Sample

/-- The types of pairs of a type with itself. -/
def twofold : Ty :=
  .tuple [.param ⟨"T", .impl 0⟩, .param ⟨"T", .impl 0⟩]

def masked (bounds : List ItemRef) : Ty :=
  .erased (.item ⟨⟨"sample", ["make"]⟩, ⟨[], []⟩⟩) 0 bounds

/-- Twice the same placeholder, with bounds. -/
def couple (bounds bounds' : List ItemRef) : Ty :=
  .tuple [masked bounds, masked bounds']

def iterator : ItemRef :=
  ⟨⟨"core", ["Iterator"]⟩, ⟨[], []⟩⟩

/-- A method for pairs of a type with itself. -/
def forTwofold : Index :=
  ⟨[], [⟨⟨[⟨"T", none⟩], [], []⟩, twofold, ⟨[("get", ⟨⟨[], [], []⟩, []⟩)]⟩⟩]⟩

theorem couple_sameButBounds (bounds bounds' rest rest' : List ItemRef) :
    (couple bounds bounds').SameButBounds (couple rest rest') := by
  have hmasked (bounds rest : List ItemRef) :
      (masked bounds).SameButBounds (masked rest) :=
    .erased 0 bounds rest (.item (.intro (.intro .nil)))
  exact .parts (.tuple (.cons (hmasked bounds rest) (.cons (hmasked bounds' rest') .nil)))

end Sample

/-- Bounds that are added on both sides make no difference, also to a repeated parameter. -/
theorem Ty.SameButBounds.fits_iff_treatsAlike_couple :
    (Sample.couple [] []).SameButBounds
        (Sample.couple [Sample.iterator] [Sample.iterator]) ∧
      Sample.twofold.TreatsAlike (Sample.couple [] [])
        (Sample.couple [Sample.iterator] [Sample.iterator]) ∧
      Sample.forTwofold.findMethod? (Sample.couple [] []) "get" =
        Sample.forTwofold.findMethod?
          (Sample.couple [Sample.iterator] [Sample.iterator]) "get" := by
  have hsame := Sample.couple_sameButBounds [] [] [Sample.iterator] [Sample.iterator]
  obtain ⟨hfits, -, hfind⟩ := fits_iff_treatsAlike hsame
  have halike := (hfits Sample.twofold).1 rfl
  refine ⟨hsame, halike, hfind _ _ fun block hblock => ?_⟩
  cases List.mem_singleton.1 hblock
  exact halike

/-- Bounds are not ignored. Where a parameter is repeated, bounds on one side only keep a
pattern from fitting and a method from being found. -/
theorem Ty.not_fits_sameButBounds :
    (¬ ∀ pattern t t' : Ty, t.SameButBounds t' → pattern.fits t = pattern.fits t') ∧
      ¬ ∀ (index : Index) (name : String) (t t' : Ty), t.SameButBounds t' →
        index.findMethod? t name = index.findMethod? t' name := by
  have hsame := Sample.couple_sameButBounds [] [] [] [Sample.iterator]
  constructor
  · intro h
    have hfits := h Sample.twofold _ _ hsame
    revert hfits
    decide
  · intro h
    have hfound := congrArg Option.isSome (h Sample.forTwofold "get" _ _ hsame)
    revert hfound
    decide

end Unerase
