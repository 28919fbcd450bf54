import Unerase.Proofs.Expansion.Height
import Unerase.Proofs.Expansion.Reference

/-!
When an expansion without a cache succeeds. Without a cache the depth limit is the only
thing that can stop the expansion of a type that has an expansion at all: cycles have no
height, and what is active never gets in the way of a type that has one. So a crate is
expanded exactly if the types in its bodies have heights up to the limit, and after that
the types in its signatures do (`Crate.expand_plain_iff`).
-/

namespace Unerase

namespace Expand

variable {index : Index} {options : ExpansionOptions} {c c' : Crate}

theorem typeWithin_plain (hplain : options.memoize = false) (room : Nat) (t : Ty) :
    (Run.following (Fault ExpansionError) (Fault ExpansionError)
      fun s (_ : Unit) => s.cache = []).Holds Eq (typeWithin index options room t)
        fun _ => t.visit (Unfolding.visitor index room) := by
  induction room using Nat.strongRecOn generalizing t with
  | ind room ih =>
      simp only [typeWithin_eq_replacing]
      refine Ty.visit_replacing_related (fun origin i => ?_) t
      rw [Run.following_const_iff]
      rintro s ⟨⟩ hcache u s' hanswer
      rcases answer_ok_iff.1 hanswer with
        ⟨hhit, -⟩ | ⟨-, -, less, t, s₁, rfl, hunfold, ht, rfl⟩
      · simp [hcache] at hhit
      · have hless := Run.following_const_iff.1 (ih less (Nat.lt_succ_self less) t)
        obtain ⟨⟨⟩, ht', hcache₁⟩ :=
          hless (s.countResolved.push ⟨origin, i⟩) () hcache u s₁ ht
        have hkey := Unfolding.key_succ_iff.2 ⟨t, hunfold, ht'⟩
        exact ⟨(), hkey, by simp [finish_cache, hplain, hcache₁]⟩

/-- A pass without a cache does what `Unfolding` does within the depth limit. -/
theorem pass_plain_iff (scope : Scope) (hplain : options.memoize = false) :
    (∃ s, c.visit (scope.restrict (passVisitor index options)) PassState.start =
      (.ok c', s)) ↔
      c.visit (scope.restrict (Unfolding.visitor index options.maxDepth)) () =
        (.ok c', ()) := by
  constructor
  · rintro ⟨s, hs⟩
    have hfollow := scope.visit_same (Run.following_keepsFaults fun s (_ : Unit) =>
        s.cache = []) (passVisitor_forTypes index options)
      (fun _ : Nat => Unfolding.visitor_forTypes index options.maxDepth)
      (fun t => by
        simp only [visit_passVisitor]
        exact typeWithin_plain hplain options.maxDepth t) c
    obtain ⟨⟨⟩, hc', -⟩ :=
      Run.following_const_iff.1 hfollow PassState.start () rfl c' s hs
    exact hc'
  · intro h
    exact pass_of_unfolding scope hplain (Nat.le_refl _) h

theorem visit_plain_iff (hplain : options.memoize = false) {t : Ty} :
    (∃ u s, t.visit (passVisitor index options) PassState.start = (.ok u, s)) ↔
      HeightAtMost index options.maxDepth t := by
  rw [← Unfolding.completes_iff, visit_passVisitor]
  constructor
  · rintro ⟨u, s, hs⟩
    obtain ⟨⟨⟩, hu, -⟩ := Run.following_const_iff.1
      (typeWithin_plain hplain options.maxDepth t) PassState.start () rfl u s hs
    exact ⟨u, hu⟩
  · rintro ⟨u, hu⟩
    obtain ⟨s, hs, -⟩ := Run.following_const_iff.1
      (typeWithin_of_unfolding hplain (Nat.le_refl options.maxDepth) [] (by simp) t)
      () PassState.start ⟨rfl, rfl⟩ u () hu
    exact ⟨u, s, hs⟩

end Expand

namespace Unfolding

variable {index : Index} {bound bound' : Nat} {c c₁ c₂ : Crate}

theorem bodies_ok_iff :
    (∃ c', c.visit (Scope.bodies.restrict (visitor index bound)) () = (.ok c', ())) ↔
      ∀ b ∈ c.bodies, b.WellFormed ∧ ∀ t, b.Uses t → HeightAtMost index bound t := by
  have hv := entersAll index bound
  have settled (t t' : Ty) (h : t.Becomes (visitor index bound) t') :
      t'.visit (visitor index bound) = pure t' :=
    (visitor_thorough index bound).visit_of_hasErased t' (visit_expands h).hasErased
  rw [Crate.visit_ok_iff (Scope.restrict_entersAll hv .bodies)]
  constructor
  · rintro ⟨-, hbodies⟩ b hb
    obtain ⟨hwellFormed, htypes⟩ := (Body.visit_ok_iff hv settled).1 (hbodies b hb)
    exact ⟨hwellFormed, fun t ht => completes_iff.1 (htypes t ht)⟩
  · intro h
    constructor
    · intro t _
      exact ⟨t, by rw [Ty.Becomes, Scope.bodies_visit]; rfl⟩
    · intro b hb
      obtain ⟨hwellFormed, hheights⟩ := h b hb
      exact (Body.visit_ok_iff hv settled).2
        ⟨hwellFormed, fun t ht => completes_iff.2 (hheights t ht)⟩

theorem signatures_ok_iff :
    (∃ c', c.visit (Scope.signatures.restrict (visitor index bound)) () =
      (.ok c', ())) ↔ ∀ t ∈ c.types, HeightAtMost index bound t := by
  rw [Scope.restrict, Crate.visit_ok_iff (entersAll index bound)]
  constructor
  · rintro ⟨htypes, -⟩ t ht
    exact completes_iff.1 (htypes t ht)
  · intro h
    exact ⟨fun t ht => completes_iff.2 (h t ht), fun b _ => ⟨b, rfl⟩⟩

theorem crate_visit_mono (scope : Scope) (hle : bound ≤ bound')
    (h : c.visit (scope.restrict (visitor index bound)) () = (.ok c₁, ())) :
    c.visit (scope.restrict (visitor index bound')) () = (.ok c₁, ()) := by
  have hfollow := scope.visit_same (Run.following_keepsFaults fun _ _ : Unit => True)
    (visitor_forTypes index bound) (fun _ : Nat => visitor_forTypes index bound')
    (fun t => visit_continues (key_continues hle) t) c
  obtain ⟨⟨⟩, h', -⟩ := Run.following_const_iff.1 hfollow () () trivial c₁ () h
  exact h'

theorem crate_visit_unique (scope : Scope)
    (h₁ : c.visit (scope.restrict (visitor index bound)) () = (.ok c₁, ()))
    (h₂ : c.visit (scope.restrict (visitor index bound')) () = (.ok c₂, ())) :
    c₁ = c₂ := by
  have h₁ := crate_visit_mono scope (Nat.le_max_left bound bound') h₁
  have h₂ := crate_visit_mono scope (Nat.le_max_right bound bound') h₂
  rw [h₁] at h₂
  cases h₂
  rfl

end Unfolding

namespace Crate

variable {c c₁ c₂ : Crate}

/-- All bodies of the crate are well-formed. -/
def WellFormed (c : Crate) : Prop :=
  ∀ b ∈ c.bodies, b.WellFormed

/-- The second crate is what the pass over bodies makes of the first one. -/
def Extracts (c c₁ : Crate) : Prop :=
  ∃ options s, Expansion.pass .bodies options c = .ok (c₁, s)

/-- Every type in the crate has a height up to the bound: the types in bodies with the
templates of the crate as it is, and those in signatures with the templates that the pass
over bodies leaves. -/
structure HeightAtMost (c : Crate) (bound : Nat) : Prop where
  bodies : ∀ b ∈ c.bodies, ∀ t, b.Uses t →
    Unerase.HeightAtMost (Index.ofCrate c) bound t
  signatures : ∀ c₁, c.Extracts c₁ → ∀ t ∈ c₁.types,
    Unerase.HeightAtMost (Index.ofCrate c₁) bound t

/-- Every type in the crate has a height: each origin can be resolved, and there is an end
to the unfolding of each placeholder. -/
structure HasHeights (c : Crate) : Prop where
  bodies : ∀ b ∈ c.bodies, ∀ t, b.Uses t → ∃ n, Height (Index.ofCrate c) t n
  signatures : ∀ c₁, c.Extracts c₁ → ∀ t ∈ c₁.types,
    ∃ n, Height (Index.ofCrate c₁) t n

theorem HeightAtMost.mono {bound bound' : Nat} (h : c.HeightAtMost bound)
    (hle : bound ≤ bound') : c.HeightAtMost bound' where
  bodies b hb t ht := (h.bodies b hb t ht).mono hle
  signatures c₁ hc₁ t ht := (h.signatures c₁ hc₁ t ht).mono hle

theorem HeightAtMost.hasHeights {bound : Nat} (h : c.HeightAtMost bound) :
    c.HasHeights where
  bodies b hb t ht := by
    obtain ⟨n, -, hn⟩ := h.bodies b hb t ht
    exact ⟨n, hn⟩
  signatures c₁ hc₁ t ht := by
    obtain ⟨n, -, hn⟩ := h.signatures c₁ hc₁ t ht
    exact ⟨n, hn⟩

/-- Whatever the options are, the pass over bodies leaves the same crate. -/
theorem Extracts.unique (h₁ : c.Extracts c₁) (h₂ : c.Extracts c₂) : c₁ = c₂ := by
  obtain ⟨options, s, h₁⟩ := h₁
  obtain ⟨options', s', h₂⟩ := h₂
  obtain ⟨⟨bound, h₁⟩, -⟩ :=
    Expand.pass_unfolding .bodies (Expansion.pass_ok_iff.1 h₁)
  obtain ⟨⟨bound', h₂⟩, -⟩ :=
    Expand.pass_unfolding .bodies (Expansion.pass_ok_iff.1 h₂)
  exact Unfolding.crate_visit_unique .bodies h₁ h₂

theorem HasHeights.exists_bound (h : c.HasHeights) :
    ∃ bound, c.HeightAtMost bound := by
  have hbodies : ∃ bound, ∀ b ∈ c.bodies, ∀ t, b.Uses t →
      Unerase.HeightAtMost (Index.ofCrate c) bound t := by
    obtain ⟨bound, hbound⟩ := HeightAtMost.exists_bound
      (fun t => ∃ b ∈ c.bodies, b.Uses t) (c.bodies.flatMap Body.allTypes)
      (by rintro t - ⟨b, hb, ht⟩; exact h.bodies b hb t ht)
    refine ⟨bound, fun b hb t ht => hbound t ?_ ⟨b, hb, ht⟩⟩
    exact List.mem_flatMap_of_mem hb ht.mem_allTypes
  have hsignatures : ∃ bound, ∀ c₁, c.Extracts c₁ → ∀ t ∈ c₁.types,
      Unerase.HeightAtMost (Index.ofCrate c₁) bound t := by
    by_cases hc : ∃ c₁, c.Extracts c₁
    · obtain ⟨c₁, hc₁⟩ := hc
      obtain ⟨bound, hbound⟩ := HeightAtMost.exists_bound (fun _ => True) c₁.types
        fun t ht _ => h.signatures c₁ hc₁ t ht
      refine ⟨bound, fun c₂ hc₂ t ht => ?_⟩
      cases hc₁.unique hc₂
      exact hbound t ht trivial
    · exact ⟨0, fun c₁ hc₁ => absurd ⟨c₁, hc₁⟩ hc⟩
  obtain ⟨m, hm⟩ := hbodies
  obtain ⟨n, hn⟩ := hsignatures
  refine ⟨max m n, fun b hb t ht => ?_, fun c₁ hc₁ t ht => ?_⟩
  · exact (hm b hb t ht).mono (Nat.le_max_left m n)
  · exact (hn c₁ hc₁ t ht).mono (Nat.le_max_right m n)

variable {maxDepth : Nat}

theorem pass_bodies_plain_iff :
    (∃ c₁ s, Expansion.pass .bodies ⟨false, maxDepth⟩ c = .ok (c₁, s)) ↔
      ∀ b ∈ c.bodies, b.WellFormed ∧
        ∀ t, b.Uses t → Unerase.HeightAtMost (Index.ofCrate c) maxDepth t := by
  have hplain : (⟨false, maxDepth⟩ : ExpansionOptions).memoize = false := rfl
  rw [← Unfolding.bodies_ok_iff]
  apply exists_congr
  intro c₁
  simp only [Expansion.pass_ok_iff]
  exact Expand.pass_plain_iff .bodies hplain

theorem pass_signatures_plain_iff :
    (∃ c' s, Expansion.pass .signatures ⟨false, maxDepth⟩ c = .ok (c', s)) ↔
      ∀ t ∈ c.types, Unerase.HeightAtMost (Index.ofCrate c) maxDepth t := by
  have hplain : (⟨false, maxDepth⟩ : ExpansionOptions).memoize = false := rfl
  rw [← Unfolding.signatures_ok_iff]
  apply exists_congr
  intro c'
  simp only [Expansion.pass_ok_iff]
  exact Expand.pass_plain_iff .signatures hplain

theorem expand_plain_ok_iff :
    (∃ out, c.expand ⟨false, maxDepth⟩ = .ok out) ↔
      c.WellFormed ∧ c.HeightAtMost maxDepth := by
  constructor
  · rintro ⟨⟨c', tally⟩, h⟩
    obtain ⟨c₁, first, second, hfirst, hsecond, -⟩ := expand_ok_iff.1 h
    have hbodies := pass_bodies_plain_iff.1 ⟨c₁, first, hfirst⟩
    have hsignatures := pass_signatures_plain_iff.1 ⟨c', second, hsecond⟩
    refine ⟨fun b hb => (hbodies b hb).1, fun b hb => (hbodies b hb).2, ?_⟩
    intro c₂ hc₂
    cases hc₂.unique ⟨_, first, hfirst⟩
    exact hsignatures
  · rintro ⟨hwellFormed, hheight⟩
    obtain ⟨c₁, first, hfirst⟩ := pass_bodies_plain_iff.2 fun b hb =>
      ⟨hwellFormed b hb, hheight.bodies b hb⟩
    obtain ⟨c', second, hsecond⟩ := pass_signatures_plain_iff.2
      (hheight.signatures c₁ ⟨_, first, hfirst⟩)
    exact ⟨_, expand_ok_iff.2 ⟨c₁, first, second, hfirst, hsecond, rfl⟩⟩

/-- If all types have heights, the limit has to reach a certain number and need not be
larger. -/
theorem exists_height (hwellFormed : c.WellFormed) (h : c.HasHeights) :
    ∃ height, ∀ maxDepth,
      (∃ out, c.expand ⟨false, maxDepth⟩ = .ok out) ↔ height ≤ maxDepth := by
  classical
  have hbound := h.exists_bound
  refine ⟨Nat.find hbound, fun maxDepth => ?_⟩
  rw [expand_plain_ok_iff]
  constructor
  · rintro ⟨-, hmaxDepth⟩
    exact Nat.find_min' hbound hmaxDepth
  · intro hle
    exact ⟨hwellFormed, (Nat.find_spec hbound).mono hle⟩

/-- Without a cache a crate is expanded exactly if its bodies come to an end and its types
have heights up to the depth limit. A chain of placeholders is expanded exactly if it is
not longer than the limit, and a crate in which all types have heights is expanded exactly
from some limit on. -/
theorem expand_plain_iff (c : Crate) (maxDepth : Nat) :
    ((∃ out, c.expand ⟨false, maxDepth⟩ = .ok out) ↔
      c.WellFormed ∧ c.HeightAtMost maxDepth) ∧
    (∀ index length t, Chain index length t →
      ((∃ u s, t.visit (Expand.passVisitor index ⟨false, maxDepth⟩) PassState.start =
        (.ok u, s)) ↔ length ≤ maxDepth)) ∧
    (c.WellFormed → c.HasHeights → ∃ height, ∀ maxDepth',
      (∃ out, c.expand ⟨false, maxDepth'⟩ = .ok out) ↔ height ≤ maxDepth') := by
  refine ⟨expand_plain_ok_iff, ?_, exists_height⟩
  intro index length t hchain
  rw [Expand.visit_plain_iff rfl]
  exact hchain.heightAtMost_iff

theorem expand_plain_iff_sample :
    Sample.before.HeightAtMost 2 ∧ ¬ Sample.before.HeightAtMost 1 ∧
      Chain (Index.ofCrate Sample.before) 2 (Sample.make (.prim .i32)) ∧
      (∀ maxDepth, (∃ u s, (Sample.make (.prim .i32)).visit
        (Expand.passVisitor (Index.ofCrate Sample.before) ⟨false, maxDepth⟩)
        PassState.start = (.ok u, s)) ↔ 2 ≤ maxDepth) ∧
      ∃ height, ∀ maxDepth,
        (∃ out, Sample.before.expand ⟨false, maxDepth⟩ = .ok out) ↔
          height ≤ maxDepth := by
  have htwo : Sample.before.expand ⟨false, 2⟩ = .ok (Sample.after, ⟨9, 3, 0⟩) := rfl
  obtain ⟨hwellFormed, hheight⟩ := (expand_plain_iff Sample.before 2).1.1 ⟨_, htwo⟩
  have hchain : Chain (Index.ofCrate Sample.before) 2 (Sample.make (.prim .i32)) :=
    .link rfl rfl (.link rfl rfl (.free rfl))
  refine ⟨hheight, fun hone => ?_, hchain, fun maxDepth => ?_, ?_⟩
  · obtain ⟨out, hout⟩ := (expand_plain_iff Sample.before 1).1.2 ⟨hwellFormed, hone⟩
    cases hout
  · exact (expand_plain_iff Sample.before maxDepth).2.1 _ 2 _ hchain
  · exact (expand_plain_iff Sample.before 2).2.2 hwellFormed hheight.hasHeights

end Crate

end Unerase
