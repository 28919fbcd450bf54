import Unerase.Proofs.Expansion.Limit
import Unerase.Proofs.Expansion.Memoization
import Unerase.Proofs.Expansion.Tally
import Unerase.Proofs.Relation.ReorderedIndex

/-!
Expansion and the order of declaration. Crates that differ in the order of their tables
only are expanded to crates that do so again, with the same tally. Without a cache one of
them is expanded whenever the other is, and with a cache too if the depth limit is as large
as the heights in the crate (`Crate.expand_reordered`).

With a cache and a smaller limit the order decides. A key that is found in the cache takes
no depth, so a chain that is too long for the limit is accepted if its lower part has been
met before (`Crate.not_expand_reordered`).
-/

namespace Unerase

variable {c c' d d' : Crate} {s s' : PassState} {maxDepth : Nat}

/-! ### Walks without a state -/

namespace Crate.Reordered

variable {v : Visitor ExpansionError Unit}

theorem visit_ok_iff (hv : v.EntersAll) (h : c.Reordered d) :
    (∃ c', c.visit v () = (.ok c', ())) ↔ ∃ d', d.visit v () = (.ok d', ()) := by
  simp only [Crate.visit_ok_iff hv, h.mem_types, h.mem_bodies]

theorem visit (hv : v.EntersAll) (h : c.Reordered d)
    (hc : c.visit v () = (.ok c', ())) (hd : d.visit v () = (.ok d', ())) :
    c'.Reordered d' := by
  refine h.related ?_ ?_ (Crate.becomes_of_visit hv hc) (Crate.becomes_of_visit hv hd)
  · intro t u u' hu hu'
    rw [Ty.Becomes] at hu hu'
    rw [hu] at hu'
    cases hu'
    rfl
  · intro b b' b'' hb hb'
    rw [hb] at hb'
    cases hb'
    rfl

end Crate.Reordered

/-! ### Passes -/

namespace Expand

variable {index index' : Index}

theorem passVisitor_congr (h : index.unfold = index'.unfold)
    (options : ExpansionOptions) :
    passVisitor index options = passVisitor index' options := by
  have hvisitor (descend? : Option (Ty → Expand Ty)) :
      visitor index options descend? = visitor index' options descend? := by
    simp only [visitor, key, freshKey, h]
  have htype (room : Nat) :
      typeWithin index options room = typeWithin index' options room := by
    induction room with
    | zero =>
        funext t
        rw [typeWithin, typeWithin, hvisitor]
    | succ room ih =>
        funext t
        rw [typeWithin, typeWithin, ih, hvisitor]
  unfold passVisitor
  cases options.maxDepth with
  | zero => exact hvisitor none
  | succ room => rw [visitorWithin, visitorWithin, htype, hvisitor]

end Expand

namespace Expansion

variable {options options' : ExpansionOptions} {scope : Scope} (hc : c.Unique)
  (h : c.Reordered d)

include hc h

theorem pass_reordered_ok_iff :
    pass scope options d = .ok (d', s) ↔
      d.visit (scope.restrict (Expand.passVisitor (Index.ofCrate c) options))
        PassState.start = (.ok d', s) := by
  rw [pass_ok_iff, Expand.passVisitor_congr (h.unfold hc)]

/-- Two passes that succeed leave crates that differ in the order of the tables only, and
the same counts. -/
theorem pass_reordered (hmemoize : options.memoize = options'.memoize)
    (hpass : pass scope options c = .ok (c', s))
    (hpass' : pass scope options' d = .ok (d', s')) :
    c'.Unique ∧ c'.Reordered d' ∧ s.resolved = s'.resolved ∧ s.hits = s'.hits := by
  rw [pass_ok_iff] at hpass
  rw [pass_reordered_ok_iff hc h] at hpass'
  obtain ⟨⟨m, hm⟩, -⟩ := Expand.pass_unfolding scope hpass
  obtain ⟨⟨n, hn⟩, -⟩ := Expand.pass_unfolding scope hpass'
  have hm := Unfolding.crate_visit_mono scope (Nat.le_max_left m n) hm
  have hn := Unfolding.crate_visit_mono scope (Nat.le_max_right m n) hn
  have hv := scope.restrict_entersAll (Unfolding.entersAll (Index.ofCrate c) (max m n))
  exact ⟨(Crate.becomes_of_visit hv hm).unique_names hc, h.visit hv hm hn,
    Expand.pass_counts scope hmemoize h.places hpass hpass'⟩

theorem pass_plain_reordered :
    (∃ c' s, pass scope ⟨false, maxDepth⟩ c = .ok (c', s)) ↔
      ∃ d' s, pass scope ⟨false, maxDepth⟩ d = .ok (d', s) := by
  have hplain : (⟨false, maxDepth⟩ : ExpansionOptions).memoize = false := rfl
  simp only [pass_reordered_ok_iff hc h, pass_ok_iff,
    Expand.pass_plain_iff scope hplain]
  exact h.visit_ok_iff
    (scope.restrict_entersAll (Unfolding.entersAll (Index.ofCrate c) maxDepth))

end Expansion

/-! ### Both passes -/

namespace Crate

variable {options : ExpansionOptions}

theorem Reordered.succeeds_plain_iff (hc : c.Unique) (h : c.Reordered d) :
    (∃ out, c.expand ⟨false, maxDepth⟩ = .ok out) ↔
      ∃ out, d.expand ⟨false, maxDepth⟩ = .ok out := by
  have hbodies :
      (∃ c₁ s, Expansion.pass .bodies ⟨false, maxDepth⟩ c = .ok (c₁, s)) ↔
        ∃ d₁ s, Expansion.pass .bodies ⟨false, maxDepth⟩ d = .ok (d₁, s) :=
    Expansion.pass_plain_reordered hc h
  have hsignatures {c₁ d₁ : Crate} {first first' : PassState}
      (hfirst : Expansion.pass .bodies ⟨false, maxDepth⟩ c = .ok (c₁, first))
      (hfirst' : Expansion.pass .bodies ⟨false, maxDepth⟩ d =
        .ok (d₁, first')) :
      (∃ c' s, Expansion.pass .signatures ⟨false, maxDepth⟩ c₁ = .ok (c', s)) ↔
        ∃ d' s, Expansion.pass .signatures ⟨false, maxDepth⟩ d₁ =
          .ok (d', s) := by
    obtain ⟨hc₁, h₁, -⟩ :=
      Expansion.pass_reordered hc h rfl hfirst hfirst'
    exact Expansion.pass_plain_reordered hc₁ h₁
  rw [expand_succeeds_iff, expand_succeeds_iff]
  constructor
  · rintro ⟨c₁, first, hfirst, hsecond⟩
    obtain ⟨d₁, first', hfirst'⟩ := hbodies.1 ⟨c₁, first, hfirst⟩
    exact ⟨d₁, first', hfirst', (hsignatures hfirst hfirst').1 hsecond⟩
  · rintro ⟨d₁, first', hfirst', hsecond⟩
    obtain ⟨c₁, first, hfirst⟩ := hbodies.2 ⟨d₁, first', hfirst'⟩
    exact ⟨c₁, first, hfirst, (hsignatures hfirst hfirst').2 hsecond⟩

/-- With a cache one crate is expanded whenever the other is, if the limit is as large as the
heights in the crate. -/
theorem Reordered.succeeds_memoized_iff (hc : c.Unique) (h : c.Reordered d)
    (hheight : c.HasHeights → c.HeightAtMost maxDepth) :
    (∃ out, c.expand ⟨true, maxDepth⟩ = .ok out) ↔
      ∃ out, d.expand ⟨true, maxDepth⟩ = .ok out := by
  have hplain {n : Nat} (hn : ∃ out, c.expand ⟨false, n⟩ = .ok out) :
      ∃ out, c.expand ⟨false, maxDepth⟩ = .ok out := by
    obtain ⟨hwellFormed, hn⟩ := expand_plain_ok_iff.1 hn
    exact expand_plain_ok_iff.2 ⟨hwellFormed, hheight hn.hasHeights⟩
  constructor
  · intro hok
    obtain ⟨n, hn⟩ := exists_limit_of_ok hok
    have hn := hn ⟨false, n⟩ (Nat.le_refl n)
    exact expand_memoized_of_plain ((h.succeeds_plain_iff hc).1 (hplain hn))
  · intro hok
    obtain ⟨n, hn⟩ := exists_limit_of_ok hok
    have hn := hn ⟨false, n⟩ (Nat.le_refl n)
    exact expand_memoized_of_plain (hplain ((h.succeeds_plain_iff hc).2 hn))

theorem Reordered.same_outcome {options' : ExpansionOptions} {tally tally' : ExpansionTally}
    (hc : c.Unique) (h : c.Reordered d) (hmemoize : options.memoize = options'.memoize)
    (hexpand : c.expand options = .ok (c', tally))
    (hexpand' : d.expand options' = .ok (d', tally')) :
    c'.Reordered d' ∧ tally = tally' := by
  obtain ⟨c₁, first, second, hfirst, hsecond, rfl⟩ := expand_ok_iff.1 hexpand
  obtain ⟨d₁, first', second', hfirst', hsecond', rfl⟩ := expand_ok_iff.1 hexpand'
  obtain ⟨hc₁, h₁, hresolved₁, hhits₁⟩ :=
    Expansion.pass_reordered hc h hmemoize hfirst hfirst'
  obtain ⟨-, h₂, hresolved₂, hhits₂⟩ :=
    Expansion.pass_reordered hc₁ h₁ hmemoize hsecond hsecond'
  exact ⟨h₂, by rw [hresolved₁, hresolved₂, hhits₁, hhits₂]⟩

end Crate

/-! ### Two crates that differ in the order of a module -/

namespace Sample

/-- What the function of the given name in the module hides. -/
def hidden (name : String) : Ty :=
  .erased (.item ⟨⟨"sample", ["m", name]⟩, ⟨[], []⟩⟩) 0 []

/-- A function that computes a number of the given type and hides the given types. -/
def constant (type : Ty) (templates : List Ty) : Item :=
  .function ⟨⟨[], [], []⟩, [], .prim .i32,
    some ⟨[⟨.lit (.int 1), type⟩], 0, [], templates⟩⟩

def inModule (entries : List (String × Item)) : Crate where
  name := "sample"
  items := ⟨[("m", .module ⟨entries⟩)]⟩
  inherentImpls := []
  traitImpls := []

/-- What `main` uses is hidden twice, and `outer` hides it for the second time. -/
def outerFirst : Crate :=
  inModule [("outer", constant (.prim .i32) [hidden "inner"]),
    ("main", constant (hidden "outer") []),
    ("inner", constant (.prim .i32) [.prim .i32])]

def mainFirst : Crate :=
  inModule [("main", constant (hidden "outer") []),
    ("outer", constant (.prim .i32) [hidden "inner"]),
    ("inner", constant (.prim .i32) [.prim .i32])]

theorem outerFirst_unique : outerFirst.Unique where
  items := by simp [outerFirst, inModule, Table.Unique, Table.keys, Item.UniqueEntries,
    Item.Unique, constant]
  inherentImpls := by simp [outerFirst, inModule]
  traitImpls := by simp [outerFirst, inModule]

theorem outerFirst_reordered : outerFirst.Reordered mainFirst where
  name := rfl
  items := .intro (.refl _) <| .cons (.module <| .intro (.swap _ _ _) <|
    .cons (.refl _) <| .cons (.refl _) <| .cons (.refl _) .nil) .nil
  inherentImpls := .nil
  traitImpls := .nil

end Sample

namespace Crate

/-- The order of the tables does not matter: if both crates are expanded, with a cache or
without one, the results differ in that order only and the tallies are equal. One of them
is expanded whenever the other is, unless there is a cache and the limit is smaller than
the heights in the crate. -/
theorem expand_reordered (hc : c.Unique) (h : c.Reordered d) (options : ExpansionOptions) :
    ((options.memoize = true → c.HasHeights → c.HeightAtMost options.maxDepth) →
      ((∃ out, c.expand options = .ok out) ↔ ∃ out, d.expand options = .ok out)) ∧
    ∀ maxDepth c' d' tally tally', c.expand options = .ok (c', tally) →
      d.expand { options with maxDepth } = .ok (d', tally') →
      c'.Reordered d' ∧ tally = tally' := by
  constructor
  · obtain ⟨memoize, maxDepth⟩ := options
    intro hheight
    cases memoize with
    | false => exact h.succeeds_plain_iff hc
    | true => exact h.succeeds_memoized_iff hc (hheight rfl)
  · intro maxDepth c' d' tally tally' hexpand hexpand'
    have hmemoize :
        options.memoize = ({ options with maxDepth } : ExpansionOptions).memoize := rfl
    exact h.same_outcome hc hmemoize hexpand hexpand'

theorem expand_reordered_modules :
    ∃ c' d', Sample.outerFirst.expand ⟨true, 2⟩ = .ok (c', ⟨3, 0, 1⟩) ∧
      Sample.mainFirst.expand ⟨true, 2⟩ = .ok (d', ⟨3, 0, 1⟩) ∧ c'.Reordered d' := by
  have hplain : ∃ out, Sample.outerFirst.expand ⟨false, 2⟩ = .ok out := ⟨_, rfl⟩
  have hheight : Sample.outerFirst.HeightAtMost 2 := (expand_plain_ok_iff.1 hplain).2
  have houter : ∃ c', Sample.outerFirst.expand ⟨true, 2⟩ = .ok (c', ⟨3, 0, 1⟩) := ⟨_, rfl⟩
  obtain ⟨c', hc'⟩ := houter
  obtain ⟨hsucceeds, hsame⟩ := expand_reordered Sample.outerFirst_unique
    Sample.outerFirst_reordered ⟨true, 2⟩
  obtain ⟨⟨d', tally'⟩, hd'⟩ := (hsucceeds fun _ _ => hheight).1 ⟨_, hc'⟩
  obtain ⟨hreordered, rfl⟩ := hsame 2 c' d' _ tally' hc' hd'
  exact ⟨c', d', hc', hd', hreordered⟩

/-- With a cache and room for one key, the crate is expanded with `outer` in front of
`main` and not with `main` in front of `outer`. -/
theorem not_expand_reordered :
    Sample.outerFirst.Unique ∧ Sample.outerFirst.Reordered Sample.mainFirst ∧
      (∃ out, Sample.outerFirst.expand ⟨true, 1⟩ = .ok out) ∧
      ¬ ∃ out, Sample.mainFirst.expand ⟨true, 1⟩ = .ok out := by
  refine ⟨Sample.outerFirst_unique, Sample.outerFirst_reordered, ⟨_, rfl⟩, ?_⟩
  rintro ⟨out, hout⟩
  cases hout

end Crate

end Unerase
