import Unerase.Proofs.Expansion.Agreement
import Unerase.Proofs.Relation.Places

/-!
One type in a body and in a signature. Impl blocks may overlap, and then the first one
that fits a receiver is meant. If it is the first one for every instance of the receiver
as well, a type that stands both in a body and in a signature becomes the same type in
both places (`Crate.expand_alike`).

If it is not, the two places may end with different types. The pass over bodies expands
templates while their parameters are open. The impl block that it finds for an open
receiver stays chosen for all instances, and these are what the pass over signatures meets
(`Crate.not_expand_alike`).
-/

namespace Unerase

/-- A block that has a method comes first if it fits every receiver that a later block with
this method fits. -/
theorem Index.stable_of_pairwise {index : Index}
    (h : index.impls.Pairwise fun a b => ∀ receiver name,
      (a.methods.get? name).isSome = true → b.Answers receiver name →
        a.self.fits receiver = true) : index.Stable := by
  obtain ⟨functions, impls⟩ := index
  intro s receiver receiver' name found hreceiver hfind
  simp only [findMethod?] at hfind ⊢
  induction impls with
  | nil => cases hfind
  | cons block rest ih =>
      obtain ⟨hblock, hrest⟩ := List.pairwise_cons.1 h
      rw [List.findSome?_cons] at hfind ⊢
      cases hmethod : block.methods.get? name with
      | none =>
          simp only [hmethod, Option.map_none, ite_self] at hfind ⊢
          exact ih hrest hfind
      | some f =>
          have hfits : block.self.fits receiver = true := by
            by_contra hnot
            simp only [hnot, if_false] at hfind
            obtain ⟨later, hlater, hfound⟩ := List.exists_of_findSome?_eq_some hfind
            split at hfound
            · rename_i hanswers
              obtain ⟨g, hg, -⟩ := Option.map_eq_some_iff.1 hfound
              exact hnot (hblock later hlater receiver name (by simp [hmethod])
                ⟨hanswers, by simp [hg]⟩)
            · cases hfound
          have hfits' := Ty.fits_subst hreceiver hfits
          simp only [hfits, hfits', hmethod, if_true, Option.map_some] at hfind ⊢
          exact hfind

namespace Sample

/-- Two blocks have a method `get`. The first one is for the given type and its `get` hides
`u8`; that of the second one hides the type in the box. -/
def overlapping (generics : Generics) (self : Ty) : Crate where
  name := "sample"
  items := ⟨[
    ("make", .function ⟨⟨[⟨"U", none⟩], [], []⟩, [], make (.param ⟨"U", .method 0⟩),
      some ⟨[⟨.lit (.int 1), get (.param ⟨"U", .method 0⟩)⟩], 0, [],
        [get (.param ⟨"U", .method 0⟩)]⟩⟩),
    ("main", .function ⟨⟨[], [], []⟩, [], make (.prim .i32),
      some ⟨[⟨.lit (.int 1), make (.prim .i32)⟩], 0, [], []⟩⟩)]⟩
  inherentImpls := [
    ⟨generics, self, ⟨[("get", ⟨⟨[], [], []⟩, [], .prim .u8,
      some ⟨[⟨.lit (.int 1), .prim .u8⟩], 0, [], [.prim .u8]⟩⟩)]⟩⟩,
    ⟨⟨[⟨"T", none⟩], [], []⟩, boxed (.param ⟨"T", .impl 0⟩),
      ⟨[("get", ⟨⟨[], [], []⟩, [], get (.param ⟨"T", .impl 0⟩),
        some ⟨[⟨.lit (.int 1), .param ⟨"T", .impl 0⟩⟩], 0, [],
          [.param ⟨"T", .impl 0⟩]⟩⟩)]⟩⟩]
  traitImpls := []

/-- The first block is for all boxes. -/
def shadowed : Crate :=
  overlapping ⟨[⟨"T", none⟩], [], []⟩ (boxed (.param ⟨"T", .impl 0⟩))

/-- The first block is for boxes of `i32` alone. -/
def specialized : Crate :=
  overlapping ⟨[], [], []⟩ (boxed (.prim .i32))

end Sample

namespace Crate

/-- Wherever a type of a node in use also stands in a signature of the first crate, there
is one and the same type in both places of the second crate. It is what the type expands
to with the templates of the first crate. -/
def ExpandsAlike (c c' : Crate) : Prop :=
  ∀ (i j : Nat) (id : NodeId) (b : Body) (node : Node),
    c.bodies[i]? = some b → b.Reachable id → b.nodes[id]? = some node →
    c.types[j]? = some node.type →
    ∃ b' node', c'.bodies[i]? = some b' ∧ b'.nodes[id]? = some node' ∧
      c'.types[j]? = some node'.type ∧
      Expands (Index.ofCrate c) node.type node'.type

variable {options : ExpansionOptions} {c c' : Crate} {tally : ExpansionTally}

/-- A type that stands in a body and in a signature becomes the same type in both, if the
impl block that is found for a receiver is found for all instances of it. -/
theorem expand_alike (hc : (Index.ofCrate c).Stable)
    (h : c.expand options = .ok (c', tally)) : c.ExpandsAlike c' := by
  obtain ⟨c₁, first, second, hfirst, hsecond, -⟩ := expand_ok_iff.1 h
  have hbodies := Expansion.bodies_rel hfirst
  have hindex : (Index.ofCrate c).Rel (Expands (Index.ofCrate c)) (.ofCrate c₁) :=
    hbodies.index fun _ _ hb => hb.1.templates
  have hrel := Expansion.signatures_rel hbodies hsecond
  intro i j id b node hb hid hnode ht
  have hbody := forall₂_getElem? hrel.bodies i
  rw [hb] at hbody
  obtain ⟨b', hb', hbody, -⟩ := optionRel_of_some hbody
  have hnodes := hbody.reached id hid
  rw [hnode] at hnodes
  obtain ⟨node', hnode', hnodes⟩ := optionRel_of_some hnodes
  have htypes := forall₂_getElem? hrel.types j
  rw [ht] at htypes
  obtain ⟨t', ht', htypes⟩ := optionRel_of_some htypes
  have hsame : node'.type = t' := hnodes.type.agree hc hindex htypes
  exact ⟨b', node', hb', hnode', hsame ▸ ht', hnodes.type⟩

theorem expand_alike_shadowed :
    ∃ c' tally, (Index.ofCrate Sample.shadowed).Stable ∧
      Sample.shadowed.expand {} = .ok (c', tally) ∧ Sample.shadowed.ExpandsAlike c' := by
  have hc : (Index.ofCrate Sample.shadowed).Stable := by
    apply Index.stable_of_pairwise
    apply List.pairwise_pair.2
    intro receiver name _ hanswers
    exact hanswers.1
  have hexpand : ∃ out, Sample.shadowed.expand {} = .ok out := ⟨_, rfl⟩
  obtain ⟨⟨c', tally⟩, hexpand⟩ := hexpand
  exact ⟨c', tally, hc, hexpand, expand_alike hc hexpand⟩

/-- With a block for boxes of `i32` before the one for all boxes, the type of a node
becomes `u8` and the same type in a signature becomes `i32`. -/
theorem not_expand_alike :
    ∃ c' tally, Sample.specialized.expand {} = .ok (c', tally) ∧
      (c'.bodies[1]?.bind fun b => b.nodes[0]?.map Node.type) = some (.prim .u8) ∧
      c'.types[1]? = some (.prim .i32) ∧ ¬ Sample.specialized.ExpandsAlike c' := by
  refine ⟨_, _, rfl, rfl, rfl, fun h => ?_⟩
  obtain ⟨b', node', hb', hnode', ht', -⟩ := h 1 1 0 _ _ rfl .root rfl rfl
  cases hb'
  cases hnode'
  cases ht'

end Crate

end Unerase
