import Unerase.Proofs.Items.Equality

namespace Unerase

theorem Items.find?_rel {items items' : Items} (hunique : (Item.module items).Unique)
    (hunique' : (Item.module items').Unique) (h : (items == items') = true)
    (segments : List String) :
    Option.Rel (fun a b => (a == b) = true) (items.find? segments)
      (items'.find? segments) := by
  induction segments generalizing items items' with
  | nil => exact .none
  | cons name rest ih =>
      obtain ⟨entries⟩ := items
      obtain ⟨entries'⟩ := items'
      have hname := (Table.beq_iff hunique.1 hunique'.1).1 h name
      cases rest with
      | nil => exact hname
      | cons second more =>
          simp only [find?]
          cases hx : Table.get? ⟨entries⟩ name <;> cases hy : Table.get? ⟨entries'⟩ name <;>
            rw [hx, hy] at hname <;> cases hname
          case none.none => exact .none
          case some.some x y hxy =>
            have hxu := Item.uniqueEntries_iff.1 hunique.2 x (Table.mem_values_of_get? hx)
            have hyu := Item.uniqueEntries_iff.1 hunique'.2 y (Table.mem_values_of_get? hy)
            cases Item.beq_iff.1 hxy with
            | module h => exact ih hxu hyu h
            | _ => exact .none

namespace Crate

variable {c d e : Crate}

theorem Unique.root (hc : c.Unique) : (Item.module c.items).Unique :=
  hc.items

theorem beq_iff : (c == d) = true ↔ c.name = d.name ∧
    (Item.module c.items == Item.module d.items) = true ∧
    List.Forall₂ (fun a b => (a == b) = true) c.inherentImpls d.inherentImpls ∧
    List.Forall₂ (fun a b => (a == b) = true) c.traitImpls d.traitImpls := by
  rw [← list_beq_iff, ← list_beq_iff, Item.module_beq_module]
  show (c.name == d.name && (c.items == d.items && (c.inherentImpls == d.inherentImpls &&
    c.traitImpls == d.traitImpls))) = true ↔ _
  simp

theorem forall_mem_bodies :
    (∀ b ∈ c.bodies, b.NaNFree) ↔ ∀ place ∈ c.places, place.NaNFree := by
  constructor
  · intro h place hplace
    cases place with
    | type t => trivial
    | body b => exact h b (mem_bodies.2 hplace)
  · exact fun h b hb => h (.body b) (mem_bodies.1 hb)

theorem beq_symm (hc : c.Unique) (hd : d.Unique) (h : (c == d) = true) : (d == c) = true := by
  obtain ⟨hname, hitems, hinherent, htraits⟩ := beq_iff.1 h
  refine beq_iff.2 ⟨hname.symm, Item.beq_symm hc.root hd.root hitems, ?_, ?_⟩
  · exact forall₂_symm (fun a ha b hb =>
      InherentImpl.beq_symm (hc.inherentImpls a ha) (hd.inherentImpls b hb)) hinherent
  · exact forall₂_symm (fun a ha b hb =>
      TraitImpl.beq_symm (hc.traitImpls a ha) (hd.traitImpls b hb)) htraits

theorem beq_trans (hc : c.Unique) (hd : d.Unique) (he : e.Unique) (h : (c == d) = true)
    (h' : (d == e) = true) : (c == e) = true := by
  obtain ⟨hname, hitems, hinherent, htraits⟩ := beq_iff.1 h
  obtain ⟨hname', hitems', hinherent', htraits'⟩ := beq_iff.1 h'
  refine beq_iff.2 ⟨hname.trans hname',
    Item.beq_trans hc.root hd.root he.root hitems hitems', ?_, ?_⟩
  · refine forall₂_trans (fun x hx y hy z hz hxy hyz => ?_) hinherent hinherent'
    exact InherentImpl.beq_trans (hc.inherentImpls x hx) (hd.inherentImpls y hy)
      (he.inherentImpls z hz) hxy hyz
  · refine forall₂_trans (fun x hx y hy z hz hxy hyz => ?_) htraits htraits'
    exact TraitImpl.beq_trans (hc.traitImpls x hx) (hd.traitImpls y hy)
      (he.traitImpls z hz) hxy hyz

theorem beq_self_iff (hc : c.Unique) : (c == c) = true ↔ ∀ b ∈ c.bodies, b.NaNFree := by
  have hinherent : (∀ a ∈ c.inherentImpls, (a == a) = true) ↔
      ∀ a ∈ c.inherentImpls, ∀ place ∈ a.places, place.NaNFree :=
    forall₂_congr fun a ha => InherentImpl.beq_self_iff (hc.inherentImpls a ha)
  have htraits : (∀ a ∈ c.traitImpls, (a == a) = true) ↔
      ∀ a ∈ c.traitImpls, ∀ place ∈ a.places, place.NaNFree :=
    forall₂_congr fun a ha => TraitImpl.beq_self_iff (hc.traitImpls a ha)
  rw [forall_mem_bodies, beq_iff, Item.beq_self_iff hc.root, List.forall₂_same,
    List.forall₂_same, hinherent, htraits, places, List.forall_mem_append,
    List.forall_mem_append, List.forall_mem_flatMap, List.forall_mem_flatMap]
  exact and_iff_right rfl

/-- The order of tables does not matter, as long as there is no literal that differs from
itself. -/
theorem Reordered.beq (h : c.Reordered d) (hc : c.Unique) (hfree : ∀ b ∈ c.bodies, b.NaNFree) :
    (c == d) = true := by
  have hplaces := forall_mem_bodies.1 hfree
  rw [Crate.places, List.forall_mem_append, List.forall_mem_append, List.forall_mem_flatMap,
    List.forall_mem_flatMap] at hplaces
  obtain ⟨hitems, hinherent, htraits⟩ := hplaces
  have hinherent (a : InherentImpl) (ha : a ∈ c.inherentImpls) :
      a.methods.Unique ∧ ∀ place ∈ a.places, place.NaNFree :=
    ⟨hc.inherentImpls a ha, hinherent a ha⟩
  have htraits (a : TraitImpl) (ha : a ∈ c.traitImpls) :
      a.Unique ∧ ∀ place ∈ a.places, place.NaNFree :=
    ⟨hc.traitImpls a ha, htraits a ha⟩
  refine beq_iff.2 ⟨h.name, Item.Reordered.beq (.module h.items) hc.root hitems, ?_, ?_⟩
  · exact ((List.forall₂_and_left _ _).2 ⟨hinherent, h.inherentImpls⟩).imp
      fun _ _ hab => hab.2.beq hab.1.1 hab.1.2
  · exact ((List.forall₂_and_left _ _).2 ⟨htraits, h.traitImpls⟩).imp
      fun _ _ hab => hab.2.beq hab.1.1 hab.1.2

/-- Equal crates have equal items under the same names. -/
theorem get?_rel (hc : c.Unique) (hd : d.Unique) (h : (c == d) = true) (name : ItemName) :
    Option.Rel (fun a b => (a == b) = true) (c.get? name) (d.get? name) := by
  obtain ⟨hname, hitems, -⟩ := beq_iff.1 h
  rw [Item.module_beq_module] at hitems
  rw [get?, get?, ← hname]
  split
  · exact Items.find?_rel hc.root hd.root hitems name.segments
  · exact .none

/-- The comparison of items and of crates is symmetric and transitive, where no name is given
twice. It holds between crates that differ in the order of tables, and between a crate and
itself exactly if there is no literal that is not a number. Equal crates have equal items under
every name. -/
theorem beq_lawful :
    (∀ a b : Item, a.Unique → b.Unique → (a == b) = true → (b == a) = true) ∧
    (∀ a b c : Item, a.Unique → b.Unique → c.Unique →
      (a == b) = true → (b == c) = true → (a == c) = true) ∧
    (∀ c d : Crate, c.Unique → d.Unique → (c == d) = true → (d == c) = true) ∧
    (∀ c d e : Crate, c.Unique → d.Unique → e.Unique →
      (c == d) = true → (d == e) = true → (c == e) = true) ∧
    (∀ c d : Crate, c.Unique → c.Reordered d → (∀ b ∈ c.bodies, b.NaNFree) →
      (c == d) = true) ∧
    (∀ c : Crate, c.Unique → ((c == c) = true ↔ ∀ b ∈ c.bodies, b.NaNFree)) ∧
    ∀ c d : Crate, c.Unique → d.Unique → (c == d) = true → ∀ name,
      Option.Rel (fun a b => (a == b) = true) (c.get? name) (d.get? name) :=
  ⟨fun _ _ ha hb => Item.beq_symm ha hb, fun _ _ _ ha hb hc => Item.beq_trans ha hb hc,
    fun _ _ hc hd => beq_symm hc hd, fun _ _ _ hc hd he => beq_trans hc hd he,
    fun _ _ hc h => h.beq hc, fun _ hc => beq_self_iff hc,
    fun _ _ hc hd h name => get?_rel hc hd h name⟩

end Crate

namespace Sample

/-- A static whose value is the number with the given bits. -/
def number (bits : UInt64) : Item :=
  .static ⟨.prim .f64, some ⟨[⟨.lit (.float ⟨bits⟩), .prim .f64⟩], 0, [], []⟩⟩

/-- A module with the numbers 1 and 0. -/
def inner : Items :=
  ⟨[("one", number 0x3ff0000000000000), ("zero", number 0)]⟩

def innerSwapped : Items :=
  ⟨[("zero", number 0), ("one", number 0x3ff0000000000000)]⟩

def constants : Crate :=
  ⟨"sample", ⟨[("inner", .module inner), ("two", number 0x4000000000000000)]⟩, [], []⟩

/-- The constants in another order, in the module and around it. -/
def constantsSwapped : Crate :=
  ⟨"sample", ⟨[("two", number 0x4000000000000000), ("inner", .module innerSwapped)]⟩, [], []⟩

theorem constants_unique : constants.Unique where
  items := by
    simp [constants, inner, number, Table.Unique, Table.keys, Item.UniqueEntries, Item.Unique]
  inherentImpls := by simp [constants]
  traitImpls := by simp [constants]

theorem constantsSwapped_unique : constantsSwapped.Unique where
  items := by
    simp [constantsSwapped, innerSwapped, number, Table.Unique, Table.keys,
      Item.UniqueEntries, Item.Unique]
  inherentImpls := by simp [constantsSwapped]
  traitImpls := by simp [constantsSwapped]

theorem constants_reordered : constants.Reordered constantsSwapped where
  name := rfl
  items := .intro (.swap _ _ _) (.cons (.refl _) (.cons
    (.module (.intro (.swap _ _ _) (.cons (.refl _) (.cons (.refl _) .nil)))) .nil))
  inherentImpls := .nil
  traitImpls := .nil

theorem constants_naNFree : ∀ b ∈ constants.bodies, b.NaNFree :=
  (Crate.beq_self_iff constants_unique).1 (by decide)

/-- A number with all bits of the exponent set and one of the fraction is none. -/
example : (number 0x7ff8000000000000 == number 0x7ff8000000000000) = false := by decide

end Sample

namespace Crate

open Sample in
/-- Two crates with the same constants in different orders are equal, in both directions and
to themselves. -/
theorem beq_lawful_constants :
    constants.Unique ∧ constantsSwapped.Unique ∧ constants.Reordered constantsSwapped ∧
      (∀ b ∈ constants.bodies, b.NaNFree) ∧ (constants == constantsSwapped) = true ∧
      (constantsSwapped == constants) = true ∧ (constants == constants) = true ∧
      ∀ name, Option.Rel (fun a b => (a == b) = true) (constants.get? name)
        (constantsSwapped.get? name) := by
  obtain ⟨-, -, hsymm, -, hreordered, hself, hget⟩ := beq_lawful
  have hequal := hreordered _ _ constants_unique constants_reordered constants_naNFree
  exact ⟨constants_unique, constantsSwapped_unique, constants_reordered, constants_naNFree,
    hequal, hsymm _ _ constants_unique constantsSwapped_unique hequal,
    (hself _ constants_unique).2 constants_naNFree,
    hget _ _ constants_unique constantsSwapped_unique hequal⟩

end Crate

end Unerase
