import Unerase.Proofs.Expansion.Reference
import Unerase.Proofs.Relation.Addition

namespace Unerase

namespace Expansion

variable {options options' : ExpansionOptions} {c c' d d' : Crate} {s s' : PassState}
  {x : Declaration}

theorem bodies_addition (hc : c.Unique) (h : c.Adds x d)
    (hpass : pass .bodies options c = .ok (c', s))
    (hpass' : pass .bodies options' d = .ok (d', s')) :
    c'.Unique ∧ ∃ x', x.Alike x' ∧ c'.Adds x' d' := by
  have hrel := bodies_rel hpass
  refine ⟨hrel.unique_names hc, h.related (fun t u v hu hv => hu.symm.trans hv) ?_ hrel
    (bodies_rel hpass')⟩
  rintro b b' b'' ⟨hb, -⟩ ⟨hb', -⟩
  exact hb.unique (fun t u v hu hv => (hu.mono (h.unfold hc)).unique hv) hb'

theorem signatures_addition (hc : c.Unique) (h : c.Adds x d)
    (hpass : pass .signatures options c = .ok (c', s))
    (hpass' : pass .signatures options' d = .ok (d', s')) :
    ∃ x', x.Alike x' ∧ c'.Adds x' d' := by
  have hrel (e : Crate) : e.Rel Eq Eq e := by rw [Crate.rel_eq]
  refine h.related (fun t u v hu hv => ?_) (fun b b' b'' hb hb' => hb.symm.trans hb')
    (signatures_rel (hrel c) hpass) (signatures_rel (hrel d) hpass')
  exact (hu.mono (h.unfold hc)).unique hv

end Expansion

namespace Sample

/-- A block like that of the sample crate, but its method hides `u8`. -/
def rival : InherentImpl :=
  ⟨⟨[⟨"T", none⟩], [], []⟩, boxed (.param ⟨"T", .impl 0⟩),
    ⟨[("get", ⟨⟨[], [], []⟩, [], .prim .u8,
      some ⟨[⟨.lit (.int 1), .prim .u8⟩], 0, [], [.prim .u8]⟩⟩)]⟩⟩

theorem before_unique : before.Unique where
  items := by simp [before, crate, Table.Unique, Table.keys, Item.UniqueEntries, Item.Unique]
  inherentImpls := by simp [before, crate, Table.Unique, Table.keys]
  traitImpls := by simp [before, crate]

end Sample

/-- Declarations that are added to a crate are harmless. If the crate is expanded with and
without the declaration, under whatever options, the first result is the second one with a
declaration of the same kind added in the same place, and everything in the second one is
there in the first one. -/
theorem Crate.expand_addition {options options' : ExpansionOptions} {c d c' d' : Crate}
    {tally tally' : ExpansionTally} {x : Declaration} (hc : c.Unique) (h : c.Adds x d)
    (hexpand : c.expand options = .ok (c', tally))
    (hexpand' : d.expand options' = .ok (d', tally')) :
    (∃ x', x.Alike x' ∧ c'.Adds x' d') ∧ c'.Kept x d' := by
  obtain ⟨c₁, first, second, hfirst, hsecond, -⟩ := expand_ok_iff.1 hexpand
  obtain ⟨d₁, first', second', hfirst', hsecond', -⟩ := expand_ok_iff.1 hexpand'
  obtain ⟨hc₁, x₁, hx₁, h₁⟩ := Expansion.bodies_addition hc h hfirst hfirst'
  obtain ⟨x₂, hx₂, h₂⟩ := Expansion.signatures_addition hc₁ h₁ hsecond hsecond'
  have hx : x.Alike x₂ := hx₁.trans hx₂
  exact ⟨⟨x₂, hx, h₂⟩, h₂.kept.alike hx⟩

theorem Crate.expand_addition_rival :
    Sample.before.Adds (.inherentImpl Sample.rival)
        (Sample.before.addInherentImpl Sample.rival) ∧
      ∃ d' tally', (Sample.before.addInherentImpl Sample.rival).expand ⟨false, 2⟩ =
          .ok (d', tally') ∧
        ∃ x', Declaration.Alike (.inherentImpl Sample.rival) x' ∧ Sample.after.Adds x' d' := by
  have hadds : Sample.before.Adds (.inherentImpl Sample.rival)
      (Sample.before.addInherentImpl Sample.rival) := rfl
  have hbefore : Sample.before.expand {} = .ok (Sample.after, ⟨7, 3, 4⟩) := rfl
  have hrival : ∃ d' tally', (Sample.before.addInherentImpl Sample.rival).expand ⟨false, 2⟩ =
      .ok (d', tally') := ⟨_, _, rfl⟩
  obtain ⟨d', tally', hd'⟩ := hrival
  exact ⟨hadds, d', tally', hd',
    (expand_addition Sample.before_unique hadds hbefore hd').1⟩

end Unerase
