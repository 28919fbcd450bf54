import Unerase.Proofs.Expansion.Order
import Unerase.Proofs.Relation.SameBodies

namespace Unerase

variable {index : Index} {options : ExpansionOptions} {c c' d d' : Crate}
  {s s' : PassState}

/-! ### Counts of the pass over bodies -/

theorem Place.Traced.eq_zero {t : Ty} {e : Trace}
    (h : (Place.type t).Traced .bodies index e) : e = 0 := by
  obtain ⟨bound, u, hvisit⟩ := h
  rw [Scope.bodies_visit] at hvisit
  cases hvisit
  rfl

theorem Place.Traced.sum_bodiesIn {places : List Place} {es : List Trace}
    (h : List.Forall₂ (Place.Traced .bodies index) places es) :
    ∃ ds, List.Forall₂ (fun b => (Place.body b).Traced .bodies index)
      (Place.bodiesIn places) ds ∧ ds.sum = es.sum := by
  induction h with
  | nil => exact ⟨[], .nil, rfl⟩
  | @cons place e places es hplace _ ih =>
      obtain ⟨ds, hds, hsum⟩ := ih
      cases place with
      | type t => exact ⟨ds, hds, by rw [List.sum_cons, hplace.eq_zero, zero_add, hsum]⟩
      | body b => exact ⟨e :: ds, .cons hplace hds, by rw [List.sum_cons, List.sum_cons, hsum]⟩

namespace Expand

/-- The counts depend on the bodies and on nothing else in the crate. -/
theorem pass_counts_of_bodies (hbodies : Place.bodiesIn c.places = Place.bodiesIn d.places)
    (hc : c.visit (Scope.bodies.restrict (passVisitor index options)) PassState.start =
      (.ok c', s))
    (hd : d.visit (Scope.bodies.restrict (passVisitor index options)) PassState.start =
      (.ok d', s')) :
    s.resolved = s'.resolved ∧ s.hits = s'.hits := by
  obtain ⟨es, hes, hcounts⟩ := pass_traced .bodies hc
  obtain ⟨es', hes', hcounts'⟩ := pass_traced .bodies hd
  obtain ⟨ds, hds, hsum⟩ := Place.Traced.sum_bodiesIn hes
  obtain ⟨ds', hds', hsum'⟩ := Place.Traced.sum_bodiesIn hes'
  rw [hbodies] at hds
  have hsame : ds = ds' := forall₂_unique hds hds' fun _ _ _ => Place.Traced.unique
  rw [← hsum, hsame, hsum'] at hcounts
  exact hcounts.unique rfl hcounts'

end Expand

/-! ### The two passes -/

namespace Expansion

theorem bodies_separate (h : c.SameBodies d) (hc : pass .bodies options c = .ok (c', s))
    (hd : pass .bodies options d = .ok (d', s')) :
    c'.SameBodies d' ∧ s.resolved = s'.resolved := by
  constructor
  · refine h.related (fun t u v htu htv => htu.symm.trans htv) ?_ (bodies_rel hc)
      (bodies_rel hd)
    rintro b b' b'' ⟨hb', -⟩ ⟨hb'', -⟩
    refine hb'.unique (fun t u v hu hv => ?_) hb''
    exact (hu.mono fun k t hk => h.unfold ▸ hk).unique hv
  · rw [pass_ok_iff] at hc hd
    rw [← Expand.passVisitor_congr h.unfold] at hd
    exact (Expand.pass_counts_of_bodies h.bodies hc hd).1

theorem signatures_separate (h : c.SameBodies d)
    (hc : pass .signatures options c = .ok (c', s))
    (hd : pass .signatures options d = .ok (d', s')) : c'.SameBodies d' := by
  have hrel (e : Crate) : e.Rel Eq Eq e := by rw [Crate.rel_eq]
  refine h.related (fun t u v hu hv => ?_) (fun b b' b'' hb hb' => hb.symm.trans hb')
    (signatures_rel (hrel c) hc) (signatures_rel (hrel d) hd)
  exact (hu.mono fun k t hk => h.unfold ▸ hk).unique hv

end Expansion

/-- The functions of the sample crate return `u8` and declare no parameters. -/
def Sample.resigned : Crate :=
  { before with
    items := before.items.map fun
      | .function f => .function { f with generics := ⟨[], [], []⟩, result := .prim .u8 }
      | item => item }

/-- Signatures have no influence on bodies. If two crates have the same bodies and the same
headers of inherent impl blocks, and both are expanded, then the results do so again, and
equally many placeholders were looked up in the bodies. -/
theorem Crate.expand_separate {tally tally' : ExpansionTally} (h : c.SameBodies d)
    (hc : c.expand options = .ok (c', tally)) (hd : d.expand options = .ok (d', tally')) :
    c'.SameBodies d' ∧ tally.inBodies = tally'.inBodies := by
  obtain ⟨c₁, first, second, hfirst, hsecond, rfl⟩ := expand_ok_iff.1 hc
  obtain ⟨d₁, first', second', hfirst', hsecond', rfl⟩ := expand_ok_iff.1 hd
  obtain ⟨hbodies, hcount⟩ := Expansion.bodies_separate h hfirst hfirst'
  exact ⟨Expansion.signatures_separate hbodies hsecond hsecond', hcount⟩

theorem Crate.expand_separate_resigned :
    Sample.before.SameBodies Sample.resigned ∧
      ∃ d' tally', Sample.resigned.expand {} = .ok (d', tally') ∧
        Sample.after.SameBodies d' ∧ 7 = tally'.inBodies ∧ tally'.inSignatures = 1 := by
  have hsame : Sample.before.SameBodies Sample.resigned :=
    ⟨rfl, .cons (.function rfl) (.cons (.function rfl) .nil),
      .cons ⟨rfl, rfl, .cons rfl .nil⟩ .nil, .nil⟩
  have hbefore : Sample.before.expand {} = .ok (Sample.after, ⟨7, 3, 4⟩) := rfl
  have hresigned : ∃ d', Sample.resigned.expand {} = .ok (d', ⟨7, 1, 4⟩) := ⟨_, rfl⟩
  obtain ⟨d', hd'⟩ := hresigned
  obtain ⟨hbodies, hcount⟩ := expand_separate hsame hbefore hd'
  exact ⟨hsame, d', _, hd', hbodies, hcount, rfl⟩

end Unerase
