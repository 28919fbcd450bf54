import Unerase.Proofs.Expansion.Reference
import Unerase.Proofs.Relation.BoundsIndex

/-!
Bounds have no influence on an expansion. The bounds of a placeholder are replaced with it
and are no part of the key that is looked up, and the templates behind a key differ in bounds
at most, which are dropped in their turn. So if two crates differ in bounds only and both are
expanded, then the expansions make the same lookups, and what is left of the bounds stands
in nodes that are not in use (`Crate.expand_bounds`).
-/

namespace Unerase

/-- The same type, and it has no placeholders. -/
def Ty.SameFree (t u : Ty) : Prop :=
  t = u ∧ u.hasErased = false

theorem Path.sameFree_of_rel {p q : Path} (h : p.Rel Ty.SameFree q) :
    p = q ∧ q.hasErased = false := by
  refine ⟨?_, h.hasErased fun _ _ htu => htu.2⟩
  rw [← Path.rel_eq]
  exact h.mono fun _ _ htu => htu.1

theorem Ty.Parts.sameFree {t u : Ty} (h : Ty.Parts Ty.SameFree t u) : t.SameFree u :=
  ⟨(h.mono fun _ _ htu => htu.1).eq, h.hasErased fun _ _ htu => htu.2⟩

theorem Ty.SameFree.sameButBounds {t u : Ty} (h : t.SameFree u) : t.SameButBounds u :=
  h.1 ▸ .refl t

/-- Types that differ in bounds become the same if the answers at placeholders are. These
are asked for at origins without placeholders only. -/
theorem Ty.visit_bounds {ε σ ε' σ' ι : Type}
    {L : Run.Comparison (Fault ε) σ (Fault ε') σ' ι} {f : Path → Nat → Run (Fault ε) σ Ty}
    {g : ι → Path → Nat → Run (Fault ε') σ' Ty}
    (h : ∀ origin index, origin.hasErased = false →
      L.Holds Ty.SameFree (f origin index) fun i => g i origin index)
    {t u : Ty} (htu : t.SameButBounds u) :
    L.Holds Ty.SameFree (t.visit (.replacing f)) fun i => u.visit (.replacing (g i)) := by
  have hf : (Visitor.replacing f).Thorough := Visitor.replacing_thorough f
  have hg (i : ι) : (Visitor.replacing (g i)).Thorough := Visitor.replacing_thorough (g i)
  refine htu.induct (P := fun t u => L.Holds Ty.SameFree (t.visit (.replacing f))
    fun i => u.visit (.replacing (g i))) ?parts ?erased
  case parts =>
    intro t u htu
    simp only [hf.visit, (hg _).visit]
    exact L.mono (fun _ _ => Ty.Parts.sameFree)
      (Ty.walk_related hf.entersAll (fun i => (hg i).entersAll) (fun _ _ ih => ih) htu)
  case erased =>
    intro origin origin' index bounds bounds' horigin
    simp only [hf.visit, (hg _).visit]
    refine L.bind (Path.visit_related hf.entersAll (fun i => (hg i).entersAll)
      (fun _ _ ih => ih) horigin) fun p q hpq => ?_
    obtain ⟨rfl, hfree⟩ := Path.sameFree_of_rel hpq
    exact h p index hfree

namespace Unfolding

variable {index index' : Index}

theorem visit_bounds (h : index.SameButBounds index') (bound bound' : Nat) {t u : Ty}
    (htu : t.SameButBounds u) :
    (Run.concord (Fault ExpansionError) (Fault ExpansionError) fun _ : Unit => True).Holds
      Ty.SameFree (t.visit (visitor index bound)) fun _ => u.visit (visitor index' bound') := by
  induction bound generalizing bound' t u with
  | zero =>
      refine Ty.visit_bounds (fun origin i _ => ?_) htu
      exact Run.concord_of_not_ok fun s a s₁ hstop => by cases hstop
  | succ bound ih =>
      refine Ty.visit_bounds (fun origin i _ => ?_) htu
      rintro ⟨⟩ - a ⟨⟩ hkey b ⟨⟩ hkey'
      cases bound' with
      | zero => cases hkey'
      | succ bound' =>
          obtain ⟨t, hunfold, ht⟩ := key_succ_iff.1 hkey
          obtain ⟨t', hunfold', ht'⟩ := key_succ_iff.1 hkey'
          exact ih bound' (h.unfold hunfold hunfold') () trivial a () ht b () ht'

end Unfolding

namespace Expand

variable {index index' : Index} {options : ExpansionOptions}

/-- What the cache has for a key has no placeholders. -/
def CacheFree (s : PassState) : Prop :=
  ∀ k u, s.cache.lookup k = some u → u.hasErased = false

theorem CacheFree.finish {s : PassState} (h : CacheFree s) (options : ExpansionOptions)
    (k : TemplateKey) {u : Ty} (hu : u.hasErased = false) :
    CacheFree (finish options k u s) := by
  intro k' u' hk'
  rcases lookup_finish hk' with ⟨rfl, rfl⟩ | hk'
  · exact hu
  · exact h k' u' hk'

/-- Types that differ in bounds are expanded alike, and with the same lookups. -/
theorem typeWithin_bounds (h : index.SameButBounds index') (room : Nat) {t u : Ty}
    (htu : t.SameButBounds u) :
    (Run.concord (Fault ExpansionError) (Fault ExpansionError) CacheFree).Holds Ty.SameFree
      (typeWithin index options room t) fun _ => typeWithin index' options room u := by
  induction room using Nat.strongRecOn generalizing t u with
  | ind room ih =>
      simp only [typeWithin_eq_replacing]
      refine Ty.visit_bounds (fun origin i _ => ?_) htu
      intro s hs a s₁ hanswer b s₂ hanswer'
      -- Both sides look the same key up in the same cache, so both find it or none does.
      rcases answer_ok_iff.1 hanswer with
        ⟨hhit, rfl⟩ | ⟨hmiss, -, less, t, r₁, rfl, hunfold, ht, rfl⟩
      · rcases answer_ok_iff.1 hanswer' with ⟨hhit', rfl⟩ | ⟨hmiss', -⟩
        · cases hhit.symm.trans hhit'
          exact ⟨⟨rfl, hs _ a hhit⟩, rfl, hs⟩
        · cases hhit.symm.trans hmiss'
      · rcases answer_ok_iff.1 hanswer' with
          ⟨hhit', -⟩ | ⟨-, -, less', t', r₂, hroom, hunfold', ht', rfl⟩
        · cases hmiss.symm.trans hhit'
        · cases hroom
          obtain ⟨⟨rfl, hfree⟩, rfl, hs₁⟩ := ih less (Nat.lt_succ_self less)
            (h.unfold hunfold hunfold') (s.countResolved.push ⟨origin, i⟩) hs a r₁ ht b r₂ ht'
          exact ⟨⟨rfl, hfree⟩, rfl, hs₁.finish options _ hfree⟩

theorem visit_bounds (h : index.SameButBounds index') {t u : Ty} (htu : t.SameButBounds u) :
    (Run.concord (Fault ExpansionError) (Fault ExpansionError) CacheFree).Holds Ty.SameFree
      (t.visit (passVisitor index options)) fun _ => u.visit (passVisitor index' options) := by
  simp only [visit_passVisitor]
  exact typeWithin_bounds h options.maxDepth htu

theorem cacheFree_start : CacheFree PassState.start :=
  fun k u hk => by simp [PassState.start] at hk

end Expand

/-! ### Bodies -/

theorem Body.sameInUse {b b' d' : Body} (hfree : b.Rel (fun _ u => u.hasErased = false) b')
    (h : b'.RelAll Ty.SameButBounds Ty.SameFree d') : b'.SameInUse d' where
  same := ⟨h.root, h.nodes, h.bindings.imp fun _ _ htu => htu.1,
    h.templates.imp fun _ _ htu => htu.1⟩
  reached id hid := by
    have hnode := hfree.reached id (hfree.reachable hid)
    have hnode' := forall₂_getElem? h.nodes id
    generalize b.nodes[id]? = x at hnode
    generalize b'.nodes[id]? = y at hnode hnode' ⊢
    generalize d'.nodes[id]? = z at hnode' ⊢
    cases hnode' with
    | none => rfl
    | some hrel =>
        rcases hnode with ⟨hnode⟩ | -
        refine congrArg some (Node.eq_of_sameButBounds hrel fun t ht => ?_)
        obtain ⟨u, -, hu⟩ := forall₂_exists hnode.parts.flip ht
        exact hu

theorem Body.visit_bounds {ε σ ε' σ' ι : Type}
    {L : Run.Comparison (Fault ε) σ (Fault ε') σ' ι} (hL : L.KeepsFaults) {v : Visitor ε σ}
    {w : ι → Visitor ε' σ'} (hv : v.ForTypes) (hw : ∀ i, (w i).ForTypes)
    (types : ∀ t u : Ty, t.SameButBounds u →
      L.Holds Ty.SameFree (t.visit v) fun i => u.visit (w i))
    {b d : Body} (h : b.SameButBounds d) :
    L.Holds (Body.RelAll Ty.SameButBounds Ty.SameFree) (b.visit v) fun i => d.visit (w i) :=
  Body.visit_related hL hv.entersAll (fun i => (hw i).entersAll) types
    (fun _ _ => Ty.SameFree.sameButBounds)
    (fun i => (hw i).patience.trans hv.patience.symm) h

/-- Bodies that differ in bounds are the same wherever they are in use once they are
expanded. -/
theorem Unfolding.body_bounds {index index' : Index} (h : index.SameButBounds index')
    (bound bound' : Nat) {b d : Body} (hbd : b.SameButBounds d) :
    (Run.concord (Fault ExpansionError) (Fault ExpansionError) fun _ : Unit => True).Holds
      Body.SameInUse (b.visit (visitor index bound)) fun _ => d.visit (visitor index' bound') := by
  intro s hs b' s₁ hb d' s₂ hd
  have hrel := Body.visit_bounds (Run.concord_keepsFaults _) (visitor_forTypes index bound)
    (fun _ => visitor_forTypes index' bound') (fun _ _ => visit_bounds h bound bound') hbd
  obtain ⟨hsame, rfl, -⟩ := hrel s hs b' s₁ hb d' s₂ hd
  have hfree : b.Rel (fun _ u => u.hasErased = false) b' :=
    (Body.rel_of_visit (visitor_forTypes index bound).entersAll
      (fun t _ t' _ ht => (visit_expands ht).hasErased)
      (fun t t' ht => (visitor_thorough index bound).visit_of_hasErased t' ht) hb).1
  exact ⟨Body.sameInUse hfree hsame, rfl, trivial⟩

/-! ### The two passes -/

namespace Expansion

variable {options : ExpansionOptions} {c c' d d' : Crate} {s s' : PassState}

theorem bodies_bounds (h : c.Rel Ty.SameButBounds Body.SameButBounds d)
    (hc : pass .bodies options c = .ok (c', s)) (hd : pass .bodies options d = .ok (d', s')) :
    c'.Rel Ty.SameButBounds Body.SameInUse d' ∧ s = s' := by
  have hindex : (Index.ofCrate c).SameButBounds (.ofCrate d) :=
    h.sameButBounds fun _ _ hbd => hbd.templates
  rw [pass_ok_iff] at hc hd
  -- The results are compared as those of `Unfolding`: it has no state, so that all types it
  -- comes to are known to lose their placeholders.
  constructor
  · obtain ⟨⟨bound, hc⟩, -⟩ := Expand.pass_unfolding .bodies hc
    obtain ⟨⟨bound', hd⟩, -⟩ := Expand.pass_unfolding .bodies hd
    exact (Scope.bodies_related (fun _ _ => Unfolding.body_bounds hindex bound bound') h ()
      trivial c' () hc d' () hd).1
  · have hvisit := Scope.bodies_related (fun _ _ => Body.visit_bounds
      (Run.concord_keepsFaults _) (Expand.passVisitor_forTypes _ options)
      (fun _ => Expand.passVisitor_forTypes _ options)
      fun _ _ => Expand.visit_bounds hindex) h
    exact (hvisit _ Expand.cacheFree_start c' s hc d' s' hd).2.1

theorem signatures_bounds (h : c.Rel Ty.SameButBounds Body.SameInUse d)
    (hc : pass .signatures options c = .ok (c', s))
    (hd : pass .signatures options d = .ok (d', s')) :
    c'.Rel Eq Body.SameInUse d' ∧ s = s' := by
  have hindex : (Index.ofCrate c).SameButBounds (.ofCrate d) :=
    h.sameButBounds fun _ _ hbd => hbd.same.templates.imp fun t _ htu => htu ▸ .refl t
  rw [pass_ok_iff] at hc hd
  have hv := Expand.passVisitor_forTypes (Index.ofCrate c) options
  have hw := Expand.passVisitor_forTypes (Index.ofCrate d) options
  have hvisit := Crate.visit_related
    (L := Run.concord (Fault ExpansionError) (Fault ExpansionError) Expand.CacheFree)
    (B := Body.SameInUse) hv.entersAll (fun _ => hw.entersAll)
    (fun _ _ => Expand.visit_bounds hindex) ?bodies h
  · obtain ⟨hrel, hs, -⟩ := hvisit _ Expand.cacheFree_start c' s hc d' s' hd
    exact ⟨hrel.mono (fun _ _ htu => htu.1) fun _ _ hbd => hbd, hs⟩
  case bodies =>
    intro b d hbd
    simp only [hv.body, hw.body]
    exact Run.Comparison.pure _ hbd

end Expansion

namespace Sample

/-- What the function `make` of the next crate returns, with what is known of it. -/
def veil (bounds : List ItemRef) : Ty :=
  .erased (.item ⟨⟨"sample", ["make"]⟩, ⟨[], []⟩⟩) 0 bounds

/-- The function `make` hides `u8`. Its body has a node that is not in use. -/
def stray (used unused : Ty) : Crate where
  name := "sample"
  items := ⟨[("make", .function ⟨⟨[], [], []⟩, [], used,
    some ⟨[⟨.lit (.int 1), used⟩, ⟨.lit (.int 2), unused⟩], 0, [], [.prim .u8]⟩⟩)]⟩
  inherentImpls := []
  traitImpls := []

/-- The placeholder stands in the signature of `make` and at both nodes. -/
def veiled (bounds : List ItemRef) : Crate := stray (veil bounds) (veil bounds)

/-- After the expansion it stands at the node only that is not in use. -/
def unveiled (bounds : List ItemRef) : Crate := stray (.prim .u8) (veil bounds)

def display : ItemRef := ⟨⟨"sample", ["Display"]⟩, ⟨[], []⟩⟩

theorem veiled_sameButBounds (bounds bounds' : List ItemRef) :
    (veiled bounds).Rel Ty.SameButBounds Body.SameButBounds (veiled bounds') := by
  have hveil : (veil bounds).SameButBounds (veil bounds') :=
    .erased 0 bounds bounds' (.item (.intro (.intro .nil)))
  have hbody : Body.SameButBounds
      ⟨[⟨.lit (.int 1), veil bounds⟩, ⟨.lit (.int 2), veil bounds⟩], 0, [], [.prim .u8]⟩
      ⟨[⟨.lit (.int 1), veil bounds'⟩, ⟨.lit (.int 2), veil bounds'⟩], 0, [], [.prim .u8]⟩ :=
    ⟨rfl, .cons ⟨.lit, hveil⟩ (.cons ⟨.lit, hveil⟩ .nil), .nil, .cons (.refl _) .nil⟩
  exact ⟨rfl, .cons (.function ⟨⟨.nil, .nil, .nil⟩, .nil, hveil, .some hbody⟩) .nil, .nil,
    .nil⟩

end Sample

/-- Bounds carry no meaning for an expansion. If two crates differ in the bounds of
placeholders only, wherever these stand, and both are expanded, then the tallies are equal
and the results are the same, save for bounds in nodes of bodies that are not in use. -/
theorem Crate.expand_bounds {options : ExpansionOptions} {c d c' d' : Crate}
    {tally tally' : ExpansionTally} (h : c.Rel Ty.SameButBounds Body.SameButBounds d)
    (hc : c.expand options = .ok (c', tally)) (hd : d.expand options = .ok (d', tally')) :
    tally = tally' ∧ c'.Rel Eq Body.SameInUse d' := by
  obtain ⟨c₁, first, second, hfirst, hsecond, rfl⟩ := expand_ok_iff.1 hc
  obtain ⟨d₁, first', second', hfirst', hsecond', rfl⟩ := expand_ok_iff.1 hd
  obtain ⟨hbodies, rfl⟩ := Expansion.bodies_bounds h hfirst hfirst'
  obtain ⟨hsignatures, rfl⟩ := Expansion.signatures_bounds hbodies hsecond hsecond'
  exact ⟨rfl, hsignatures⟩

/-- The results differ in the node that is not in use, and nowhere else. -/
theorem Crate.expand_bounds_stray :
    (Sample.veiled []).Rel Ty.SameButBounds Body.SameButBounds
        (Sample.veiled [Sample.display]) ∧
      (Sample.veiled []).expand {} = .ok (Sample.unveiled [], ⟨1, 1, 0⟩) ∧
      (Sample.veiled [Sample.display]).expand {} =
        .ok (Sample.unveiled [Sample.display], ⟨1, 1, 0⟩) ∧
      (Sample.unveiled []).Rel Eq Body.SameInUse (Sample.unveiled [Sample.display]) := by
  have hsame := Sample.veiled_sameButBounds [] [Sample.display]
  have hbare : (Sample.veiled []).expand {} = .ok (Sample.unveiled [], ⟨1, 1, 0⟩) := rfl
  have hdisplay : (Sample.veiled [Sample.display]).expand {} =
      .ok (Sample.unveiled [Sample.display], ⟨1, 1, 0⟩) := rfl
  exact ⟨hsame, hbare, hdisplay, (expand_bounds hsame hbare hdisplay).2⟩

end Unerase
