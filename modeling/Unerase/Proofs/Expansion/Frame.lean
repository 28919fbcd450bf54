import Unerase.Proofs.Expansion.Reference

namespace Unerase

/-- The second type is the first one with other types in the place of the outermost
placeholders. -/
inductive Ty.SameOutside : Ty → Ty → Prop
  | parts {t u : Ty} : Ty.Parts Ty.SameOutside t u → Ty.SameOutside t u
  | placeholder {origin : Path} {i : Nat} {bounds : List ItemRef} {u : Ty} :
      Ty.SameOutside (.erased origin i bounds) u

/-- What an expansion may do to a type: a type without placeholders stays as it is, and
any type stays the same outside the outermost placeholders. -/
structure Ty.Framed (t u : Ty) : Prop where
  outside : t.SameOutside u
  free : t.hasErased = false → u = t

theorem Expands.framed {index : Index} {t u : Ty} (h : Expands index t u) :
    t.Framed u := by
  have outside : t.SameOutside u := by
    refine h.induct (P := Ty.SameOutside) ?parts ?placeholder
    case parts =>
      intro t u htu
      exact .parts (htu.mono fun _ _ ih => ih.2)
    case placeholder =>
      intro origin origin' i bounds t u _ _ _ _
      exact .placeholder
  exact ⟨outside, fun hfree => Expands.eq_of_hasErased hfree h⟩

/-- A body after an expansion: it has as many nodes as before, and those in use differ
inside placeholders only. -/
structure Body.Framed (b b' : Body) : Prop where
  size : b'.nodes.length = b.nodes.length
  types : b.Rel Ty.Framed b'

theorem Body.Rel.framed {index : Index} {b b' : Body}
    (h : b.Rel (Expands index) b') : b.Framed b' where
  size := h.length_eq
  types := h.mono fun _ _ ht => ht.framed

/-- The expansion changes a crate inside placeholders only. -/
theorem Crate.expand_framed {options : ExpansionOptions} {c c' : Crate}
    {tally : ExpansionTally} (h : c.expand options = .ok (c', tally)) :
    c.Rel Ty.Framed Body.Framed c' := by
  obtain ⟨c₁, first, -, hc⟩ := expand_rel h
  apply hc.mono
  · intro t u ht
    exact ht.framed
  · intro b b' hb
    exact hb.1.framed

theorem Crate.expand_framed_sample :
    Sample.before.expand {} = .ok (Sample.after, ⟨7, 3, 4⟩) ∧
      Sample.before.Rel Ty.Framed Body.Framed Sample.after :=
  have hexpand : Sample.before.expand {} = .ok (Sample.after, ⟨7, 3, 4⟩) := rfl
  ⟨hexpand, expand_framed hexpand⟩

end Unerase
