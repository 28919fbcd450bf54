import Unerase.Proofs.Relation.Erased
import Unerase.Proofs.Relation.Parts

namespace Unerase

/-- The types are built alike from related parts. Of placeholders the origins are related,
and the bounds may differ. -/
inductive Ty.PartsButBounds (R : Ty → Ty → Prop) : Ty → Ty → Prop
  | parts {t u : Ty} : Ty.Parts R t u → Ty.PartsButBounds R t u
  | erased {origin origin' : Path} (index : Nat) (bounds bounds' : List ItemRef) :
      origin.Rel R origin' →
      Ty.PartsButBounds R (.erased origin index bounds) (.erased origin' index bounds')

theorem Ty.partsButBounds_of_eq {t u : Ty} (h : t = u) : Ty.PartsButBounds Eq t u := by
  have hereditary : Ty.Hereditary fun t u => t = u ∧ Ty.PartsButBounds Eq t u :=
    ⟨fun t h => ⟨rfl, .parts (h.mono fun _ _ h => h.1)⟩,
      fun origin index bounds h _ => ⟨rfl, .erased index bounds bounds
        (h.mono fun _ _ h => h.1)⟩⟩
  exact h ▸ (hereditary.ty t).2

/-- The types differ in the bounds of placeholders only, at whatever depth. -/
inductive Ty.SameButBounds : Ty → Ty → Prop
  | parts {t u : Ty} : Ty.Parts Ty.SameButBounds t u → Ty.SameButBounds t u
  | erased {origin origin' : Path} (index : Nat) (bounds bounds' : List ItemRef) :
      origin.Rel Ty.SameButBounds origin' →
      Ty.SameButBounds (.erased origin index bounds) (.erased origin' index bounds')

namespace Ty.SameButBounds

/-- Induction over types that differ in bounds. A property may be used for all parts, and
for all parts of the origin of a placeholder. -/
theorem induct {P : Ty → Ty → Prop} (parts : ∀ t u, Ty.Parts P t u → P t u)
    (erased : ∀ origin origin' index bounds bounds', origin.Rel P origin' →
      P (.erased origin index bounds) (.erased origin' index bounds'))
    {t u : Ty} (h : t.SameButBounds u) : P t u :=
  @Ty.SameButBounds.rec (fun t u _ => P t u) (fun t u _ => Ty.Parts P t u)
    (fun p q _ => p.Rel P q) (fun r s _ => r.Rel P s)
    (fun rs ss _ => List.Forall₂ (ItemRef.Rel P) rs ss) (fun ts us _ => List.Forall₂ P ts us)
    (fun a b _ => a.Rel P b)
    (fun _ ih => parts _ _ ih) (fun index bounds bounds' _ ih =>
      erased _ _ index bounds bounds' ih)
    .never .prim (fun _ ih => .path ih) .param (fun _ _ ih ih' => .dyn ih ih')
    (fun _ ih => .array ih) (fun _ ih => .slice ih) (fun _ ih => .tuple ih)
    (fun _ ih => .ref ih) (fun _ ih => .ptr ih) (fun _ _ ih ih' => .fn ih ih')
    (fun _ ih => .item ih) (fun _ _ ih ih' => .inherent ih ih')
    (fun _ _ _ ih ih' ih'' => .known ih ih' ih'')
    (fun _ _ ih ih' => .unknown ih ih') (fun _ ih => .intro ih)
    .nil (fun _ _ ih ih' => .cons ih ih') .nil (fun _ _ ih ih' => .cons ih ih')
    (fun _ ih => .intro ih) t u h

theorem partsButBounds {t u : Ty} (h : t.SameButBounds u) :
    Ty.PartsButBounds Ty.SameButBounds t u := by
  cases h with
  | parts h => exact .parts h
  | erased index bounds bounds' h => exact .erased index bounds bounds' h

theorem refl (t : Ty) : t.SameButBounds t := by
  have hereditary : Ty.Hereditary Ty.SameButBounds :=
    ⟨fun _ h => .parts h, fun _ index bounds h _ => .erased index bounds bounds h⟩
  exact hereditary.ty t

theorem eq_of_hasErased {t u : Ty} (h : t.SameButBounds u) (ht : t.hasErased = false) :
    t = u := by
  refine h.induct (P := fun t u => t.hasErased = false → t = u) ?parts ?erased ht
  case parts =>
    intro t u h ht
    exact (h.of_hasErased (S := Eq) (fun _ _ ht ih => ih ht) ht).eq
  case erased =>
    intro origin origin' index bounds bounds' _ ht
    simp [Ty.hasErased] at ht

end Ty.SameButBounds

theorem Node.eq_of_sameButBounds {n m : Node} (h : n.Rel Ty.SameButBounds m)
    (hn : ∀ t ∈ n.parts, t.hasErased = false) : n = m := by
  have hself : n.Rel (fun t u => t = u ∧ t.hasErased = false) n :=
    Node.rel_of_parts fun t ht => ⟨rfl, hn t ht⟩
  refine hself.unique (fun t u v hu hv => ?_) h
  obtain ⟨rfl, ht⟩ := hu
  exact hv.eq_of_hasErased ht

/-- The bodies differ in bounds only, in use or not. -/
abbrev Body.SameButBounds (b d : Body) : Prop :=
  b.RelAll Ty.SameButBounds Ty.SameButBounds d

/-- The bodies differ in bounds only, and that only in nodes that are not in use. -/
structure Body.SameInUse (b d : Body) : Prop where
  same : b.RelAll Ty.SameButBounds Eq d
  reached : ∀ id, b.Reachable id → b.nodes[id]? = d.nodes[id]?

end Unerase
