import Unerase.Expansion.Index
import Unerase.Proofs.Relation.Erased

/-!
What a type expands to, without any order of work, memory or limit. A type that is not
a placeholder expands part by part. A placeholder expands to whatever the type that it
stands for expands to, once its origin is expanded; its bounds play no part.

Expansion is a function (`Expands.unique`), although not a total one, and leaves no
placeholder (`Expands.hasErased`).
-/

namespace Unerase

/-- The first type expands to the second one with the templates of the index. -/
inductive Expands (index : Index) : Ty → Ty → Prop
  | parts {t u : Ty} : Ty.Parts (Expands index) t u → Expands index t u
  | placeholder {origin origin' : Path} {i : Nat} {bounds : List ItemRef}
      {t u : Ty} :
      origin.Rel (Expands index) origin' → index.unfold ⟨origin', i⟩ = .ok t →
      Expands index t u → Expands index (.erased origin i bounds) u

namespace Expands

variable {index : Index} {t u v : Ty}

/-- Induction over expansions. A property that comes with an expansion may be used
for all parts, for all parts of the origin, and for what a placeholder stands for. -/
theorem induct {P : Ty → Ty → Prop}
    (parts : ∀ t u, Ty.Parts (fun t u => Expands index t u ∧ P t u) t u → P t u)
    (placeholder : ∀ origin origin' i bounds t u,
      origin.Rel (fun t u => Expands index t u ∧ P t u) origin' →
      index.unfold ⟨origin', i⟩ = .ok t → Expands index t u → P t u →
      P (.erased origin i bounds) u)
    (h : Expands index t u) : P t u := by
  refine (@Expands.rec index (fun t u _ => Expands index t u ∧ P t u)
    (fun t u _ => Ty.Parts (fun t u => Expands index t u ∧ P t u) t u)
    (fun p q _ => p.Rel (fun t u => Expands index t u ∧ P t u) q)
    (fun r s _ => r.Rel (fun t u => Expands index t u ∧ P t u) s)
    (fun rs ss _ =>
      List.Forall₂ (ItemRef.Rel fun t u => Expands index t u ∧ P t u) rs ss)
    (fun ts us _ => List.Forall₂ (fun t u => Expands index t u ∧ P t u) ts us)
    (fun a b _ => a.Rel (fun t u => Expands index t u ∧ P t u) b)
    (fun h ih => ⟨.parts h, parts _ _ ih⟩)
    (fun ho hunfold h iho ih => ⟨.placeholder ho hunfold h,
      placeholder _ _ _ _ _ _ iho hunfold h ih.2⟩)
    .never .prim (fun _ ih => .path ih) .param (fun _ _ ih ih' => .dyn ih ih')
    (fun _ ih => .array ih) (fun _ ih => .slice ih) (fun _ ih => .tuple ih)
    (fun _ ih => .ref ih) (fun _ ih => .ptr ih) (fun _ _ ih ih' => .fn ih ih')
    (fun _ ih => .item ih) (fun _ _ ih ih' => .inherent ih ih')
    (fun _ _ _ ih ih' ih'' => .known ih ih' ih'')
    (fun _ _ ih ih' => .unknown ih ih') (fun _ ih => .intro ih)
    .nil (fun _ _ ih ih' => .cons ih ih') .nil (fun _ _ ih ih' => .cons ih ih')
    (fun _ ih => .intro ih) t u h).2

/-- A type expands to one type at most. -/
theorem unique (hu : Expands index t u) (hv : Expands index t v) : u = v := by
  refine induct (P := fun t u => ∀ v, Expands index t v → u = v) ?parts
    ?placeholder hu v hv
  case parts =>
    intro t u h v hv
    cases hv with
    | parts h' => exact h.unique (fun _ _ v ih hv => ih.2 v hv) h'
    | placeholder => cases h
  case placeholder =>
    intro origin origin' i bounds t u ho hunfold _ ih v hv
    cases hv with
    | parts h => cases h
    | placeholder ho' hunfold' h =>
        cases ho.unique (fun _ _ v ih hv => ih.2 v hv) ho'
        rw [hunfold] at hunfold'
        cases hunfold'
        exact ih v h

theorem mono {index' : Index}
    (hle : ∀ k t, index.unfold k = .ok t → index'.unfold k = .ok t)
    (h : Expands index t u) : Expands index' t u := by
  refine induct (P := Expands index') ?parts ?placeholder h
  case parts =>
    intro t u h
    exact .parts (h.mono fun _ _ ih => ih.2)
  case placeholder =>
    intro origin origin' i bounds t u ho hunfold _ ih
    exact .placeholder (ho.mono fun _ _ ih => ih.2) (hle _ _ hunfold) ih

/-- Nothing is left to expand in the result of an expansion. -/
theorem hasErased (h : Expands index t u) : u.hasErased = false :=
  induct (P := fun _ u => u.hasErased = false)
    (fun _ _ h => h.hasErased fun _ _ ih => ih.2)
    (fun _ _ _ _ _ _ _ _ _ ih => ih) h

theorem of_hasErased (h : t.hasErased = false) : Expands index t t := by
  have hereditary : Ty.Hereditary fun t u =>
      t.hasErased = false → Expands index t u := by
    refine ⟨fun t h hfree => ?_, fun _ _ _ _ _ hfree => ?_⟩
    · exact .parts (h.of_hasErased (fun _ _ hfree h => h hfree) hfree)
    · simp [Ty.hasErased] at hfree
  exact hereditary.ty t h

theorem eq_of_hasErased (h : t.hasErased = false) (hu : Expands index t u) : u = t :=
  hu.unique (of_hasErased h)

theorem to_parts (h : t.isErased = false) (hu : Expands index t u) :
    Ty.Parts (Expands index) t u := by
  cases hu with
  | parts hu => exact hu
  | placeholder => cases h

/-- The one type to which a type expands. -/
def Only (index : Index) (t u : Ty) : Prop :=
  ∀ v, Expands index t v ↔ v = u

theorem only (h : Expands index t u) : Only index t u :=
  fun _ => ⟨fun hv => hv.unique h, fun hv => hv ▸ h⟩

end Expands

end Unerase
