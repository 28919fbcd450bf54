import Unerase.Proofs.Expansion.Nesting
import Unerase.Proofs.Expansion.Selection

/-!
No position is read that does not exist. A walk reads each node twice, before its parts are
visited and after that, and other nodes may be there by then. But they have the same parts,
and the list of nodes keeps its length, so that a walk over a well-formed body stays in the
list, whatever the visitor puts in the place of types (`Body.visit_inBounds`). The bindings
of an impl block have an entry for each of its parameters from the beginning, and no match
changes their number, not even one that fails (`ImplBinding.length_matchEach`), so that a
parameter without a value has a name. Expansion reads nothing else without a check
(`Crate.expand_inBounds`).
-/

namespace Unerase

variable {ε σ : Type}

/-- The fault is not about a position that does not exist. -/
def Fault.InBounds (fault : Fault ε) : Prop :=
  ∀ length i, fault ≠ .outOfBounds length i

theorem Fault.inBounds_error (e : ε) : (Fault.error e).InBounds :=
  fun _ _ h => by cases h

theorem Fault.IsLocal.inBounds {fault : Fault ExpansionError} (h : fault.IsLocal) :
    fault.InBounds := by
  obtain ⟨e, rfl, -⟩ := h
  exact inBounds_error e

/-- From no state the computation comes to a position that does not exist. -/
abbrev Run.InBounds {α : Type} (x : Run (Fault ε) σ α) : Prop :=
  x.Guards (fun _ => True) Fault.InBounds

theorem Run.InBounds.fst_ne {α : Type} {x : Run (Fault ε) σ α} (h : x.InBounds) (s : σ)
    (length i : Nat) : (x s).1 ≠ .error (.outOfBounds length i) :=
  fun hx => (h s trivial).2 _ _ (Prod.ext hx rfl) length i rfl

/-- The walk over a well-formed body stays in its nodes if the visits to types read no
position in vain. -/
theorem Body.visit_inBounds {v : Visitor ε σ} (hv : v.EntersAll) {b : Body}
    (hb : b.WellFormed) (types : ∀ t : Ty, (t.visit v).InBounds) : (b.visit v).InBounds := by
  refine Run.guarded_self_iff.1 (Body.visit_guarded (Q := fun _ => True) hv
    (fun _ : Unit => hv) (fun _ => rfl) hb.to_acyclic (fun t _ => ?_) fun id hid hlength => ?_)
  · exact Run.Comparison.mono (fun _ _ h => ⟨h, trivial⟩) (Run.guarded_self_iff.2 (types t))
  · exact absurd (hb.inBounds id hid) (Nat.not_lt.2 hlength)

namespace ImplBinding

theorem length_matchEach (origin : Path) (pairs : List (Ty × Ty)) (bound : ImplBinding) :
    (matchEach origin pairs bound).2.length = bound.length := by
  induction pairs generalizing bound with
  | nil => rfl
  | cons pair pairs ih => exact (ih _).trans (length_matchWith origin pair.1 pair.2 bound)

theorem toArgs_inBounds (origin : Path) (generics : Generics) (pairs : List (Ty × Ty))
    (length i : Nat) :
    (matchEach origin pairs (unbound generics)).2.toArgs origin generics ≠
      .error (.outOfBounds length i) := by
  intro h
  have hlength := (length_matchEach origin pairs (unbound generics)).trans
    List.length_replicate
  exact (toArgs_error hlength h).inBounds length i rfl

end ImplBinding

theorem Expand.typeWithin_inBounds (index : Index) (options : ExpansionOptions) (room : Nat)
    (t : Ty) : (typeWithin index options room t).InBounds :=
  typeWithin_guards (fun _ => Fault.inBounds_error _) (fun _ _ => Fault.inBounds_error _)
    (fun _ _ h => (Index.unfold_error h).inBounds) room t

namespace Crate

/-- In a crate with well-formed bodies, no expansion reads a position that does not exist,
however it ends: not in the walk over a body, whatever has been expanded before, not in the
look-up of an origin, and not when the bindings of an impl block are read, whatever types
have been matched. -/
theorem expand_inBounds {c : Crate} (hc : c.WellFormed) (length i : Nat) :
    (∀ options, c.expand options ≠ .error (.outOfBounds length i)) ∧
    (∀ b ∈ c.bodies, ∀ index options s, (b.visit (Expand.passVisitor index options) s).1 ≠
      .error (.outOfBounds length i)) ∧
    (∀ (index : Index) (origin : Path),
      index.resolve origin ≠ .error (.outOfBounds length i)) ∧
    ∀ origin generics pairs,
      (ImplBinding.matchEach origin pairs (.unbound generics)).2.toArgs origin generics ≠
        .error (.outOfBounds length i) := by
  refine ⟨fun options h => ?expand, fun b hb index options s => ?walk,
    fun index origin h => ?resolve, fun origin generics pairs => ?toArgs⟩
  case expand =>
    rcases hc.expand_ok_or_error options with ⟨out, hout⟩ | ⟨e, he⟩
    · rw [h] at hout
      cases hout
    · rw [h] at he
      cases he
  case walk =>
    have types (t : Ty) : (t.visit (Expand.passVisitor index options)).InBounds := by
      rw [Expand.visit_passVisitor]
      exact Expand.typeWithin_inBounds index options options.maxDepth t
    have hv := Expand.passVisitor_forTypes index options
    exact (Body.visit_inBounds hv.entersAll (hc b hb) types).fst_ne s length i
  case resolve => exact (Index.resolve_error h).inBounds length i rfl
  case toArgs => exact ImplBinding.toArgs_inBounds origin generics pairs length i

end Crate

/-! ### A body with a shared node -/

namespace Sample

/-- A pair of the first node and the node at the given position. The types are what the
function itself hides. -/
def paired (second : NodeId) : Body :=
  ⟨[⟨.lit (.int 1), result "pair"⟩,
    ⟨.tuple [0, second], .tuple [result "pair", result "pair"]⟩], 1, [], [.prim .i32]⟩

def pairing (second : NodeId) : Crate where
  name := "sample"
  items := ⟨[("pair", .function ⟨⟨[], [], []⟩, [], .never, some (paired second)⟩)]⟩
  inherentImpls := []
  traitImpls := []

theorem pairing_wellFormed : (pairing 0).WellFormed := by
  intro b hb
  obtain rfl := List.mem_singleton.1 hb
  have hfirst : Node.Within (paired 0).nodes 1 0 := ⟨_, rfl, by simp [Expr.children]⟩
  have hends : (paired 0).Ends 0 := ⟨_, rfl, by simpa [Expr.children] using hfirst⟩
  exact Body.ends_iff.1 hends

end Sample

/-- The first node of the pair is visited twice. If the pair has a part that does not exist,
the walk over it stops there. -/
theorem Crate.expand_inBounds_shared :
    (Sample.pairing 0).WellFormed ∧
      (Sample.pairing 0).expand {} ≠ .error (.outOfBounds 2 2) ∧
      (Sample.pairing 2).expand {} = .error (.outOfBounds 2 2) :=
  ⟨Sample.pairing_wellFormed, (expand_inBounds Sample.pairing_wellFormed 2 2).1 {}, rfl⟩

end Unerase
