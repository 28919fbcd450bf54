import Unerase.Expansion.Error
import Unerase.Item
import Unerase.Ty.Match

/-!
The arguments of an impl block for a given receiver. They are found by matching
the self type of the block against the receiver: a type parameter stands for the
part that it lines up with last. Constant parameters are not supported.
-/

namespace Unerase

/-- What the type parameters of an impl block stand for, one entry for each. -/
abbrev ImplBinding := List (Option Ty)

namespace ImplBinding

/-- No parameter of the block is bound yet. -/
def unbound (generics : Generics) : ImplBinding :=
  List.replicate generics.types.length none

/-- Binds a type parameter of the block, also if it was bound before. -/
def bindType (origin : Path) (p : Param) (t : Ty) :
    Run ExpansionError ImplBinding Unit :=
  fun bound =>
    match p.slot with
    | .impl index =>
        if index < bound.length then (.ok (), bound.set index (some t))
        else (.error (.unsupported origin (.paramInSelf p)), bound)
    | _ => (.error (.unsupported origin (.paramInSelf p)), bound)

/-- The matcher for the self type of a block. The origin is told in its errors. -/
def matcher (origin : Path) : Matcher ExpansionError ImplBinding where
  bindType := bindType origin
  bindConst p c := Run.stop (.unsupported origin (.constParamInSelf p c))
  clash pattern concrete bound := (.shapeMismatch pattern concrete, bound)

/-- Matches patterns against types one after the other, and tells how each match
ends. A match that fails keeps what it has bound, and the others follow it. -/
def matchEach (origin : Path) :
    List (Ty × Ty) → ImplBinding → List (Except ExpansionError Unit) × ImplBinding
  | [], bound => ([], bound)
  | (pattern, concrete) :: rest, bound =>
      let (outcome, bound) := pattern.matchWith (matcher origin) concrete bound
      let (outcomes, bound) := matchEach origin rest bound
      (outcome :: outcomes, bound)

/-- The bound types from parameter `index` on, or an error for the first
parameter that is not bound. -/
def types (origin : Path) (generics : Generics) :
    (index : Nat) → ImplBinding → Except (Fault ExpansionError) (List Ty)
  | _, [] => .ok []
  | index, some t :: rest => do
      let ts ← types origin generics (index + 1) rest
      .ok (t :: ts)
  | index, none :: _ =>
      match generics.types[index]? with
      | some param => .error (.error (.unconstrained origin param.name index))
      | none => .error (.outOfBounds generics.types.length index)

/-- The arguments of the block once matching is done. -/
def toArgs (origin : Path) (generics : Generics) (bound : ImplBinding) :
    Except (Fault ExpansionError) Args := do
  let ts ← types origin generics 0 bound
  if generics.consts.isEmpty then .ok ⟨ts, []⟩
  else .error (.error (.unsupported origin .implConsts))

end ImplBinding

end Unerase
