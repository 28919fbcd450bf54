import Unerase.Visitor.Body
import Unerase.Visitor.Crate

/-!
Visitors that only look, and the number of placeholders in a crate. A placeholder
within the origin or the bounds of another one counts as well, and one in a shared
node counts each time that the walk comes to it.
-/

namespace Unerase

/-- A visitor that is shown every type and has it walked, whatever it is. -/
structure Observer where
  error : Type
  state : Type
  /-- What becomes of the state when the type is shown. -/
  note : Ty → state → state

namespace Observer

/-- The visitor of an observer, given what it does with the bodies that a walk over
items comes to. -/
def visitor (o : Observer) (body : Body → Run (Fault o.error) o.state Body := pure) :
    Visitor o.error o.state where
  type t := do
    .update (o.note t)
    pure none
  body

/-- The visitor of an observer that looks into bodies too. -/
def everywhere (o : Observer) : Visitor o.error o.state :=
  o.visitor fun b => b.visit o.visitor

/-- Counts the placeholders among the types that it is shown. -/
abbrev counter : Observer :=
  ⟨Empty, Nat, fun t n => if t.isErased then n + 1 else n⟩

end Observer

/-- The number of placeholders that a visitor of the whole crate comes to. -/
def Crate.countErased (c : Crate) : Except (Fault Empty) Nat :=
  match c.visit Observer.counter.everywhere 0 with
  | (.ok _, n) => .ok n
  | (.error fault, _) => .error fault

end Unerase
