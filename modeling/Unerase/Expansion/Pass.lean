import Unerase.Expansion.Expand
import Unerase.Visitor.Body
import Unerase.Visitor.Crate

/-!
Expansion of all placeholders in a crate, in two passes. The first expands the
types in bodies and leaves signatures alone. The second expands the types in
signatures and leaves bodies alone; it looks templates up in the bodies as the
first has left them.
-/

namespace Unerase

/-- How many placeholders the two passes have replaced. -/
structure ExpansionTally where
  inBodies : Nat
  inSignatures : Nat
  /-- How many of all lookups were answered by a cache. -/
  fromCache : Nat
deriving DecidableEq

def ExpansionTally.total (t : ExpansionTally) : Nat :=
  t.inBodies + t.inSignatures

/-- The parts of a crate that a pass works on. -/
inductive Scope where
  | bodies | signatures

/-- The visitor that works on the types in one part of a crate and leaves the other
part alone. -/
def Scope.restrict {ε σ : Type} : Scope → Visitor ε σ → Visitor ε σ
  | bodies, v => { type := fun t => pure (some t), body := fun b => b.visit v }
  | signatures, v => v

namespace Expansion

/-- Makes a pass over a part of a crate, by a visitor for the types. It is given an
index of the crate as it is before the pass. -/
def passBy (visitor : Index → ExpansionOptions → Visitor ExpansionError PassState)
    (scope : Scope) (options : ExpansionOptions) (c : Crate) :
    Except (Fault ExpansionError) (Crate × PassState) :=
  match c.visit (scope.restrict (visitor (Index.ofCrate c) options)) PassState.start with
  | (.ok c, s) => .ok (c, s)
  | (.error fault, _) => .error fault

/-- Expands the placeholders in a part of a crate. -/
def pass (scope : Scope) (options : ExpansionOptions) (c : Crate) :
    Except (Fault ExpansionError) (Crate × PassState) :=
  passBy Expand.passVisitor scope options c

end Expansion

namespace Crate

/-- Makes the two passes by a visitor for the types. -/
def expandBy (visitor : Index → ExpansionOptions → Visitor ExpansionError PassState)
    (options : ExpansionOptions) (c : Crate) :
    Except (Fault ExpansionError) (Crate × ExpansionTally) := do
  let (c, first) ← Expansion.passBy visitor .bodies options c
  let (c, second) ← Expansion.passBy visitor .signatures options c
  .ok (c, {
    inBodies := first.resolved
    inSignatures := second.resolved
    fromCache := first.hits + second.hits })

/-- Replaces every placeholder in a crate by the type that it stands for. -/
def expand (options : ExpansionOptions) (c : Crate) :
    Except (Fault ExpansionError) (Crate × ExpansionTally) :=
  c.expandBy Expand.passVisitor options

/-- Expands a crate with each of the options in a row, and lists the tallies. -/
def expandEach : List ExpansionOptions → Crate →
    Except (Fault ExpansionError) (Crate × List ExpansionTally)
  | [], c => .ok (c, [])
  | options :: later, c => do
      let (c, tally) ← c.expand options
      let (c, tallies) ← c.expandEach later
      .ok (c, tally :: tallies)

/-- Expands a crate again and again with the same options. -/
def expandTimes (options : ExpansionOptions) (times : Nat) (c : Crate) :
    Except (Fault ExpansionError) (Crate × List ExpansionTally) :=
  c.expandEach (List.replicate times options)

end Crate

end Unerase
