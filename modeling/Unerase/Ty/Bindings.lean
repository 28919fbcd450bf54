import Unerase.Ty.Match

namespace Unerase

/-- A parameter of a pattern together with what it lines up with. -/
inductive Binding where
  | type (p : Param) (t : Ty)
  | const (p : Param) (c : Const)
deriving DecidableEq

/-- Why a recorded match does not succeed. -/
inductive MatchFailure where
  | refused
  | clash (pattern concrete : Ty)
deriving DecidableEq

/-- Adds a binding to the record, and refuses it afterwards if it is the binding
with the given number, counted from one. -/
def Binding.record (refused? : Option Nat) (b : Binding) :
    Run MatchFailure (List Binding) Unit :=
  fun found =>
    (if refused? = some (found.length + 1) then .error .refused else .ok (),
      found ++ [b])

/-- The matcher that records all bindings and accepts them, except for one at most. -/
def Matcher.recording (refused? : Option Nat) :
    Matcher MatchFailure (List Binding) where
  bindType p t := (Binding.type p t).record refused?
  bindConst p c := (Binding.const p c).record refused?
  clash pattern concrete found := (.clash pattern concrete, found)

/-- The bindings of a match up to its end, and why it fails if it does. -/
def Ty.bindings (pattern concrete : Ty) (refused? : Option Nat) :
    List Binding × Option MatchFailure :=
  match pattern.matchWith (.recording refused?) concrete [] with
  | (.ok (), found) => (found, none)
  | (.error failure, found) => (found, some failure)

end Unerase
