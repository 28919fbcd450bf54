import Unerase.Ty.Match

/-!
The test whether a pattern could stand for a concrete type: the two have the
same shape, and a parameter that occurs several times lines up with equal parts.
-/

namespace Unerase

/-- What parameters have lined up with so far. -/
structure Fit where
  types : List (Param × Ty)
  consts : List (Param × Const)

namespace Fit

/-- No parameter has lined up with anything. -/
def empty : Fit := ⟨[], []⟩

/-- Lines up a parameter with a type. It is refused if the parameter has lined up
with another type before. -/
def bindType (p : Param) (t : Ty) : Run Unit Fit Unit :=
  fun fit =>
    match fit.types.lookup p with
    | some bound => (if bound = t then .ok () else .error (), fit)
    | none => (.ok (), { fit with types := fit.types ++ [(p, t)] })

/-- Lines up a parameter with a constant. It is refused if the parameter has
lined up with another constant before. -/
def bindConst (p : Param) (c : Const) : Run Unit Fit Unit :=
  fun fit =>
    match fit.consts.lookup p with
    | some bound => (if bound = c then .ok () else .error (), fit)
    | none => (.ok (), { fit with consts := fit.consts ++ [(p, c)] })

/-- The matcher that accepts bindings as long as they agree with each other. -/
def matcher : Matcher Unit Fit where
  bindType := bindType
  bindConst := bindConst
  clash _ _ fit := ((), fit)

end Fit

/-- An impl block with the self type `pattern` may apply to `concrete`. -/
def Ty.fits (pattern concrete : Ty) : Bool :=
  match (pattern.matchWith Fit.matcher concrete Fit.empty).1 with
  | .ok () => true
  | .error () => false

end Unerase
