import Unerase.Run
import Unerase.Ty.Equality

/-!
Matching a pattern type against a concrete type. The walk goes through both
types at once. It decides only whether the two agree in shape; what it means
that a parameter of the pattern lines up with a part of the concrete type is for
a `Matcher` to say, and so is what to answer where the shapes disagree.

A disagreement inside a path, an argument list or a constant is reported at the
types that enclose it. Placeholders agree if their positions are equal and their
origins agree; their bounds are not looked at.
-/

namespace Unerase

/-- What to do with the findings of a match. Binding may refuse, which ends the
match. -/
structure Matcher (ε σ : Type) where
  /-- A parameter of the pattern lines up with a type. -/
  bindType : Param → Ty → Run ε σ Unit
  /-- A parameter of the pattern lines up with a constant. -/
  bindConst : Param → Const → Run ε σ Unit
  /-- The error for a pattern and a type that disagree. -/
  clash : Ty → Ty → σ → ε × σ

namespace Matcher

variable {ε σ : Type}

/-- Ends the match at two types that disagree. -/
def reject (m : Matcher ε σ) (pattern concrete : Ty) : Run ε σ Unit :=
  fun s =>
    match m.clash pattern concrete s with
    | (e, s') => (.error e, s')

end Matcher

/-- Matches a constant. A parameter is bound, and a literal agrees with itself
alone. -/
def Const.matchWith {ε σ : Type} (m : Matcher ε σ) (clash : Run ε σ Unit) :
    Const → Const → Run ε σ Unit
  | .param p, concrete => m.bindConst p concrete
  | .lit a, concrete => if concrete = .lit a then pure () else clash

def Const.matchList {ε σ : Type} (m : Matcher ε σ) (clash : Run ε σ Unit) :
    List Const → List Const → Run ε σ Unit
  | a :: as, b :: bs => do
      a.matchWith m clash b
      Const.matchList m clash as bs
  | _, _ => pure ()

mutual

variable {ε σ : Type} (m : Matcher ε σ)

/-- Matches a type. Only a parameter agrees with every type. -/
def Ty.matchWith : Ty → Ty → Run ε σ Unit
  | .param p, concrete => m.bindType p concrete
  | .never, concrete =>
      match concrete with
      | .never => pure ()
      | _ => m.reject .never concrete
  | .prim a, concrete =>
      if concrete = .prim a then pure () else m.reject (.prim a) concrete
  | .path a, concrete =>
      match concrete with
      | .path b => a.matchWith (m.reject (.path a) concrete) b
      | _ => m.reject (.path a) concrete
  | .dyn trait markers, concrete =>
      let clash := m.reject (.dyn trait markers) concrete
      match concrete with
      | .dyn trait' markers' =>
          if markers.length = markers'.length then do
            trait.matchWith clash trait'
            ItemRef.matchList clash markers markers'
          else clash
      | _ => clash
  | .erased origin index bounds, concrete =>
      let clash := m.reject (.erased origin index bounds) concrete
      match concrete with
      | .erased origin' index' _ =>
          if index = index' then origin.matchWith clash origin' else clash
      | _ => clash
  | .array elem size, concrete =>
      match concrete with
      | .array elem' size' => do
          elem.matchWith elem'
          size.matchWith m (m.reject (.array elem size) concrete) size'
      | _ => m.reject (.array elem size) concrete
  | .slice elem, concrete =>
      match concrete with
      | .slice elem' => elem.matchWith elem'
      | _ => m.reject (.slice elem) concrete
  | .tuple elems, concrete =>
      let clash := m.reject (.tuple elems) concrete
      match concrete with
      | .tuple elems' =>
          if elems.length = elems'.length then Ty.matchList elems elems'
          else clash
      | _ => clash
  | .ref kind target, concrete =>
      let clash := m.reject (.ref kind target) concrete
      match concrete with
      | .ref kind' target' =>
          if kind = kind' then target.matchWith target' else clash
      | _ => clash
  | .ptr mutable target, concrete =>
      let clash := m.reject (.ptr mutable target) concrete
      match concrete with
      | .ptr mutable' target' =>
          if mutable = mutable' then target.matchWith target' else clash
      | _ => clash
  | .fn args result, concrete =>
      let clash := m.reject (.fn args result) concrete
      match concrete with
      | .fn args' result' =>
          if args.length = args'.length then do
            Ty.matchList args args'
            result.matchWith result'
          else clash
      | _ => clash
termination_by structural pattern => pattern

/-- Matches paths of the same kind and the same member name. -/
def Path.matchWith (clash : Run ε σ Unit) : Path → Path → Run ε σ Unit
  | .item target, concrete =>
      match concrete with
      | .item target' => target.matchWith clash target'
      | _ => clash
  | .inherent self name args, concrete =>
      match concrete with
      | .inherent self' name' args' =>
          if name = name' then do
            self.matchWith self'
            args.matchWith clash args'
          else clash
      | _ => clash
  | .known self trait name args, concrete =>
      match concrete with
      | .known self' trait' name' args' =>
          if name = name' then do
            self.matchWith self'
            trait.matchWith clash trait'
            args.matchWith clash args'
          else clash
      | _ => clash
  | .unknown self name args, concrete =>
      match concrete with
      | .unknown self' name' args' =>
          if name = name' then do
            self.matchWith self'
            args.matchWith clash args'
          else clash
      | _ => clash
termination_by structural pattern => pattern

/-- Matches references to the same item. -/
def ItemRef.matchWith (clash : Run ε σ Unit) : ItemRef → ItemRef → Run ε σ Unit
  | ⟨name, args⟩, ⟨name', args'⟩ =>
      if name = name' then args.matchWith clash args' else clash
termination_by structural pattern => pattern

/-- Matches argument lists of the same lengths, types before constants. -/
def Args.matchWith (clash : Run ε σ Unit) : Args → Args → Run ε σ Unit
  | ⟨types, consts⟩, ⟨types', consts'⟩ =>
      if types.length = types'.length ∧ consts.length = consts'.length then do
        Ty.matchList types types'
        Const.matchList m clash consts consts'
      else clash
termination_by structural pattern => pattern

/-- Matches types one after the other. -/
def Ty.matchList : List Ty → List Ty → Run ε σ Unit
  | [], _ => pure ()
  | t :: ts, concretes =>
      match concretes with
      | [] => pure ()
      | u :: us => do
          t.matchWith u
          Ty.matchList ts us
termination_by structural patterns => patterns

def ItemRef.matchList (clash : Run ε σ Unit) :
    List ItemRef → List ItemRef → Run ε σ Unit
  | [], _ => pure ()
  | r :: rs, concretes =>
      match concretes with
      | [] => pure ()
      | s :: ss => do
          r.matchWith clash s
          ItemRef.matchList clash rs ss
termination_by structural patterns => patterns

end

end Unerase
