import Unerase.Ty.Match

/-!
What a match finds, for whatever matcher. The findings are listed in the order of the
walk (`Ty.findings`). A matcher is given one after the other until it answers one with
an error (`Ty.matchWith_eq_replay`); a disagreement always is such an answer, so that
findings behind the first disagreement are never looked at.
-/

namespace Unerase

/-- What a match can find at one place: a parameter of the pattern with what it lines up with,
or a disagreement. -/
inductive Finding where
  | type (p : Param) (t : Ty)
  | const (p : Param) (c : Const)
  | clash (pattern concrete : Ty)

/-- A disagreement between constants is reported as `clash`, at the types that have them. -/
def Const.findings (clash : Finding) : Const → Const → List Finding
  | .param p, concrete => [.const p concrete]
  | .lit a, concrete => if concrete = .lit a then [] else [clash]

def Const.findingsOfList (clash : Finding) : List Const → List Const → List Finding
  | a :: as, b :: bs => a.findings clash b ++ Const.findingsOfList clash as bs
  | _, _ => []

mutual

/-- What a matcher is told when the pattern is matched against the concrete type. -/
def Ty.findings : Ty → Ty → List Finding
  | .param p, concrete => [.type p concrete]
  | .never, concrete =>
      match concrete with
      | .never => []
      | _ => [.clash .never concrete]
  | .prim a, concrete =>
      if concrete = .prim a then [] else [.clash (.prim a) concrete]
  | .path a, concrete =>
      match concrete with
      | .path b => a.findings (.clash (.path a) concrete) b
      | _ => [.clash (.path a) concrete]
  | .dyn trait markers, concrete =>
      let clash := .clash (.dyn trait markers) concrete
      match concrete with
      | .dyn trait' markers' =>
          if markers.length = markers'.length then
            trait.findings clash trait' ++
              ItemRef.findingsOfList clash markers markers'
          else [clash]
      | _ => [clash]
  | .erased origin index bounds, concrete =>
      let clash := .clash (.erased origin index bounds) concrete
      match concrete with
      | .erased origin' index' _ =>
          if index = index' then origin.findings clash origin' else [clash]
      | _ => [clash]
  | .array elem size, concrete =>
      match concrete with
      | .array elem' size' =>
          elem.findings elem' ++ size.findings (.clash (.array elem size) concrete) size'
      | _ => [.clash (.array elem size) concrete]
  | .slice elem, concrete =>
      match concrete with
      | .slice elem' => elem.findings elem'
      | _ => [.clash (.slice elem) concrete]
  | .tuple elems, concrete =>
      let clash := .clash (.tuple elems) concrete
      match concrete with
      | .tuple elems' =>
          if elems.length = elems'.length then Ty.findingsOfList elems elems'
          else [clash]
      | _ => [clash]
  | .ref kind target, concrete =>
      let clash := .clash (.ref kind target) concrete
      match concrete with
      | .ref kind' target' =>
          if kind = kind' then target.findings target' else [clash]
      | _ => [clash]
  | .ptr mutable target, concrete =>
      let clash := .clash (.ptr mutable target) concrete
      match concrete with
      | .ptr mutable' target' =>
          if mutable = mutable' then target.findings target' else [clash]
      | _ => [clash]
  | .fn args result, concrete =>
      let clash := .clash (.fn args result) concrete
      match concrete with
      | .fn args' result' =>
          if args.length = args'.length then
            Ty.findingsOfList args args' ++ result.findings result'
          else [clash]
      | _ => [clash]
termination_by structural pattern => pattern

/-- What is found in two paths. A disagreement of the paths themselves is reported as
`clash`. -/
def Path.findings (clash : Finding) : Path → Path → List Finding
  | .item target, concrete =>
      match concrete with
      | .item target' => target.findings clash target'
      | _ => [clash]
  | .inherent self name args, concrete =>
      match concrete with
      | .inherent self' name' args' =>
          if name = name' then self.findings self' ++ args.findings clash args'
          else [clash]
      | _ => [clash]
  | .known self trait name args, concrete =>
      match concrete with
      | .known self' trait' name' args' =>
          if name = name' then
            self.findings self' ++ trait.findings clash trait' ++
              args.findings clash args'
          else [clash]
      | _ => [clash]
  | .unknown self name args, concrete =>
      match concrete with
      | .unknown self' name' args' =>
          if name = name' then self.findings self' ++ args.findings clash args'
          else [clash]
      | _ => [clash]
termination_by structural pattern => pattern

def ItemRef.findings (clash : Finding) : ItemRef → ItemRef → List Finding
  | ⟨name, args⟩, ⟨name', args'⟩ =>
      if name = name' then args.findings clash args' else [clash]
termination_by structural pattern => pattern

def Args.findings (clash : Finding) : Args → Args → List Finding
  | ⟨types, consts⟩, ⟨types', consts'⟩ =>
      if types.length = types'.length ∧ consts.length = consts'.length then
        Ty.findingsOfList types types' ++ Const.findingsOfList clash consts consts'
      else [clash]
termination_by structural pattern => pattern

def Ty.findingsOfList : List Ty → List Ty → List Finding
  | [], _ => []
  | t :: ts, concretes =>
      match concretes with
      | [] => []
      | u :: us => t.findings u ++ Ty.findingsOfList ts us
termination_by structural patterns => patterns

def ItemRef.findingsOfList (clash : Finding) :
    List ItemRef → List ItemRef → List Finding
  | [], _ => []
  | r :: rs, concretes =>
      match concretes with
      | [] => []
      | s :: ss => r.findings clash s ++ ItemRef.findingsOfList clash rs ss
termination_by structural patterns => patterns

end

namespace Matcher

variable {ε σ : Type} (m : Matcher ε σ)

/-- What a matcher does with one finding. -/
def answer : Finding → Run ε σ Unit
  | .type p t => m.bindType p t
  | .const p c => m.bindConst p c
  | .clash pattern concrete => m.reject pattern concrete

/-- What a matcher does with one finding after the other. -/
def replay : List Finding → Run ε σ Unit
  | [] => pure ()
  | f :: fs => do
      m.answer f
      replay fs

@[simp] theorem replay_nil : m.replay [] = pure () := rfl

@[simp] theorem replay_singleton (f : Finding) : m.replay [f] = m.answer f :=
  bind_pure _

@[simp] theorem replay_append (fs gs : List Finding) :
    m.replay (fs ++ gs) = m.replay fs >>= fun _ => m.replay gs := by
  induction fs with
  | nil => simp
  | cons f fs ih => simp [replay, ih]

end Matcher

section Replay

variable {ε σ : Type} (m : Matcher ε σ)

theorem Const.matchWith_eq_replay (clash : Finding) (a b : Const) :
    a.matchWith m (m.answer clash) b = m.replay (a.findings clash b) := by
  cases a with
  | lit => simp only [Const.matchWith, Const.findings]; split <;> simp
  | param => simp [Const.matchWith, Const.findings, Matcher.answer]

theorem Const.matchList_eq_replay (clash : Finding) : ∀ as bs : List Const,
    Const.matchList m (m.answer clash) as bs =
      m.replay (Const.findingsOfList clash as bs)
  | [], _ => by simp [Const.matchList, Const.findingsOfList]
  | _ :: _, [] => by simp [Const.matchList, Const.findingsOfList]
  | a :: as, b :: bs => by
      simp [Const.matchList, Const.findingsOfList, Const.matchWith_eq_replay,
        Const.matchList_eq_replay clash as bs]

mutual

/-- A match gives the findings to the matcher and does nothing else. -/
theorem Ty.matchWith_eq_replay : ∀ t u : Ty,
    t.matchWith m u = m.replay (t.findings u)
  | .param p, u => by simp [Ty.matchWith, Ty.findings, Matcher.answer]
  | .never, u => by cases u <;> simp [Ty.matchWith, Ty.findings, Matcher.answer]
  | .prim a, u => by
      simp only [Ty.matchWith, Ty.findings]
      split <;> simp [Matcher.answer]
  | .path a, u => by
      cases u with
      | path b => exact Path.matchWith_eq_replay (.clash (.path a) (.path b)) a b
      | _ => simp [Ty.matchWith, Ty.findings, Matcher.answer]
  | .dyn trait markers, u => by
      cases u with
      | dyn trait' markers' =>
          simp only [Ty.matchWith, Ty.findings]
          split
          · simp [← ItemRef.matchWith_eq_replay, ← ItemRef.matchList_eq_replay,
              Matcher.answer]
          · simp [Matcher.answer]
      | _ => simp [Ty.matchWith, Ty.findings, Matcher.answer]
  | .erased origin index bounds, u => by
      cases u with
      | erased origin' index' bounds' =>
          simp only [Ty.matchWith, Ty.findings]
          split
          · simp [← Path.matchWith_eq_replay, Matcher.answer]
          · simp [Matcher.answer]
      | _ => simp [Ty.matchWith, Ty.findings, Matcher.answer]
  | .array elem size, u => by
      cases u with
      | array elem' size' =>
          simp [Ty.matchWith, Ty.findings, Ty.matchWith_eq_replay elem elem',
            ← Const.matchWith_eq_replay, Matcher.answer]
      | _ => simp [Ty.matchWith, Ty.findings, Matcher.answer]
  | .slice elem, u => by
      cases u with
      | slice elem' => exact Ty.matchWith_eq_replay elem elem'
      | _ => simp [Ty.matchWith, Ty.findings, Matcher.answer]
  | .tuple elems, u => by
      cases u with
      | tuple elems' =>
          simp only [Ty.matchWith, Ty.findings]
          split
          · exact Ty.matchList_eq_replay elems elems'
          · simp [Matcher.answer]
      | _ => simp [Ty.matchWith, Ty.findings, Matcher.answer]
  | .ref kind target, u => by
      cases u with
      | ref kind' target' =>
          simp only [Ty.matchWith, Ty.findings]
          split
          · exact Ty.matchWith_eq_replay target target'
          · simp [Matcher.answer]
      | _ => simp [Ty.matchWith, Ty.findings, Matcher.answer]
  | .ptr mutable target, u => by
      cases u with
      | ptr mutable' target' =>
          simp only [Ty.matchWith, Ty.findings]
          split
          · exact Ty.matchWith_eq_replay target target'
          · simp [Matcher.answer]
      | _ => simp [Ty.matchWith, Ty.findings, Matcher.answer]
  | .fn args result, u => by
      cases u with
      | fn args' result' =>
          simp only [Ty.matchWith, Ty.findings]
          split
          · simp [Ty.matchList_eq_replay args args', Ty.matchWith_eq_replay result result']
          · simp [Matcher.answer]
      | _ => simp [Ty.matchWith, Ty.findings, Matcher.answer]
termination_by structural t => t

theorem Path.matchWith_eq_replay (clash : Finding) : ∀ p q : Path,
    p.matchWith m (m.answer clash) q = m.replay (p.findings clash q)
  | .item target, q => by
      cases q with
      | item target' => exact ItemRef.matchWith_eq_replay clash target target'
      | _ => simp [Path.matchWith, Path.findings]
  | .inherent self name args, q => by
      cases q with
      | inherent self' name' args' =>
          simp only [Path.matchWith, Path.findings]
          split
          · simp [Ty.matchWith_eq_replay self self', Args.matchWith_eq_replay clash args]
          · simp
      | _ => simp [Path.matchWith, Path.findings]
  | .known self trait name args, q => by
      cases q with
      | known self' trait' name' args' =>
          simp only [Path.matchWith, Path.findings]
          split
          · simp [Ty.matchWith_eq_replay self self',
              ItemRef.matchWith_eq_replay clash trait, Args.matchWith_eq_replay clash args]
          · simp
      | _ => simp [Path.matchWith, Path.findings]
  | .unknown self name args, q => by
      cases q with
      | unknown self' name' args' =>
          simp only [Path.matchWith, Path.findings]
          split
          · simp [Ty.matchWith_eq_replay self self', Args.matchWith_eq_replay clash args]
          · simp
      | _ => simp [Path.matchWith, Path.findings]
termination_by structural p => p

theorem ItemRef.matchWith_eq_replay (clash : Finding) : ∀ r s : ItemRef,
    r.matchWith m (m.answer clash) s = m.replay (r.findings clash s)
  | ⟨name, args⟩, ⟨name', args'⟩ => by
      simp only [ItemRef.matchWith, ItemRef.findings]
      split
      · exact Args.matchWith_eq_replay clash args args'
      · simp
termination_by structural r => r

theorem Args.matchWith_eq_replay (clash : Finding) : ∀ a b : Args,
    a.matchWith m (m.answer clash) b = m.replay (a.findings clash b)
  | ⟨types, consts⟩, ⟨types', consts'⟩ => by
      simp only [Args.matchWith, Args.findings]
      split
      · simp [Ty.matchList_eq_replay types types', Const.matchList_eq_replay]
      · simp
termination_by structural a => a

theorem Ty.matchList_eq_replay : ∀ ts us : List Ty,
    Ty.matchList m ts us = m.replay (Ty.findingsOfList ts us)
  | [], _ => by simp [Ty.matchList, Ty.findingsOfList]
  | _ :: _, [] => by simp [Ty.matchList, Ty.findingsOfList]
  | t :: ts, u :: us => by
      simp [Ty.matchList, Ty.findingsOfList, Ty.matchWith_eq_replay t u,
        Ty.matchList_eq_replay ts us]
termination_by structural ts => ts

theorem ItemRef.matchList_eq_replay (clash : Finding) : ∀ rs ss : List ItemRef,
    ItemRef.matchList m (m.answer clash) rs ss =
      m.replay (ItemRef.findingsOfList clash rs ss)
  | [], _ => by simp [ItemRef.matchList, ItemRef.findingsOfList]
  | _ :: _, [] => by simp [ItemRef.matchList, ItemRef.findingsOfList]
  | r :: rs, s :: ss => by
      simp [ItemRef.matchList, ItemRef.findingsOfList,
        ItemRef.matchWith_eq_replay clash r s, ItemRef.matchList_eq_replay clash rs ss]
termination_by structural rs => rs

end

end Replay

end Unerase
