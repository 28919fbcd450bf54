import Unerase.Expansion.Index
import Unerase.Visitor.Ty

/-!
Expansion of the placeholders in a type. The origin of a placeholder is expanded
first, because it may contain placeholders itself. Origin and position then name
a template, and what the template stands for is expanded in turn, so that chains
of placeholders collapse. The bounds of a placeholder play no part.

While a template is being expanded its key is active. Meeting an active key again
is an error, and so is an expansion for which there is no room: as many keys may
be active at a time as the depth limit says.
-/

namespace Unerase

/-- Settings of the expansion. -/
structure ExpansionOptions where
  /-- Expand each template key once and remember the outcome. -/
  memoize : Bool := true
  /-- How many expansions may be nested in each other. -/
  maxDepth : Nat := 64
deriving DecidableEq

/-- What is remembered during one pass over a crate. -/
structure PassState where
  /-- The keys being expanded, the innermost one first. -/
  active : List TemplateKey
  /-- Keys that have been expanded, with the outcome. -/
  cache : List (TemplateKey × Ty)
  /-- How many placeholders have been looked up. -/
  resolved : Nat
  /-- How many of them were found in the cache. -/
  hits : Nat

namespace PassState

/-- A pass begins with nothing active, remembered or counted. -/
def start : PassState := ⟨[], [], 0, 0⟩

def countResolved (s : PassState) : PassState :=
  { s with resolved := s.resolved + 1 }

def countHit (s : PassState) : PassState :=
  { s with hits := s.hits + 1 }

/-- Makes a key active. -/
def push (k : TemplateKey) (s : PassState) : PassState :=
  { s with active := k :: s.active }

/-- Takes away the key that has become active last. -/
def pop (s : PassState) : PassState :=
  { s with active := s.active.tail }

/-- Puts the outcome of a key into the cache. The latest entry for a key is the one that
counts. -/
def remember (k : TemplateKey) (t : Ty) (s : PassState) : PassState :=
  { s with cache := (k, t) :: s.cache }

end PassState

/-- Computations of a pass. -/
abbrev Expand := Run (Fault ExpansionError) PassState

namespace Expand

/-- Expands what a key stands for by `descend`, with the key active meanwhile. -/
def bracket (options : ExpansionOptions) (descend : Ty → Expand Ty)
    (k : TemplateKey) (t : Ty) : Expand Ty := do
  .update (PassState.push k)
  let outcome ← (descend t).attempt
  .update PassState.pop
  match outcome with
  | .ok expanded =>
      if options.memoize then .update (PassState.remember k expanded)
      pure expanded
  | .error fault => .stop fault

/-- Expands a key that is not in the cache. There is no room for it if `descend?`
is absent. -/
def freshKey (index : Index) (options : ExpansionOptions)
    (descend? : Option (Ty → Expand Ty)) (k : TemplateKey) : Expand Ty := do
  let s ← .state
  if k ∈ s.active then .stop (.error (.cycle k))
  else
    match descend? with
    | none => .stop (.error (.tooDeep k options.maxDepth))
    | some descend => do
        let t ← .ofExcept (index.unfold k)
        bracket options descend k t

/-- Counts a placeholder with the key and expands it, or takes the outcome from the cache. -/
def key (index : Index) (options : ExpansionOptions)
    (descend? : Option (Ty → Expand Ty)) (k : TemplateKey) : Expand Ty := do
  .update PassState.countResolved
  let s ← .state
  match s.cache.lookup k with
  | some t => do
      .update PassState.countHit
      pure t
  | none => freshKey index options descend? k

/-- The visitor that expands types, given how to expand what a key stands for. A
type without placeholders is left alone. -/
def visitor (index : Index) (options : ExpansionOptions)
    (descend? : Option (Ty → Expand Ty)) : Visitor ExpansionError PassState where
  type t := pure (if t.hasErased then none else some t)
  placeholder i origin _ := do
    let origin ← origin
    key index options descend? ⟨origin, i⟩

/-- Expands a type where there is room for so many nested expansions. -/
def typeWithin (index : Index) (options : ExpansionOptions) :
    (room : Nat) → Ty → Expand Ty
  | 0, t => t.visit (visitor index options none)
  | room + 1, t =>
      t.visit (visitor index options (some (typeWithin index options room)))

/-- The visitor that expands types where there is room for so many nested
expansions. -/
def visitorWithin (index : Index) (options : ExpansionOptions) :
    (room : Nat) → Visitor ExpansionError PassState
  | 0 => visitor index options none
  | room + 1 => visitor index options (some (typeWithin index options room))

theorem typeWithin_eq_visit (index : Index) (options : ExpansionOptions)
    (room : Nat) (t : Ty) :
    typeWithin index options room t = t.visit (visitorWithin index options room) := by
  cases room <;> rfl

/-- The visitor that expands types in a pass. No key is active at its start, so all
the room that the depth limit allows is left. -/
def passVisitor (index : Index) (options : ExpansionOptions) :
    Visitor ExpansionError PassState :=
  visitorWithin index options options.maxDepth

end Expand

end Unerase
