import Unerase.Proofs.Expansion.Pass

/-!
A pass under watch. The watched functions make the steps of a pass one by one, with the checks
at the moment at which a key is to become active, and write down the state after each step, when
they come to a type, when they count a placeholder, and when they unfold a key. Whatever is kept
by the single steps (`Watch.Account`) is kept by the expansion of a type and by a pass over a
crate, and these differ under watch in nothing but the record, as long as the active keys leave
the room that the pass assumes (`Watch.Account.typeWithin_viewed`, `Watch.Account.pass_viewed`).
-/

namespace Unerase

/-- What can be seen of a pass while it is made. -/
inductive Event where
  /-- The pass comes to a type, in the given state. -/
  | enter (t : Ty) (s : PassState)
  /-- A step has led to the given state. -/
  | step (s : PassState)
  /-- A placeholder is counted. Its origin has been expanded before. -/
  | lookUp (k : TemplateKey)
  /-- The template with the key is looked for and instantiated. -/
  | unfold (k : TemplateKey)

namespace Event

def entered? : Event → Option PassState
  | enter _ s => some s
  | step _ | lookUp _ | unfold _ => none

def state? : Event → Option PassState
  | enter _ s | step s => some s
  | lookUp _ | unfold _ => none

def lookedUp? : Event → Option TemplateKey
  | lookUp k => some k
  | enter .. | step _ | unfold _ => none

def unfolded? : Event → Option TemplateKey
  | unfold k => some k
  | enter .. | step _ | lookUp _ => none

/-- The states in which the pass has come to a type. -/
def entered (events : List Event) : List PassState :=
  events.filterMap entered?

/-- All states that the pass has been in. -/
def states (events : List Event) : List PassState :=
  events.filterMap state?

/-- The keys of the placeholders that have been counted. -/
def lookedUp (events : List Event) : List TemplateKey :=
  events.filterMap lookedUp?

/-- The keys that have been unfolded. -/
def unfolded (events : List Event) : List TemplateKey :=
  events.filterMap unfolded?

end Event

/-- The state of a pass and what has been seen so far. -/
structure Watch where
  pass : PassState
  /-- The latest event first. -/
  events : List Event

/-- A part of a pass, made under watch. -/
abbrev Watched := Run (Fault ExpansionError) Watch

namespace Watch

def start : Watch := ⟨.start, []⟩

/-- Writes down an event. -/
def note (event : Event) (w : Watch) : Watch :=
  { w with events := event :: w.events }

/-- Goes on to another state and writes it down. -/
def step (f : PassState → PassState) (w : Watch) : Watch :=
  ⟨f w.pass, .step (f w.pass) :: w.events⟩

/-- Writes down that the pass has come to a type, and in which state. -/
def enter (t : Ty) (w : Watch) : Watch :=
  w.note (.enter t w.pass)

/-- Counts a placeholder with the key. -/
def lookUp (k : TemplateKey) (w : Watch) : Watch :=
  (w.step .countResolved).note (.lookUp k)

/-- Takes the latest of the active keys away, and remembers what it has been expanded to. -/
def leave (options : ExpansionOptions) (k : TemplateKey) : Option Ty → Watch → Watch
  | some u, w => if options.memoize then (w.step .pop).step (.remember k u) else w.step .pop
  | none, w => w.step .pop

/-! ### The steps of a pass -/

/-- Unfolds a key and makes it active, unless it is active already, or as many keys are active
as the depth limit allows. -/
def activate (index : Index) (options : ExpansionOptions) (k : TemplateKey) : Watched Ty := do
  let w ← .state
  if k ∈ w.pass.active then .stop (.error (.cycle k))
  else if options.maxDepth ≤ w.pass.active.length then
    .stop (.error (.tooDeep k options.maxDepth))
  else
    .update (note (.unfold k))
    let t ← .ofExcept (index.unfold k)
    .update (step (.push k))
    pure t

/-- Expands a key that is not in the cache. -/
def freshKey (index : Index) (options : ExpansionOptions) (descend : Ty → Watched Ty)
    (k : TemplateKey) : Watched Ty := do
  let t ← activate index options k
  let outcome ← (descend t).attempt
  .update (leave options k outcome.toOption)
  .ofExcept outcome

/-- Counts a placeholder with the key and expands it, or takes the outcome from the cache. -/
def key (index : Index) (options : ExpansionOptions) (descend : Ty → Watched Ty)
    (k : TemplateKey) : Watched Ty := do
  .update (lookUp k)
  let w ← .state
  match w.pass.cache.lookup k with
  | some t => do
      .update (step .countHit)
      pure t
  | none => freshKey index options descend k

/-- A type without placeholders is come to as well, but not gone into. -/
def visitor (index : Index) (options : ExpansionOptions) (descend : Ty → Watched Ty) :
    Visitor ExpansionError Watch where
  type t := do
    .update (enter t)
    pure (if t.hasErased then none else some t)
  placeholder i origin _ := do
    let origin ← origin
    key index options descend ⟨origin, i⟩

/-- Expands a type. The number limits how far expansions may be nested in each other, apart
from what the active keys allow. -/
def typeWithin (index : Index) (options : ExpansionOptions) :
    (fuel : Nat) → Ty → Watched Ty
  | 0, t => t.visit (visitor index options fun _ => .stop .endless)
  | fuel + 1, t => t.visit (visitor index options (typeWithin index options fuel))

/-- The visitor that expands types so. -/
def visitorWithin (index : Index) (options : ExpansionOptions) :
    (fuel : Nat) → Visitor ExpansionError Watch
  | 0 => visitor index options fun _ => .stop .endless
  | fuel + 1 => visitor index options (typeWithin index options fuel)

/-- The visitor that expands types in a pass. At most as many expansions are nested in each
other as keys may be active. -/
def passVisitor (index : Index) (options : ExpansionOptions) :
    Visitor ExpansionError Watch :=
  visitorWithin index options options.maxDepth

section Steps

variable {index : Index} {options : ExpansionOptions} {descend : Ty → Watched Ty}
  {k : TemplateKey} {t u : Ty} {w : Watch}

theorem activate_apply :
    activate index options k w =
      if k ∈ w.pass.active then (.error (.error (.cycle k)), w)
      else if options.maxDepth ≤ w.pass.active.length then
        (.error (.error (.tooDeep k options.maxDepth)), w)
      else
        match index.unfold k with
        | .error fault => (.error fault, w.note (.unfold k))
        | .ok t => (.ok t, (w.note (.unfold k)).step (.push k)) := by
  simp only [activate, Run.bind_apply, Run.state]
  split
  · rfl
  · split
    · rfl
    · simp only [Run.bind_apply, Run.update, Run.ofExcept]
      cases index.unfold k <;> rfl

theorem freshKey_apply :
    freshKey index options descend k w =
      match activate index options k w with
      | (.error fault, w₁) => (.error fault, w₁)
      | (.ok t, w₁) =>
          match descend t w₁ with
          | (outcome, w₂) => (outcome, leave options k outcome.toOption w₂) := by
  simp only [freshKey, Run.bind_apply, Run.attempt]
  rcases activate index options k w with ⟨fault | t, w₁⟩ <;> rfl

theorem key_apply :
    key index options descend k w =
      match w.pass.cache.lookup k with
      | some u => (.ok u, (w.lookUp k).step .countHit)
      | none => freshKey index options descend k (w.lookUp k) := by
  simp only [key, Run.bind_apply, Run.update, Run.state]
  have hcache : (w.lookUp k).pass.cache = w.pass.cache := rfl
  rw [hcache]
  cases w.pass.cache.lookup k <;> rfl

theorem leave_pass : (leave options k (some u) w).pass = Expand.finish options k u w.pass := by
  rw [leave, Expand.finish]
  cases options.memoize <;> rfl

theorem leave_active {expanded? : Option Ty} :
    (leave options k expanded? w).pass.active = w.pass.active.tail := by
  cases expanded? with
  | none => rfl
  | some u => rw [leave_pass, Expand.finish_active]

theorem filterMap_leave {α : Type} {f : Event → Option α} (hf : ∀ s, f (.step s) = none)
    (expanded? : Option Ty) :
    (leave options k expanded? w).events.filterMap f = w.events.filterMap f := by
  cases expanded? with
  | none => simp [leave, step, hf]
  | some u => cases hmemoize : options.memoize <;> simp [leave, step, hmemoize, hf]

theorem entered_leave (expanded? : Option Ty) :
    Event.entered (leave options k expanded? w).events = Event.entered w.events :=
  filterMap_leave (fun _ => rfl) expanded?

theorem lookedUp_leave (expanded? : Option Ty) :
    Event.lookedUp (leave options k expanded? w).events = Event.lookedUp w.events :=
  filterMap_leave (fun _ => rfl) expanded?

theorem unfolded_leave (expanded? : Option Ty) :
    Event.unfolded (leave options k expanded? w).events = Event.unfolded w.events :=
  filterMap_leave (fun _ => rfl) expanded?

theorem typeWithin_eq_visit (index : Index) (options : ExpansionOptions)
    (fuel : Nat) (t : Ty) :
    typeWithin index options fuel t = t.visit (visitorWithin index options fuel) := by
  cases fuel <;> rfl

theorem passVisitor_forTypes (index : Index) (options : ExpansionOptions) :
    (passVisitor index options).ForTypes := by
  obtain ⟨memoize, maxDepth⟩ := options
  cases maxDepth <;> exact ⟨fun _ => rfl, fun _ => rfl, rfl⟩

end Steps

/-- What is kept by every step of a pass. A step that fails need not keep it, but the events
show as much as is asked of them in any case. -/
structure Account (options : ExpansionOptions) where
  /-- What is known between the steps. -/
  Keeps : Watch → Prop
  /-- What is known of the events, even after a fault. -/
  Shows : List Event → Prop
  shows {w : Watch} : Keeps w → Shows w.events
  enter {w : Watch} (t : Ty) : Keeps w → Keeps (w.enter t)
  hit {w : Watch} {k : TemplateKey} {u : Ty} : Keeps w → w.pass.cache.lookup k = some u →
    Keeps ((w.lookUp k).step .countHit)
  refuse {w : Watch} (k : TemplateKey) : Keeps w → Shows (w.lookUp k).events
  unfold {w : Watch} {k : TemplateKey} : Keeps w → w.pass.cache.lookup k = none →
    k ∉ w.pass.active → Shows ((w.lookUp k).note (.unfold k)).events
  push {w : Watch} {k : TemplateKey} : Keeps w → w.pass.cache.lookup k = none →
    k ∉ w.pass.active → w.pass.active.length < options.maxDepth →
    Keeps (((w.lookUp k).note (.unfold k)).step (.push k))
  /-- A key is left after its expansion. The first state is the one in which it was met. -/
  leave {w w₁ : Watch} {k : TemplateKey} (u : Ty) : Keeps w → Keeps w₁ →
    w₁.pass.active = k :: w.pass.active → Keeps (w₁.leave options k (some u))
  /-- A key is left after a fault in its expansion. -/
  fail {w w₁ : Watch} {k : TemplateKey} : Keeps w → Shows w₁.events →
    w₁.pass.active = k :: w.pass.active → Shows (w₁.step .pop).events

namespace Account

variable {options : ExpansionOptions} (A : Account options) {index : Index}
  {active : List TemplateKey}

/-- The account is kept while the given keys are active. -/
def Open (active : List TemplateKey) (w : Watch) : Prop :=
  w.pass.active = active ∧ A.Keeps w

/-- A fault has occurred, and the given keys are active as they were before. -/
def Failed (active : List TemplateKey) (w : Watch) : Prop :=
  w.pass.active = active ∧ A.Shows w.events

variable {A} in
theorem Open.failed {w : Watch} (h : A.Open active w) : A.Failed active w :=
  ⟨h.1, A.shows h.2⟩

/-- The two sides have come to the same end, and the second one has kept the account. -/
abbrev Ends (active : List TemplateKey) :
    Except (Fault ExpansionError) Ty × PassState →
      Except (Fault ExpansionError) Ty × Watch → Prop :=
  Run.ViewedEnd Watch.pass (A.Open active) (A.Failed active) Eq

/-- Both sides do the same, and the second one keeps the account. -/
abbrev comparison (active : List TemplateKey) :
    Run.Comparison (Fault ExpansionError) PassState (Fault ExpansionError) Watch Unit :=
  Run.viewing (Fault ExpansionError) Unit Watch.pass (A.Open active) (A.Failed active)

/-- There is no room for another key exactly if as many keys are active as the depth limit
allows. If there is room, then what a key stands for is expanded in the same way on both sides
with the key active meanwhile. -/
def Descends (active : List TemplateKey) (descend? : Option (Ty → Expand Ty))
    (descend' : Ty → Watched Ty) : Prop :=
  match descend? with
  | none => options.maxDepth ≤ active.length
  | some descend => active.length < options.maxDepth ∧ ∀ k t,
      (A.comparison (k :: active)).Holds Eq (descend t) fun _ => descend' t

variable {A}

theorem bracket_viewed {descend : Ty → Expand Ty} {descend' : Ty → Watched Ty} {k : TemplateKey}
    (hdescend : ∀ t, (A.comparison (k :: active)).Holds Eq (descend t) fun _ => descend' t)
    {w x : Watch} (hactive : w.pass.active = active) (hkeeps : A.Keeps w)
    (hpush : A.Open (k :: active) (x.step (.push k))) (t : Ty) :
    A.Ends active (Expand.bracket options descend k t x.pass)
      (match descend' t (x.step (.push k)) with
        | (outcome, w₂) => (outcome, w₂.leave options k outcome.toOption)) := by
  have hviewed : A.Ends (k :: active) (descend t (x.pass.push k))
      (descend' t (x.step (.push k))) := hdescend t () _ hpush
  rw [Expand.bracket_apply]
  generalize descend t (x.pass.push k) = outcome at hviewed ⊢
  generalize descend' t (x.step (.push k)) = outcome' at hviewed ⊢
  cases hviewed with
  | @ok u _ w₂ hu hw₂ =>
      obtain ⟨hactive₂, hkeeps₂⟩ := hw₂
      cases hu
      show A.Ends active (.ok u, Expand.finish options k u w₂.pass)
        (.ok u, w₂.leave options k (some u))
      rw [← leave_pass]
      refine .ok rfl ⟨?_, A.leave u hkeeps hkeeps₂ (by rw [hactive₂, hactive])⟩
      rw [leave_active, hactive₂, List.tail_cons]
  | @error fault w₂ hw₂ =>
      obtain ⟨hactive₂, hshows₂⟩ := hw₂
      refine .error (u := w₂.step .pop) ⟨congrArg List.tail hactive₂, ?_⟩
      exact A.fail hkeeps hshows₂ (by rw [hactive₂, hactive])

variable {descend? : Option (Ty → Expand Ty)} {descend' : Ty → Watched Ty}

theorem freshKey_viewed (h : A.Descends active descend? descend')
    {k : TemplateKey} {w : Watch} (hactive : w.pass.active = active) (hkeeps : A.Keeps w)
    (hlookup : w.pass.cache.lookup k = none) :
    A.Ends active
      (Expand.freshKey index options descend? k (w.lookUp k).pass)
      (Watch.freshKey index options descend' k (w.lookUp k)) := by
  have hshows := A.refuse k hkeeps
  have hsame : (w.lookUp k).pass.active = active := hactive
  rw [Expand.freshKey_apply, freshKey_apply, activate_apply, hsame]
  by_cases hk : k ∈ active
  · rw [if_pos hk, if_pos hk]
    exact .error ⟨hactive, hshows⟩
  · rw [if_neg hk, if_neg hk]
    cases descend? with
    | none =>
        have hfull : options.maxDepth ≤ active.length := h
        rw [if_pos hfull]
        exact .error ⟨hactive, hshows⟩
    | some descend =>
        obtain ⟨hroom, hdescend⟩ := h
        rw [if_neg (Nat.not_le.2 hroom)]
        rw [← hactive] at hk hroom
        cases index.unfold k with
        | error fault =>
            exact .error (u := (w.lookUp k).note (.unfold k))
              ⟨hactive, A.unfold hkeeps hlookup hk⟩
        | ok t =>
            have hpush := A.push hkeeps hlookup hk hroom
            exact bracket_viewed (x := (w.lookUp k).note (.unfold k)) (hdescend k) hactive hkeeps
              ⟨congrArg (k :: ·) hactive, hpush⟩ t

theorem key_viewed (h : A.Descends active descend? descend') (k : TemplateKey) :
    (A.comparison active).Holds Eq (Expand.key index options descend? k)
      fun _ => Watch.key index options descend' k := by
  rintro ⟨⟩ w ⟨hactive, hkeeps⟩
  show A.Ends active _ (Watch.key index options descend' k w)
  rw [Expand.key_apply, key_apply]
  cases hlookup : w.pass.cache.lookup k with
  | some u =>
      exact .ok (u := (w.lookUp k).step .countHit) rfl ⟨hactive, A.hit hkeeps hlookup⟩
  | none => exact freshKey_viewed h hactive hkeeps hlookup

theorem visit_viewed (h : A.Descends active descend? descend') (t : Ty) :
    (A.comparison active).Holds Eq (t.visit (Expand.visitor index options descend?))
      fun _ => t.visit (Watch.visitor index options descend') := by
  refine Ty.visit_same (fun _ => rfl) (fun _ _ => rfl) (fun t => ?_)
    (fun origin i bounds horigin => ?_) t
  · rintro ⟨⟩ w ⟨hactive, hkeeps⟩
    exact .ok (u := w.enter t) rfl ⟨hactive, A.enter t hkeeps⟩
  · refine Run.Comparison.bind _ horigin ?_
    rintro origin _ rfl
    exact key_viewed h ⟨origin, i⟩

variable (A)

/-- The expansion of a type with the room that the active keys leave is made by its steps,
however far these may be nested, and keeps the account. -/
theorem typeWithin_viewed {room fuel : Nat} (hroom : active.length + room = options.maxDepth)
    (hfuel : room ≤ fuel) (t : Ty) :
    (A.comparison active).Holds Eq (Expand.typeWithin index options room t)
      fun _ => Watch.typeWithin index options fuel t := by
  -- The active keys vary: an expansion inside has one more of them, and so has less room.
  induction room generalizing active fuel t with
  | zero =>
      have hfull (descend' : Ty → Watched Ty) : A.Descends active none descend' :=
        Nat.le_of_eq hroom.symm
      cases fuel <;> exact visit_viewed (hfull _) t
  | succ room ih =>
      obtain ⟨fuel, rfl⟩ : ∃ n, fuel = n + 1 := ⟨fuel - 1, by omega⟩
      have hdescends : A.Descends active (some (Expand.typeWithin index options room))
          (Watch.typeWithin index options fuel) :=
        ⟨by omega, fun k t => ih (by rw [List.length_cons]; omega) (by omega) t⟩
      exact visit_viewed hdescends t

/-- A pass over a part of a crate is the same under watch, and keeps the account. -/
theorem pass_viewed (hstart : A.Keeps start) (scope : Scope) (index : Index) (c : Crate) :
    Run.ViewedEnd Watch.pass (A.Open []) (A.Failed []) Eq
      (c.visit (scope.restrict (Expand.passVisitor index options)) PassState.start)
      (c.visit (scope.restrict (passVisitor index options)) start) := by
  have hviewed := scope.visit_same (L := A.comparison [])
    (w := fun _ : Unit => passVisitor index options)
    (Run.viewing_keepsFaults fun _ => Open.failed)
    (Expand.passVisitor_forTypes index options)
    (fun _ => passVisitor_forTypes index options)
    (fun t => by
      simp only [Expand.visit_passVisitor, passVisitor, ← typeWithin_eq_visit]
      exact A.typeWithin_viewed (Nat.zero_add _) (Nat.le_refl _) t) c
  exact hviewed () start ⟨rfl, hstart⟩

end Account

end Watch

end Unerase
