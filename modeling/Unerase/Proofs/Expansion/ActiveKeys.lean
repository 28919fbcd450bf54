import Unerase.Proofs.Expansion.Reference
import Unerase.Proofs.Expansion.Watch

/-!
The active keys of a pass. Around the expansion of what a key stands for the key is put on
the list of active keys and taken from it again, and between these two steps many others may
be made, each of which may fail. After each of them the list has the active keys of the start
at its end, holds no key twice and is no longer than the depth limit, and at the end of a visit
it is what it was at its start (`Watch.active_balanced`).
-/

namespace Unerase

namespace Watch

/-- The keys have the given ones at their end, none of them is there twice, and there are no
more of them than the limit allows. -/
structure Above (base : List TemplateKey) (limit : Nat) (keys : List TemplateKey) : Prop where
  base_le : base <:+ keys
  nodup : keys.Nodup
  bounded : keys.length ≤ limit

/-- This was so in every state that has been seen. -/
def ShowsAbove (base : List TemplateKey) (limit : Nat) (events : List Event) : Prop :=
  ∀ s ∈ Event.states events, Above base limit s.active

/-- This is so now, and was so before. -/
structure KeepsAbove (base : List TemplateKey) (limit : Nat) (w : Watch) : Prop where
  now : Above base limit w.pass.active
  shows : ShowsAbove base limit w.events

section Above

variable {base keys : List TemplateKey} {limit : Nat} {options : ExpansionOptions}
  {w : Watch} {k : TemplateKey} {f : PassState → PassState}

theorem Above.push (h : Above base limit keys) (hk : k ∉ keys) (hlimit : keys.length < limit) :
    Above base limit (k :: keys) where
  base_le := h.base_le.trans (List.suffix_cons k keys)
  nodup := List.nodup_cons.2 ⟨hk, h.nodup⟩
  bounded := hlimit

theorem ShowsAbove.step (h : ShowsAbove base limit w.events)
    (hf : Above base limit (f w.pass).active) : ShowsAbove base limit (w.step f).events :=
  List.forall_mem_cons.2 ⟨hf, h⟩

namespace KeepsAbove

theorem step (h : KeepsAbove base limit w) (hf : Above base limit (f w.pass).active) :
    KeepsAbove base limit (w.step f) :=
  ⟨hf, h.shows.step hf⟩

theorem enter (h : KeepsAbove base limit w) (t : Ty) : KeepsAbove base limit (w.enter t) :=
  ⟨h.now, List.forall_mem_cons.2 ⟨h.now, h.shows⟩⟩

theorem lookUp (h : KeepsAbove base limit w) (k : TemplateKey) :
    KeepsAbove base limit (w.lookUp k) :=
  ⟨h.now, h.shows.step (f := .countResolved) h.now⟩

theorem push (h : KeepsAbove base limit w) (hk : k ∉ w.pass.active)
    (hlimit : w.pass.active.length < limit) :
    KeepsAbove base limit (((w.lookUp k).note (.unfold k)).step (.push k)) :=
  ⟨h.now.push hk hlimit,
    (h.lookUp k).shows.step (f := .push k) (w := w.lookUp k) (h.now.push hk hlimit)⟩

theorem leave {u : Ty} (h : KeepsAbove base limit w)
    (htail : Above base limit w.pass.active.tail) :
    KeepsAbove base limit (w.leave options k (some u)) := by
  have hpop : KeepsAbove base limit (w.step .pop) := h.step htail
  rw [Watch.leave]
  split
  · exact hpop.step hpop.now
  · exact hpop

end KeepsAbove

end Above

/-- The account of the active keys above those of the start. -/
def Account.above (options : ExpansionOptions) (base : List TemplateKey) : Account options where
  Keeps := KeepsAbove base options.maxDepth
  Shows := ShowsAbove base options.maxDepth
  shows h := h.shows
  enter t h := h.enter t
  hit h _ := (h.lookUp _).step h.now
  refuse k h := (h.lookUp k).shows
  unfold := fun {_ k} h _ _ => (h.lookUp k).shows
  push h _ hk hlimit := h.push hk hlimit
  leave u h h₁ hactive := by
    refine h₁.leave ?_
    rw [hactive]
    exact h.now
  fail h h₁ hactive := by
    refine h₁.step ?_
    rw [PassState.pop, hactive]
    exact h.now

section Visit

variable {index : Index} {options : ExpansionOptions} {s : PassState}

theorem typeWithin_above {fuel : Nat} (hnodup : s.active.Nodup)
    (hlimit : s.active.length ≤ options.maxDepth)
    (hfuel : options.maxDepth - s.active.length ≤ fuel) (t : Ty) :
    (Account.above options s.active).Ends s.active
      (Expand.typeWithin index options (options.maxDepth - s.active.length) t s)
      (typeWithin index options fuel t ⟨s, []⟩) := by
  have hkeeps : KeepsAbove s.active options.maxDepth ⟨s, []⟩ :=
    ⟨⟨List.suffix_rfl, hnodup, hlimit⟩, fun _ h => (List.not_mem_nil h).elim⟩
  exact (Account.above options s.active).typeWithin_viewed (by omega) hfuel t () ⟨s, []⟩
    ⟨rfl, hkeeps⟩

theorem typeWithin_active (hnodup : s.active.Nodup)
    (hlimit : s.active.length ≤ options.maxDepth) (t : Ty) :
    (Expand.typeWithin index options (options.maxDepth - s.active.length) t s).2.active =
      s.active := by
  have habove : (Account.above options s.active).Ends s.active _
      (typeWithin index options _ t ⟨s, []⟩) := typeWithin_above hnodup hlimit (Nat.le_refl _) t
  rw [habove.eq]
  exact habove.right (fun _ h => h.1) fun _ h => h.1

end Visit

end Watch

/-! ### The types that a pass comes to -/

/-- Walks each type as the given visitor does, and notes the state in which it has come to it. -/
def Visitor.noting {ε σ : Type} (v : Visitor ε σ) : Visitor ε (σ × List σ) where
  type t := fun (s, starts) => ((t.visit v s).1.map some, (t.visit v s).2, s :: starts)
  patience := v.patience

theorem Visitor.visit_noting {ε σ : Type} (v : Visitor ε σ) (t : Ty) (s : σ)
    (starts : List σ) :
    t.visit v.noting (s, starts) = ((t.visit v s).1, (t.visit v s).2, s :: starts) := by
  have htype : v.noting.type t (s, starts) =
      ((t.visit v s).1.map some, (t.visit v s).2, s :: starts) := rfl
  rw [Ty.visit_eq_reach, Visitor.reach, Run.bind_apply, htype]
  rcases t.visit v s with ⟨fault | u, s'⟩ <;> rfl

theorem Visitor.ForTypes.noting {ε σ : Type} {v : Visitor ε σ} (h : v.ForTypes) :
    v.noting.ForTypes :=
  ⟨fun _ => rfl, fun _ => rfl, h.patience⟩

namespace Watch

variable (index : Index) (options : ExpansionOptions)

/-- No key is active, and none has been whenever a type was come to. -/
def Idle (u : PassState × List PassState) : Prop :=
  u.1.active = [] ∧ ∀ s ∈ u.2, s.active = []

theorem visit_idle (t : Ty) :
    (Run.viewing (Fault ExpansionError) Unit Prod.fst Idle Idle).Holds Eq
      (t.visit (Expand.passVisitor index options))
      fun _ => t.visit (Expand.passVisitor index options).noting := by
  rintro ⟨⟩ ⟨s, starts⟩ ⟨hs : s.active = [], hstarts⟩
  have hactive : (t.visit (Expand.passVisitor index options) s).2.active = [] := by
    have hkept : (Expand.typeWithin index options _ t s).2.active = s.active :=
      typeWithin_active (by simp [hs]) (by simp [hs]) t
    rwa [hs, List.length_nil, Nat.sub_zero, ← Expand.visit_passVisitor] at hkept
  have hidle : Idle ((t.visit (Expand.passVisitor index options) s).2, s :: starts) :=
    ⟨hactive, List.forall_mem_cons.2 ⟨hs, hstarts⟩⟩
  show Run.ViewedEnd _ _ _ _ _ (t.visit (Expand.passVisitor index options).noting (s, starts))
  rw [Visitor.visit_noting]
  generalize t.visit (Expand.passVisitor index options) s = outcome at hidle ⊢
  -- A state that a failure leaves is no less idle than one that a value comes with.
  obtain ⟨fault | u, s'⟩ := outcome
  · exact .error (u := (s', s :: starts)) hidle
  · exact .ok (u := (s', s :: starts)) rfl hidle

theorem pass_idle (scope : Scope) (c : Crate) :
    Run.ViewedEnd Prod.fst Idle Idle Eq
      (c.visit (scope.restrict (Expand.passVisitor index options)) PassState.start)
      (c.visit (scope.restrict (Expand.passVisitor index options).noting)
        (PassState.start, [])) := by
  have hv := Expand.passVisitor_forTypes index options
  exact scope.visit_same (Run.viewing_keepsFaults fun _ h => h) hv (fun _ => hv.noting)
    (visit_idle index options) c () (PassState.start, [])
    ⟨rfl, fun _ h => (List.not_mem_nil h).elim⟩

/-- The list of active keys is kept in balance. A visit to a type from a state in which no key
is active twice and no more keys are than the depth limit allows leaves the active keys as they
were, whether it succeeds or fails. It does what the steps under watch do one after the other,
and after each of these the active keys are those of the start with others in front of them,
none of them twice and no more than the limit allows. In both passes no key is active whenever
the pass comes to a type by itself, nor at its end. -/
theorem active_balanced (index : Index) (options : ExpansionOptions) :
    (∀ (t : Ty) (s : PassState), s.active.Nodup → s.active.length ≤ options.maxDepth →
      ∀ room, room = options.maxDepth - s.active.length → ∀ fuel, room ≤ fuel →
        t.visit (Expand.visitorWithin index options room) s =
          ((typeWithin index options fuel t ⟨s, []⟩).1,
            (typeWithin index options fuel t ⟨s, []⟩).2.pass) ∧
        (t.visit (Expand.visitorWithin index options room) s).2.active = s.active ∧
        ∀ s' ∈ Event.states (typeWithin index options fuel t ⟨s, []⟩).2.events,
          s.active <:+ s'.active ∧ s'.active.Nodup ∧ s'.active.length ≤ options.maxDepth) ∧
    ∀ (scope : Scope) (c : Crate),
      let noted := c.visit (scope.restrict (Expand.passVisitor index options).noting)
        (PassState.start, [])
      c.visit (scope.restrict (Expand.passVisitor index options)) PassState.start =
        (noted.1, noted.2.1) ∧
      noted.2.1.active = [] ∧ ∀ s ∈ noted.2.2, s.active = [] := by
  constructor
  · rintro t s hnodup hlimit room rfl fuel hfuel
    have habove : (Account.above options s.active).Ends s.active _
        (typeWithin index options fuel t ⟨s, []⟩) := typeWithin_above hnodup hlimit hfuel t
    have hshows : ShowsAbove s.active options.maxDepth
        (typeWithin index options fuel t ⟨s, []⟩).2.events :=
      habove.right (fun _ h => h.2.shows) fun _ h => h.2
    rw [← Expand.typeWithin_eq_visit]
    refine ⟨habove.eq, typeWithin_active hnodup hlimit t, fun s' hs' => ?_⟩
    obtain ⟨hbase, hactiveNodup, hbounded⟩ := hshows s' hs'
    exact ⟨hbase, hactiveNodup, hbounded⟩
  · intro scope c noted
    have hidle := pass_idle index options scope c
    exact ⟨hidle.eq, hidle.right (fun _ h => h) fun _ h => h⟩

/-- With one key active, what `make` returns is expanded within the limit 3, because two more
keys become active for it, and not within the limit 2. -/
theorem active_balanced_sample :
    let index := Index.ofCrate Sample.before
    let s : PassState := ⟨[⟨.item ⟨⟨"sample", ["main"]⟩, ⟨[], []⟩⟩, 0⟩], [], 0, 0⟩
    let t := Sample.make (.prim .i32)
    s.active.Nodup ∧ s.active.length ≤ 2 ∧
    ((t.visit (Expand.visitorWithin index ⟨true, 3⟩ 2) s).1 = .ok (.prim .i32) ∧
      (t.visit (Expand.visitorWithin index ⟨true, 3⟩ 2) s).2.active = s.active ∧
      (typeWithin index ⟨true, 3⟩ 2 t ⟨s, []⟩).1 = .ok (.prim .i32) ∧
      ∀ s' ∈ Event.states (typeWithin index ⟨true, 3⟩ 2 t ⟨s, []⟩).2.events,
        s.active <:+ s'.active ∧ s'.active.Nodup ∧ s'.active.length ≤ 3) ∧
    ((t.visit (Expand.visitorWithin index ⟨true, 2⟩ 1) s).1 = .error (.error
        (.tooDeep ⟨.inherent (Sample.boxed (.prim .i32)) "get" ⟨[], []⟩, 0⟩ 2)) ∧
      (t.visit (Expand.visitorWithin index ⟨true, 2⟩ 1) s).2.active = s.active) := by
  intro index s t
  have hnodup : s.active.Nodup := List.nodup_singleton _
  have hlimit : s.active.length ≤ 2 := Nat.le_succ 1
  obtain ⟨hsame, hactive, hstates⟩ := (active_balanced index ⟨true, 3⟩).1 t s hnodup
    (Nat.le_succ_of_le hlimit) 2 rfl 2 (Nat.le_refl 2)
  obtain ⟨-, hactive', -⟩ := (active_balanced index ⟨true, 2⟩).1 t s hnodup hlimit 1 rfl 1
    (Nat.le_refl 1)
  have hok : (t.visit (Expand.visitorWithin index ⟨true, 3⟩ 2) s).1 = .ok (.prim .i32) := rfl
  exact ⟨hnodup, hlimit, ⟨hok, hactive, (congrArg Prod.fst hsame).symm.trans hok, hstates⟩,
    rfl, hactive'⟩

end Watch

end Unerase
