import Unerase.Proofs.Walk.Hooks
import Unerase.Visitor.Log

/-!
Where a visitor that keeps a log comes to a stop. It stops at the first type at which it is
told to, and nowhere else: its log is that of the visitor that never stops, cut off behind
this type, and if there is no such type then the two walks are the same
(`LogSettings.visit_stopsFirst`).

A visitor that goes on into what it puts in the place of types may never come to an end. Its
walk is therefore bounded in depth, and the bound makes no difference to a walk that ends
(`LogSettings.rewriter_continues`).
-/

namespace Unerase

variable {α β : Type} {stops : Ty → Bool}

/-- None of the entries is a type at which to stop. -/
def LogEntry.NoStop (stops : Ty → Bool) (entries : List LogEntry) : Prop :=
  ∀ t, .type t ∈ entries → stops t = false

/-- Both computations have started from the same log, to which the second one has added some
entries. If there is no type among them at which to stop, then the first one has come to the
same end. Otherwise it has stopped at the first such type, which is its last entry. -/
inductive CutOff (stops : Ty → Bool) (log : Array LogEntry) :
    Except (Fault Ty) α × Array LogEntry → Except (Fault Ty) α × Array LogEntry → Prop
  | same {r : Except (Fault Ty) α} {logged : Array LogEntry} (told : List LogEntry) :
      logged.toList = log.toList ++ told → LogEntry.NoStop stops told →
      CutOff stops log (r, logged) (r, logged)
  | stopped {r : Except (Fault Ty) α} {logged logged' : Array LogEntry}
      (before : List LogEntry) (t : Ty) (after : List LogEntry) :
      logged'.toList = log.toList ++ (before ++ .type t :: after) →
      LogEntry.NoStop stops before → stops t = true →
      logged.toList = log.toList ++ (before ++ [.type t]) →
      CutOff stops log (.error (.error t), logged) (r, logged')

/-- From whatever log, the first computation stops at the first type at which to stop that
the second one logs, and at no other place. -/
def StopsFirst (stops : Ty → Bool) (x y : Run (Fault Ty) (Array LogEntry) α) : Prop :=
  ∀ log, CutOff stops log (x log) (y log)

theorem LogEntry.noStop_append {entries entries' : List LogEntry} (h : NoStop stops entries)
    (h' : NoStop stops entries') : NoStop stops (entries ++ entries') :=
  fun t ht => (List.mem_append.1 ht).elim (h t) (h' t)

theorem StopsFirst.pure (a : α) : StopsFirst stops (Pure.pure a) (Pure.pure a) :=
  fun log => .same [] (List.append_nil log.toList).symm fun _ ht => nomatch ht

theorem StopsFirst.stop (fault : Fault Ty) :
    StopsFirst (α := α) stops (.stop fault) (.stop fault) :=
  fun log => .same [] (List.append_nil log.toList).symm fun _ ht => nomatch ht

theorem CutOff.exists_told {log : Array LogEntry}
    {out out' : Except (Fault Ty) α × Array LogEntry} (h : CutOff stops log out out') :
    ∃ told, out'.2.toList = log.toList ++ told := by
  cases h with
  | same told htold _ => exact ⟨told, htold⟩
  | stopped before t after htold _ _ _ => exact ⟨_, htold⟩

/-- A stop in the first part is not undone by what would have followed. -/
theorem CutOff.bind {x y : Run (Fault Ty) (Array LogEntry) α}
    {f g : α → Run (Fault Ty) (Array LogEntry) β} {log : Array LogEntry}
    (hxy : CutOff stops log (x log) (y log))
    (hfg : ∀ a log₁, y log = (.ok a, log₁) → CutOff stops log₁ (f a log₁) (g a log₁)) :
    CutOff stops log ((x >>= f) log) ((y >>= g) log) := by
  rw [Run.bind_apply, Run.bind_apply]
  generalize x log = out at hxy ⊢
  generalize y log = out' at hxy hfg ⊢
  cases hxy with
  | @same r log₁ told htold hpass =>
      cases r with
      | error fault => exact .same told htold hpass
      | ok a =>
          have hrest := hfg a log₁ rfl
          show CutOff stops log (f a log₁) (g a log₁)
          generalize f a log₁ = out at hrest ⊢
          generalize g a log₁ = out' at hrest ⊢
          cases hrest with
          | same told' htold' hpass' =>
              refine .same (told ++ told') ?_ (LogEntry.noStop_append hpass hpass')
              rw [htold', htold, List.append_assoc]
          | stopped before t after htold' hpass' ht hlogged =>
              refine .stopped (told ++ before) t after ?_ (LogEntry.noStop_append hpass hpass')
                ht ?_
              · rw [htold', htold, List.append_assoc, List.append_assoc]
              · rw [hlogged, htold, List.append_assoc, List.append_assoc]
  | @stopped r logged log₁ before t after htold hpass ht hlogged =>
      cases r with
      | error fault => exact .stopped before t after htold hpass ht hlogged
      | ok a =>
          obtain ⟨told', htold'⟩ := (hfg a log₁ rfl).exists_told
          refine .stopped before t (after ++ told') ?_ hpass ht hlogged
          rw [htold', htold]
          simp only [List.append_assoc, List.cons_append]

/-- The first two sides end alike and leave the same log, and the third one stops at the first
type at which to stop. The family has the third side at `true` and the second one at
`false`. -/
def Run.stopping (stops : Ty → Bool) :
    Run.Comparison (Fault Ty) (Array LogEntry) (Fault Ty) (Array LogEntry) Bool where
  Holds R x y :=
    ((lockstep (Fault Ty) (Array LogEntry) Unit).Holds R x fun _ => y false) ∧
      StopsFirst stops (y true) (y false)
  pure h := ⟨Comparison.pure _ h, .pure _⟩
  bind := by
    intro _ _ _ _ R S x y f g hxy hfg
    refine ⟨Comparison.bind _ hxy.1 fun a b hab => (hfg a b hab).1, fun log => ?_⟩
    refine (hxy.2 log).bind fun b log₁ hb => ?_
    -- What follows is compared for related values only, so one for `b` is needed.
    have hend : SameEnd R (x log).1 (y false log).1 := (hxy.1 () log).1
    rw [hb] at hend
    generalize (x log).1 = r at hend
    cases hend with
    | ok hab => exact (hfg _ _ hab).2 log₁

theorem Run.stopping_keepsFaults : (stopping stops).KeepsFaults where
  outOfBounds _ _ _ := ⟨fun _ _ => ⟨.error _, rfl⟩, .stop _⟩
  endless _ := ⟨fun _ _ => ⟨.error _, rfl⟩, .stop _⟩

namespace LogSettings

variable {l : LogSettings}

/-- The settings without types at which to stop. -/
def unstopped (l : LogSettings) : LogSettings :=
  { l with stopsAt := fun _ => false }

/-- The settings, and those without types at which to stop. -/
def orUnstopped (l : LogSettings) (stopping : Bool) : LogSettings :=
  { l with stopsAt := fun t => stopping && l.stopsAt t }

theorem log_stopping (stops : Ty → Bool) (entry : LogEntry) (hentry : ∀ t, entry ≠ .type t) :
    (Run.stopping stops).Holds Eq (log entry) fun _ => log entry :=
  ⟨fun _ _ => ⟨.ok rfl, rfl⟩, fun _ =>
    .same [entry] Array.toList_push fun t ht =>
      absurd (List.mem_singleton.1 ht).symm (hentry t)⟩

theorem announce_apply (l : LogSettings) (t : Ty) (logged : Array LogEntry) :
    l.announce t logged =
      (if l.stopsAt t then .error (.error t) else .ok (), logged.push (.type t)) := by
  rw [announce, Run.bind_apply]
  cases l.stopsAt t <;> rfl

theorem announce_stopping (l : LogSettings) (t : Ty) :
    (Run.stopping l.stopsAt).Holds Eq (l.unstopped.announce t)
      fun i => (l.orUnstopped i).announce t := by
  refine ⟨Run.lockstep_eq_iff.2 rfl, fun logged => ?_⟩
  have hstopped := l.announce_apply t logged
  have hunstopped : l.unstopped.announce t logged = (.ok (), logged.push (.type t)) :=
    l.unstopped.announce_apply t logged
  show CutOff l.stopsAt logged (l.announce t logged) (l.unstopped.announce t logged)
  rw [hstopped, hunstopped]
  by_cases ht : l.stopsAt t = true
  · rw [if_pos ht]
    exact .stopped [] t [] Array.toList_push (fun _ h => nomatch h) ht Array.toList_push
  · rw [if_neg ht]
    refine .same [.type t] Array.toList_push fun u hu => ?_
    cases List.mem_singleton.1 hu
    exact Bool.not_eq_true _ ▸ ht

section Comparing

variable {ι : Type}
  {L : Run.Comparison (Fault Ty) (Array LogEntry) (Fault Ty) (Array LogEntry) ι}
  {stops : ι → Ty → Bool}

theorem rewrite_alike {v : Visitor Ty (Array LogEntry)} {w : ι → Visitor Ty (Array LogEntry)}
    (hannounce : ∀ t,
      L.Holds Eq (l.announce t) fun i => { l with stopsAt := stops i }.announce t)
    (h : v.Alike L w) (t : Ty) :
    L.Holds Eq (l.rewrite v t) fun i => { l with stopsAt := stops i }.rewrite (w i) t := by
  refine L.bindSame (hannounce t) fun _ => ?_
  dsimp only
  split
  · exact L.pure rfl
  · exact L.mapSame (h.walk_ty _) some

variable {type : Ty → Run (Fault Ty) (Array LogEntry) (Option Ty)}
  {type' : ι → Ty → Run (Fault Ty) (Array LogEntry) (Option Ty)} (hL : L.KeepsFaults)
  (hlog : ∀ entry, (∀ t, entry ≠ .type t) → L.Holds Eq (log entry) fun _ => log entry)
  (htype : ∀ t, L.Holds Eq (type t) fun i => type' i t)

include hlog

theorem enter_alike (site : Site) :
    L.Holds Eq (l.enter site) fun i => { l with stopsAt := stops i }.enter site := by
  unfold enter
  split
  · exact L.mapSame (hlog _ fun _ h => by cases h) _
  · exact L.pure rfl

include htype

theorem bodyVisitorBy_alike :
    (l.bodyVisitorBy type).Alike L
      fun i => { l with stopsAt := stops i }.bodyVisitorBy (type' i) :=
  .of_default (enter_alike hlog) htype

theorem visitorBy_alike :
    (l.visitorBy type).Alike L fun i => { l with stopsAt := stops i }.visitorBy (type' i) :=
  .of_default (enter_alike hlog) htype

include hL

theorem visit_bodyVisitorBy (b : Body) :
    L.Holds Eq (b.visit (l.bodyVisitorBy type))
      fun i => b.visit ({ l with stopsAt := stops i }.bodyVisitorBy (type' i)) :=
  (bodyVisitorBy_alike hlog htype).visit_body hL (fun _ => rfl) b

theorem body_alike (b : Body) :
    L.Holds Eq ((l.visitorBy type).body b)
      fun i => ({ l with stopsAt := stops i }.visitorBy (type' i)).body b := by
  have hwalk : L.Holds Eq
      (if l.bodies && l.level ≠ .types then b.visit (l.bodyVisitorBy type) else pure b)
      fun i => if l.bodies && l.level ≠ .types then
        b.visit ({ l with stopsAt := stops i }.bodyVisitorBy (type' i)) else pure b := by
    split
    · exact visit_bodyVisitorBy hL hlog htype b
    · exact L.pure rfl
  by_cases hall : l.level = .all
  · simp only [visitorBy, body, hall, if_true] at hwalk ⊢
    exact L.bindSame (hlog _ fun _ h => by cases h) fun _ => hwalk
  · simp only [visitorBy, body, hall, if_false]
    exact hwalk

variable (stops) in
/-- The walks over types, paths, bodies and crates compare if types are treated alike. -/
theorem visits_alike :
    (∀ t : Ty, L.Holds Eq (t.visit (l.visitorBy type))
      fun i => t.visit ({ l with stopsAt := stops i }.visitorBy (type' i))) ∧
    (∀ p : Path, L.Holds Eq (p.visit (l.visitorBy type))
      fun i => p.visit ({ l with stopsAt := stops i }.visitorBy (type' i))) ∧
    (∀ b : Body, L.Holds Eq (b.visit (l.bodyVisitorBy type))
      fun i => b.visit ({ l with stopsAt := stops i }.bodyVisitorBy (type' i))) ∧
    ∀ c : Crate, L.Holds Eq (c.visit (l.visitorBy type))
      fun i => c.visit ({ l with stopsAt := stops i }.visitorBy (type' i)) := by
  have halike : (l.visitorBy type).Alike L
      fun i => { l with stopsAt := stops i }.visitorBy (type' i) := visitorBy_alike hlog htype
  exact ⟨halike.visit_ty, halike.visit_path, visit_bodyVisitorBy hL hlog htype,
    halike.visit_crate (body_alike hL hlog htype)⟩

end Comparing

theorem type_stopping (l : LogSettings) (t : Ty) :
    (Run.stopping l.stopsAt).Holds Eq (l.unstopped.type t) fun i => (l.orUnstopped i).type t :=
  Run.Comparison.bindSame (l.announce_stopping t) fun _ => Run.Comparison.pure _ rfl

theorem rewriteWithin_stopping (l : LogSettings) (depth : Nat) (t : Ty) :
    (Run.stopping l.stopsAt).Holds Eq (l.unstopped.rewriteWithin depth t)
      fun i => (l.orUnstopped i).rewriteWithin depth t := by
  induction depth generalizing t with
  | zero => exact Run.stopping_keepsFaults.endless _
  | succ depth ih =>
      exact rewrite_alike l.announce_stopping (bodyVisitorBy_alike (log_stopping l.stopsAt) ih) t

/-- A visitor that keeps a log stops at the first type at which it is to stop, and nowhere
else, in a type, in a path, in a body and in a crate. This is so whether or not it goes on into
what it puts in the place of a type. -/
theorem visit_stopsFirst (l : LogSettings) :
    ((∀ t : Ty, StopsFirst l.stopsAt (t.visit l.visitor) (t.visit l.unstopped.visitor)) ∧
      (∀ p : Path, StopsFirst l.stopsAt (p.visit l.visitor) (p.visit l.unstopped.visitor)) ∧
      (∀ b : Body,
        StopsFirst l.stopsAt (b.visit l.bodyVisitor) (b.visit l.unstopped.bodyVisitor)) ∧
      ∀ c : Crate, StopsFirst l.stopsAt (c.visit l.visitor) (c.visit l.unstopped.visitor)) ∧
    ∀ depth,
      (∀ t : Ty, StopsFirst l.stopsAt (t.visit (l.rewriter depth))
        (t.visit (l.unstopped.rewriter depth))) ∧
      (∀ p : Path, StopsFirst l.stopsAt (p.visit (l.rewriter depth))
        (p.visit (l.unstopped.rewriter depth))) ∧
      (∀ b : Body, StopsFirst l.stopsAt (b.visit (l.bodyRewriter depth))
        (b.visit (l.unstopped.bodyRewriter depth))) ∧
      ∀ c : Crate, StopsFirst l.stopsAt (c.visit (l.rewriter depth))
        (c.visit (l.unstopped.rewriter depth)) := by
  have hlog := log_stopping l.stopsAt
  obtain ⟨hty, hpath, hbody, hcrate⟩ :=
    visits_alike (fun i => (l.orUnstopped i).stopsAt) Run.stopping_keepsFaults hlog
      l.type_stopping
  refine ⟨⟨fun t => (hty t).2, fun p => (hpath p).2, fun b => (hbody b).2,
    fun c => (hcrate c).2⟩, fun depth => ?_⟩
  obtain ⟨hty, hpath, hbody, hcrate⟩ :=
    visits_alike (fun i => (l.orUnstopped i).stopsAt) Run.stopping_keepsFaults hlog
      (l.rewriteWithin_stopping depth)
  exact ⟨fun t => (hty t).2, fun p => (hpath p).2, fun b => (hbody b).2, fun c => (hcrate c).2⟩

/-! ### The depth of a visitor that goes on into replacements -/

/-- Both sides take the same course up to the end of the first one. -/
abbrev continuing : Run.Comparison (Fault Ty) (Array LogEntry) (Fault Ty) (Array LogEntry) Unit :=
  Run.lockstepUnless _ Unit (· = .endless)

theorem continuing_refl (x : Run (Fault Ty) (Array LogEntry) α) :
    continuing.Holds Eq x fun _ => x :=
  Run.lockstepUnless_iff.2 fun _ => .inr rfl

theorem continues_of_continuing {x y : Run (Fault Ty) (Array LogEntry) α}
    (h : continuing.Holds Eq x fun _ => y) : y.Continues x := by
  intro s hs
  rcases Run.lockstepUnless_iff.1 h s with ⟨_, s₁, hx, rfl⟩ | hsame
  · rw [hx] at hs
    exact absurd rfl hs
  · exact hsame.symm

theorem rewriteWithin_continuing (l : LogSettings) {depth deeper : Nat} (hle : depth ≤ deeper)
    (t : Ty) :
    continuing.Holds Eq (l.rewriteWithin depth t) fun _ => l.rewriteWithin deeper t := by
  induction depth generalizing deeper t with
  | zero => exact fun _ s => .inl ⟨.endless, s, rfl, rfl⟩
  | succ depth ih =>
      obtain ⟨d, rfl⟩ : ∃ d, deeper = d + 1 := ⟨deeper - 1, by omega⟩
      have halike : (l.bodyVisitorBy (l.rewriteWithin depth)).Alike continuing
          fun _ => l.bodyVisitorBy (l.rewriteWithin d) :=
        bodyVisitorBy_alike (fun _ _ => continuing_refl _) (ih (by omega))
      exact rewrite_alike (fun _ => continuing_refl _) halike t

/-- A walk that comes to an end goes the same way where more depth is allowed. -/
theorem rewriter_continues (l : LogSettings) {depth deeper : Nat} (hle : depth ≤ deeper) :
    (∀ t : Ty, (t.visit (l.rewriter deeper)).Continues (t.visit (l.rewriter depth))) ∧
      (∀ p : Path, (p.visit (l.rewriter deeper)).Continues (p.visit (l.rewriter depth))) ∧
      (∀ b : Body,
        (b.visit (l.bodyRewriter deeper)).Continues (b.visit (l.bodyRewriter depth))) ∧
      ∀ c : Crate, (c.visit (l.rewriter deeper)).Continues (c.visit (l.rewriter depth)) := by
  obtain ⟨hty, hpath, hbody, hcrate⟩ :=
    visits_alike (fun _ => l.stopsAt) (Run.lockstepUnless_keepsFaults _)
      (fun _ _ => continuing_refl _) (l.rewriteWithin_continuing hle)
  exact ⟨fun t => continues_of_continuing (hty t), fun p => continues_of_continuing (hpath p),
    fun b => continues_of_continuing (hbody b), fun c => continues_of_continuing (hcrate c)⟩

end LogSettings

end Unerase
