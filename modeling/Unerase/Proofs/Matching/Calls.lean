import Unerase.Proofs.Matching.Occurrences
import Unerase.Ty.Bindings

/-!
What a matcher is told. For a pattern and a type there is one list of calls: the parameters
of the pattern from left to right, each with what it lines up with, and then the first
disagreement if there is one (`Ty.calls`). Any matcher is given these calls in this order,
from whatever state it starts, and the match ends with the first call that it answers with
an error (`Ty.matchWith_feeds`).
-/

namespace Unerase

namespace Finding

theorem noClash_dropLast_untilClash (fs : List Finding) :
    NoClash (untilClash fs).dropLast := by
  have hcons : ∀ f gs, NoClash [f] → NoClash gs.dropLast → NoClash (f :: gs).dropLast := by
    intro f gs hf hgs
    cases gs with
    | nil => exact noClash_nil
    | cons g gs => exact noClash_append.2 ⟨hf, hgs⟩
  induction fs with
  | nil => exact noClash_nil
  | cons f fs ih =>
      cases f with
      | type p t => exact hcons _ _ (noClash_type p t) ih
      | const p c => exact hcons _ _ (noClash_const p c) ih
      | clash => exact noClash_nil

end Finding

/-- What any matcher is told when the pattern is matched against the concrete type, as long
as it does not answer with an error. -/
def Ty.calls (pattern concrete : Ty) : List Finding :=
  Finding.untilClash (pattern.findings concrete)

namespace Matcher

open Finding

variable {ε σ : Type} {m : Matcher ε σ} {s : σ} {fs seen : List Finding}
  {outcome : Except ε Unit × σ}

/-- The matcher is given the calls one after the other. It gets to see those up to the first
one that it answers with an error, with which the match ends, or all of them. -/
inductive Feeds (m : Matcher ε σ) :
    σ → List Finding → List Finding → Except ε Unit × σ → Prop
  | done {s : σ} : m.Feeds s [] [] (.ok (), s)
  | stop {s s' : σ} {f : Finding} {fs : List Finding} {e : ε} :
      m.answer f s = (.error e, s') → m.Feeds s (f :: fs) [f] (.error e, s')
  | next {s s' : σ} {f : Finding} {fs seen : List Finding} {outcome : Except ε Unit × σ} :
      m.answer f s = (.ok (), s') → m.Feeds s' fs seen outcome →
        m.Feeds s (f :: fs) (f :: seen) outcome

theorem exists_feeds (m : Matcher ε σ) (fs : List Finding) (s : σ) :
    ∃ seen, m.Feeds s fs seen (m.replay fs s) := by
  induction fs generalizing s with
  | nil => exact ⟨[], .done⟩
  | cons f fs ih =>
      rw [replay, Run.bind_apply]
      rcases hf : m.answer f s with ⟨e | ⟨⟩, s'⟩
      · exact ⟨[f], .stop hf⟩
      · obtain ⟨seen, hseen⟩ := ih s'
        exact ⟨f :: seen, .next hf hseen⟩

theorem Feeds.seen_le (h : m.Feeds s fs seen outcome) : seen <+: fs := by
  induction h with
  | done => exact List.prefix_rfl
  | stop => exact List.cons_prefix_cons.2 ⟨rfl, List.nil_prefix⟩
  | next _ _ ih => exact List.cons_prefix_cons.2 ⟨rfl, ih⟩

theorem replay_untilClash (m : Matcher ε σ) (fs : List Finding) :
    m.replay (untilClash fs) = m.replay fs := by
  induction fs with
  | nil => rfl
  | cons f fs ih =>
      cases f with
      | type => simp only [untilClash, replay, ih]
      | const => simp only [untilClash, replay, ih]
      | clash => rfl

theorem matchWith_eq_replay_calls (m : Matcher ε σ) (pattern concrete : Ty) :
    pattern.matchWith m concrete = m.replay (pattern.calls concrete) := by
  rw [Ty.matchWith_eq_replay, Ty.calls, replay_untilClash]

/-- Answers a call and adds it to the record, whatever the answer is. -/
def note (m : Matcher ε σ) (f : Finding) : Run ε (σ × List Finding) Unit :=
  fun (s, record) => ((m.answer f s).1, (m.answer f s).2, record ++ [f])

/-- The matcher with a record of the calls that have come in. -/
def watched (m : Matcher ε σ) : Matcher ε (σ × List Finding) where
  bindType p t := m.note (.type p t)
  bindConst p c := m.note (.const p c)
  clash pattern concrete := fun (s, record) =>
    ((m.clash pattern concrete s).1, (m.clash pattern concrete s).2,
      record ++ [.clash pattern concrete])

theorem answer_watched (m : Matcher ε σ) (f : Finding) :
    m.watched.answer f = m.note f := by
  cases f <;> rfl

/-- The record has the calls that the matcher gets to see, and no others. -/
theorem Feeds.replay_watched (h : m.Feeds s fs seen outcome) (record : List Finding) :
    m.watched.replay fs (s, record) = (outcome.1, outcome.2, record ++ seen) := by
  induction h generalizing record with
  | done =>
      rw [List.append_nil]
      rfl
  | stop hf =>
      rw [replay, Run.bind_apply, answer_watched, note, hf]
  | @next s s' f fs seen outcome hf _ ih =>
      rw [replay, Run.bind_apply, answer_watched, note, hf]
      simp only [ih, List.append_assoc, List.singleton_append]

end Matcher

/-! ### The matcher that records bindings -/

namespace Finding

def binding? : Finding → Option Binding
  | .type p t => some (.type p t)
  | .const p c => some (.const p c)
  | .clash .. => none

/-- The bindings among the findings, in their order. -/
def bindings (fs : List Finding) : List Binding :=
  fs.filterMap binding?

theorem bindings_untilClash_cons {f : Finding} {b : Binding} (hb : f.binding? = some b)
    (fs : List Finding) :
    bindings (untilClash (f :: fs)) = b :: bindings (untilClash fs) := by
  cases f with
  | clash => cases hb
  | _ =>
      cases hb
      rfl

end Finding

namespace Matcher

open Finding

theorem answer_recording {f : Finding} {b : Binding} (hb : f.binding? = some b)
    (refused? : Option Nat) : (recording refused?).answer f = b.record refused? := by
  cases f <;> cases hb <;> rfl

theorem replay_recording_cons {f : Finding} {b : Binding} (hb : f.binding? = some b)
    (refused? : Option Nat) (fs : List Finding) {found : List Binding}
    (haccept : refused? ≠ some (found.length + 1)) :
    (recording refused?).replay (f :: fs) found =
      (recording refused?).replay fs (found ++ [b]) := by
  rw [replay, Run.bind_apply, answer_recording hb, Binding.record, if_neg haccept]

theorem replay_recording_none (fs : List Finding) (found : List Binding) :
    ((recording none).replay fs found).2 = found ++ bindings (untilClash fs) := by
  induction fs generalizing found with
  | nil => exact (List.append_nil found).symm
  | cons f fs ih =>
      cases hb : f.binding? with
      | none =>
          cases f <;> cases hb
          exact (List.append_nil found).symm
      | some b =>
          rw [replay_recording_cons hb none fs (by simp), ih, bindings_untilClash_cons hb,
            List.append_assoc, List.singleton_append]

theorem replay_recording_some (fs : List Finding) (found : List Binding) (n : Nat) :
    (recording (some (found.length + n + 1))).replay fs found =
      if n < (bindings (untilClash fs)).length then
        (.error .refused, found ++ (bindings (untilClash fs)).take (n + 1))
      else (recording none).replay fs found := by
  induction fs generalizing found n with
  | nil => rfl
  | cons f fs ih =>
      cases hb : f.binding? with
      | none =>
          cases f <;> cases hb
          rfl
      | some b =>
          rw [bindings_untilClash_cons hb, List.length_cons, List.take_succ_cons,
            replay_recording_cons hb none fs (by simp)]
          cases n with
          | zero =>
              rw [replay, Run.bind_apply, answer_recording hb, Binding.record,
                if_pos rfl, if_pos (Nat.zero_lt_succ _)]
              rfl
          | succ n =>
              -- From here on there is one binding fewer before the one to be refused.
              have hlength : found.length + (n + 1) + 1 = (found ++ [b]).length + n + 1 := by
                rw [List.length_append, List.length_singleton]
                omega
              have haccept : some (found.length + (n + 1) + 1) ≠ some (found.length + 1) := by
                simp
              rw [replay_recording_cons hb _ fs haccept, hlength, ih]
              simp only [Nat.succ_lt_succ_iff, List.append_assoc, List.singleton_append]

end Matcher

open Finding in
/-- For a pattern and a type there is one list of calls. Its bindings are for the parameters
of the pattern from left to right, and the first disagreement, if there is one, comes last.
Every matcher is given the calls in order, from whatever state it starts, and is told
nothing behind the first one that it answers with an error. So it sees as many of the
bindings, from the first one on, as it comes to, and the recorder that refuses one binding
sees those up to this one. -/
theorem Ty.matchWith_feeds (pattern concrete : Ty) :
    NoClash (pattern.calls concrete).dropLast ∧
    uses (pattern.calls concrete) <+: pattern.params false ∧
    (pattern.bindings concrete none).1 = Finding.bindings (pattern.calls concrete) ∧
    (∀ (ε σ : Type) (m : Matcher ε σ) (s : σ), ∃ seen,
      m.Feeds s (pattern.calls concrete) seen (pattern.matchWith m concrete s) ∧
      pattern.matchWith m.watched concrete (s, []) =
        ((pattern.matchWith m concrete s).1, (pattern.matchWith m concrete s).2, seen) ∧
      Finding.bindings seen =
        (pattern.bindings concrete none).1.take (Finding.bindings seen).length) ∧
    ∀ n, pattern.bindings concrete (some (n + 1)) =
      if n < (pattern.bindings concrete none).1.length then
        ((pattern.bindings concrete none).1.take (n + 1), some .refused)
      else pattern.bindings concrete none := by
  have hrecord : ∀ refused?, (pattern.bindings concrete refused?).1 =
      ((Matcher.recording refused?).replay (pattern.findings concrete) []).2 := by
    intro refused?
    rw [Ty.bindings, Ty.matchWith_eq_replay]
    split <;> simp_all
  have hnone : (pattern.bindings concrete none).1 =
      Finding.bindings (pattern.calls concrete) :=
    (hrecord none).trans (Matcher.replay_recording_none _ [])
  refine ⟨noClash_dropLast_untilClash _, (Ty.findings_follow pattern concrete).first, hnone, ?_, ?_⟩
  · intro ε σ m s
    obtain ⟨seen, hseen⟩ := m.exists_feeds (pattern.calls concrete) s
    have hfirst := hseen.seen_le.filterMap binding?
    rw [Matcher.matchWith_eq_replay_calls, Matcher.matchWith_eq_replay_calls, hnone]
    exact ⟨seen, hseen, hseen.replay_watched [], List.prefix_iff_eq_take.1 hfirst⟩
  · intro n
    have hsome := Matcher.replay_recording_some (pattern.findings concrete) [] n
    rw [List.length_nil, Nat.zero_add] at hsome
    rw [hnone, Ty.calls]
    by_cases hn : n < (Finding.bindings (untilClash (pattern.findings concrete))).length
    · rw [if_pos hn] at hsome ⊢
      rw [Ty.bindings, Ty.matchWith_eq_replay, hsome]
      rfl
    · rw [if_neg hn] at hsome ⊢
      rw [Ty.bindings, Ty.bindings, Ty.matchWith_eq_replay, Ty.matchWith_eq_replay, hsome]

end Unerase
