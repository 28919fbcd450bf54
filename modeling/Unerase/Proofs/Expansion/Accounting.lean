import Unerase.Proofs.Expansion.Reference
import Unerase.Proofs.Expansion.Tally
import Unerase.Proofs.Expansion.Watch

namespace Unerase

/-- No key is in the cache twice or while it is active, and the placeholders counted so far
are the hits, and one for each key in the cache and for each active key. -/
structure PassState.Balanced (s : PassState) : Prop where
  nodup : (s.active ++ s.keys).Nodup
  resolved : s.resolved = s.hits + s.keys.length + s.active.length

namespace PassState.Balanced

variable {options : ExpansionOptions} {s : PassState} {k : TemplateKey} {u : Ty}
  {active : List TemplateKey}

theorem start : PassState.start.Balanced :=
  ⟨List.nodup_nil, rfl⟩

theorem hit (h : s.Balanced) : s.countResolved.countHit.Balanced where
  nodup := h.nodup
  resolved := by
    have hresolved := h.resolved
    simp only [countHit, countResolved, keys] at hresolved ⊢
    omega

theorem push (h : s.Balanced) (hlookup : s.cache.lookup k = none) (hk : k ∉ s.active) :
    (s.countResolved.push k).Balanced where
  nodup := nodup_push h.nodup hlookup hk
  resolved := by
    have hresolved := h.resolved
    simp only [PassState.push, countResolved, keys, List.length_cons] at hresolved ⊢
    omega

theorem finish (hmemoize : options.memoize = true) (h : s.Balanced)
    (hactive : s.active = k :: active) : (Expand.finish options k u s).Balanced where
  nodup := (perm_finish hmemoize hactive).nodup_iff.2 h.nodup
  resolved := by
    have hresolved := h.resolved
    have hlength := (perm_finish (u := u) hmemoize hactive).length_eq
    rw [List.length_append, List.length_append] at hlength
    rw [Expand.finish_resolved, Expand.finish_hits]
    omega

end PassState.Balanced

namespace Watch

/-- Whenever the pass has come to a type, its counts were balanced, and no key has been
unfolded twice. -/
structure Once (events : List Event) : Prop where
  balanced : ∀ s ∈ Event.entered events, s.Balanced
  nodup : (Event.unfolded events).Nodup

/-- What is kept by a pass with a cache: its counts are balanced, and the keys that have been
unfolded are those in the cache and those still active. These are all the keys that have been
counted. -/
structure Remembers (w : Watch) : Prop where
  now : w.pass.Balanced
  balanced : ∀ s ∈ Event.entered w.events, s.Balanced
  unfolded : (Event.unfolded w.events).Perm (w.pass.active ++ w.pass.keys)
  resolved : w.pass.resolved = (Event.lookedUp w.events).length
  lookedUp : ∀ k, k ∈ Event.lookedUp w.events ↔ k ∈ Event.unfolded w.events

namespace Remembers

variable {options : ExpansionOptions} {w : Watch} {k : TemplateKey}
  {active : List TemplateKey} {u : Ty}

theorem start : Watch.start.Remembers :=
  ⟨.start, fun _ h => (List.not_mem_nil h).elim, .nil, rfl, fun _ => Iff.rfl⟩

theorem once (h : w.Remembers) : Once w.events :=
  ⟨h.balanced, h.unfolded.nodup_iff.2 h.now.nodup⟩

theorem enter (h : w.Remembers) (t : Ty) : (w.enter t).Remembers :=
  ⟨h.now, List.forall_mem_cons.2 ⟨h.now, h.balanced⟩, h.unfolded, h.resolved, h.lookedUp⟩

theorem hit (h : w.Remembers) (hlookup : w.pass.cache.lookup k = some u) :
    ((w.lookUp k).step .countHit).Remembers where
  now := h.now.hit
  balanced := h.balanced
  unfolded := h.unfolded
  resolved := congrArg (· + 1) h.resolved
  lookedUp k' := by
    have hk : k ∈ Event.unfolded w.events :=
      h.unfolded.mem_iff.2 (List.mem_append_right _ (PassState.mem_keys_of_lookup hlookup))
    refine List.mem_cons.trans ((or_congr_right (h.lookedUp k')).trans ?_)
    exact or_iff_right_of_imp fun heq => heq ▸ hk

theorem push (h : w.Remembers) (hlookup : w.pass.cache.lookup k = none)
    (hk : k ∉ w.pass.active) :
    (((w.lookUp k).note (.unfold k)).step (.push k)).Remembers where
  now := h.now.push hlookup hk
  balanced := h.balanced
  unfolded := h.unfolded.cons k
  resolved := congrArg (· + 1) h.resolved
  lookedUp k' := List.mem_cons.trans ((or_congr_right (h.lookedUp k')).trans
    List.mem_cons.symm)

theorem leave (hmemoize : options.memoize = true) (h : w.Remembers) (u : Ty)
    (hactive : w.pass.active = k :: active) : (w.leave options k (some u)).Remembers where
  now := by
    rw [leave_pass]
    exact h.now.finish hmemoize hactive
  balanced := by
    rw [entered_leave]
    exact h.balanced
  unfolded := by
    rw [unfolded_leave, leave_pass]
    exact h.unfolded.trans (PassState.perm_finish hmemoize hactive).symm
  resolved := by
    rw [lookedUp_leave, leave_pass]
    exact Expand.finish_resolved.trans h.resolved
  lookedUp k' := by
    rw [lookedUp_leave, unfolded_leave]
    exact h.lookedUp k'

end Remembers

/-- The account of a pass with a cache. -/
def Account.memoizing {options : ExpansionOptions} (hmemoize : options.memoize = true) :
    Account options where
  Keeps := Remembers
  Shows := Once
  shows := Remembers.once
  enter t h := h.enter t
  hit h hlookup := h.hit hlookup
  refuse _ h := ⟨h.balanced, h.once.nodup⟩
  unfold h hlookup hk := ⟨h.balanced, (h.push hlookup hk).once.nodup⟩
  push h hlookup hk _ := h.push hlookup hk
  leave u _ h hactive := h.leave hmemoize u hactive
  fail _ h _ := ⟨h.balanced, h.nodup⟩

/-- What is kept by a pass without a cache: there are no hits, and every key that is counted
is unfolded at once. -/
structure Unfolds (w : Watch) : Prop where
  cache : w.pass.cache = []
  hits : w.pass.hits = 0
  resolved : w.pass.resolved = (Event.lookedUp w.events).length
  unfolded : Event.unfolded w.events = Event.lookedUp w.events

namespace Unfolds

variable {options : ExpansionOptions} {w : Watch} {k : TemplateKey}

theorem start : Watch.start.Unfolds :=
  ⟨rfl, rfl, rfl, rfl⟩

theorem push (h : w.Unfolds) (k : TemplateKey) :
    (((w.lookUp k).note (.unfold k)).step (.push k)).Unfolds where
  cache := h.cache
  hits := h.hits
  resolved := congrArg (· + 1) h.resolved
  unfolded := congrArg (k :: ·) h.unfolded

theorem leave (hplain : options.memoize = false) (h : w.Unfolds) (k : TemplateKey)
    (u : Ty) : (w.leave options k (some u)).Unfolds where
  cache := by
    rw [leave_pass]
    exact (Expand.finish_cache_plain hplain).trans h.cache
  hits := by
    rw [leave_pass]
    exact Expand.finish_hits.trans h.hits
  resolved := by
    rw [lookedUp_leave, leave_pass]
    exact Expand.finish_resolved.trans h.resolved
  unfolded := by
    rw [lookedUp_leave, unfolded_leave]
    exact h.unfolded

end Unfolds

/-- The account of a pass without a cache. -/
def Account.plain {options : ExpansionOptions} (hplain : options.memoize = false) :
    Account options where
  Keeps := Unfolds
  Shows _ := True
  shows _ := trivial
  enter _ h := ⟨h.cache, h.hits, h.resolved, h.unfolded⟩
  hit h hlookup := absurd hlookup (PassState.lookup_ne_some h.cache)
  refuse _ _ := trivial
  unfold _ _ _ := trivial
  push h _ _ _ := h.push _
  leave u _ h _ := h.leave hplain _ u
  fail _ _ _ := trivial

/-- The counts at the end of a pass, against what has been seen of it. -/
structure Accounted (options : ExpansionOptions) (w : Watch) : Prop where
  resolved : w.pass.resolved = (Event.lookedUp w.events).length
  memoized : options.memoize = true →
    (Event.unfolded w.events).Nodup ∧
      (∀ k, k ∈ Event.lookedUp w.events ↔ k ∈ Event.unfolded w.events) ∧
      (Event.unfolded w.events).Perm w.pass.keys ∧
      w.pass.resolved = w.pass.hits + w.pass.keys.length
  plain : options.memoize = false →
    w.pass.hits = 0 ∧ Event.unfolded w.events = Event.lookedUp w.events

theorem Remembers.accounted {options : ExpansionOptions} {w : Watch} (h : w.Remembers)
    (hmemoize : options.memoize = true) (hactive : w.pass.active = []) :
    w.Accounted options where
  resolved := h.resolved
  memoized _ := by
    have hresolved := h.now.resolved
    have hunfolded := h.unfolded
    rw [hactive] at hresolved hunfolded
    exact ⟨h.once.nodup, h.lookedUp, hunfolded, hresolved⟩
  plain hplain := by simp [hmemoize] at hplain

theorem Unfolds.accounted {options : ExpansionOptions} {w : Watch} (h : w.Unfolds)
    (hplain : options.memoize = false) : w.Accounted options where
  resolved := h.resolved
  memoized hmemoize := by simp [hplain] at hmemoize
  plain _ := ⟨h.hits, h.unfolded⟩

end Watch

namespace Expansion

variable {options : ExpansionOptions} {c c' : Crate} {w : Watch}

/-- A pass over a part of a crate under watch, with an index of the crate as it is before
the pass. -/
def watched (scope : Scope) (options : ExpansionOptions) (c : Crate) :
    Except (Fault ExpansionError) Crate × Watch :=
  c.visit (scope.restrict (Watch.passVisitor (Index.ofCrate c) options)) Watch.start

/-- The record is all that a pass under watch adds to the pass. -/
theorem visit_eq_watched (scope : Scope) (options : ExpansionOptions) (c : Crate) :
    c.visit (scope.restrict (Expand.passVisitor (Index.ofCrate c) options)) PassState.start =
      ((watched scope options c).1, (watched scope options c).2.pass) := by
  cases hoption : options.memoize with
  | true =>
      exact ((Watch.Account.memoizing hoption).pass_viewed .start scope _ c).eq
  | false =>
      exact ((Watch.Account.plain hoption).pass_viewed .start scope _ c).eq

theorem watched_once (hmemoize : options.memoize = true) (scope : Scope) (c : Crate) :
    Watch.Once (watched scope options c).2.events := by
  have h := (Watch.Account.memoizing hmemoize).pass_viewed .start scope (Index.ofCrate c) c
  exact h.right (fun _ hw => hw.2.once) fun _ hw => hw.2

theorem watched_accounted {scope : Scope} (h : watched scope options c = (.ok c', w)) :
    w.Accounted options := by
  cases hoption : options.memoize with
  | true =>
      have hviewed := (Watch.Account.memoizing hoption).pass_viewed .start scope
        (Index.ofCrate c) c
      obtain ⟨hactive, hkeeps⟩ := hviewed.of_ok h
      exact hkeeps.accounted hoption hactive
  | false =>
      have hviewed := (Watch.Account.plain hoption).pass_viewed .start scope
        (Index.ofCrate c) c
      exact (hviewed.of_ok h).2.accounted hoption

/-- The sample has three keys. Seven placeholders with these are counted in its bodies, and
the other four are hits. -/
example : (Event.unfolded (watched .bodies {} Sample.before).2.events).length = 3 ∧
    (Event.lookedUp (watched .bodies {} Sample.before).2.events).length = 7 ∧
    (watched .bodies {} Sample.before).2.pass.hits = 4 := by
  decide

theorem exists_watched (scope : Scope) {s : PassState}
    (h : pass scope options c = .ok (c', s)) :
    ∃ w, watched scope options c = (.ok c', w) ∧ w.pass = s ∧ w.Accounted options := by
  have hvisit := (visit_eq_watched scope options c).symm.trans (pass_ok_iff.1 h)
  obtain ⟨hc, hs⟩ := Prod.ext_iff.1 hvisit
  have hwatched : watched scope options c = (.ok c', (watched scope options c).2) :=
    Prod.ext hc rfl
  exact ⟨_, hwatched, hs, watched_accounted hwatched⟩

end Expansion

namespace Crate

/-- The counts of an expansion account for every key. In each pass the record of what is done
is all that the watch adds, and with a cache the counts are balanced whenever the pass comes
to a type, and no key is unfolded twice, however the pass ends. If the expansion succeeds,
then with a cache each key that was counted was unfolded once, these are the keys in the
cache, and the counts are the hits and one for each of them; without a cache there are no
hits, and every key was unfolded each time that it was counted. -/
theorem expand_accounted (options : ExpansionOptions) (c : Crate) :
    (∀ (scope : Scope) (d : Crate),
      d.visit (scope.restrict (Expand.passVisitor (Index.ofCrate d) options))
          PassState.start =
        ((Expansion.watched scope options d).1, (Expansion.watched scope options d).2.pass) ∧
      (options.memoize = true → Watch.Once (Expansion.watched scope options d).2.events)) ∧
    ∀ c' tally, c.expand options = .ok (c', tally) → ∃ c₁ first second,
      Expansion.watched .bodies options c = (.ok c₁, first) ∧
      Expansion.watched .signatures options c₁ = (.ok c', second) ∧
      tally = ⟨first.pass.resolved, second.pass.resolved,
        first.pass.hits + second.pass.hits⟩ ∧
      first.Accounted options ∧ second.Accounted options := by
  constructor
  · intro scope d
    exact ⟨Expansion.visit_eq_watched scope options d,
      fun hmemoize => Expansion.watched_once hmemoize scope d⟩
  · intro c' tally h
    obtain ⟨c₁, _, _, hbodies, hsignatures, rfl⟩ := expand_ok_iff.1 h
    obtain ⟨first, hfirst, rfl, haccounted⟩ :=
      Expansion.exists_watched .bodies hbodies
    obtain ⟨second, hsecond, rfl, haccounted'⟩ :=
      Expansion.exists_watched .signatures hsignatures
    exact ⟨c₁, first, second, hfirst, hsecond, rfl, haccounted, haccounted'⟩

theorem expand_accounted_sample :
    Sample.before.expand {} = .ok (Sample.after, ⟨7, 3, 4⟩) ∧ ∃ c₁ first second,
      Expansion.watched .bodies {} Sample.before = (.ok c₁, first) ∧
      Expansion.watched .signatures {} c₁ = (.ok Sample.after, second) ∧
      (⟨7, 3, 4⟩ : ExpansionTally) = ⟨first.pass.resolved, second.pass.resolved,
        first.pass.hits + second.pass.hits⟩ ∧
      first.Accounted {} ∧ second.Accounted {} :=
  have hexpand : Sample.before.expand {} = .ok (Sample.after, ⟨7, 3, 4⟩) := rfl
  ⟨hexpand, (expand_accounted {} Sample.before).2 _ _ hexpand⟩

end Crate

end Unerase
