import Mathlib.Data.List.Perm.Basic
import Unerase.Proofs.Expansion.Pass
import Unerase.Proofs.Expansion.Tracing
import Unerase.Proofs.Walk.Places

/-!
The counts of a pass. Without a cache every key that is met is looked up and unfolded each
time (`Ledger.plain`). With a cache each key is unfolded once, and all other lookups are
hits (`Ledger.memoizing`). In both cases the counts depend on what is met at the places of
the crate and not on the order of the places (`Expand.pass_counts`).
-/

namespace Unerase

/-- The keys in the cache. -/
def PassState.keys (s : PassState) : List TemplateKey :=
  s.cache.map Prod.fst

open Tracing

section Ledgers

variable {index : Index} {options : ExpansionOptions} {s s' s₁ s₂ : PassState}
  {k : TemplateKey} {u : Ty} {d e : Trace}

/-- Every key that is met takes a lookup, and none of them is a hit. -/
structure PassState.LooksUp (s s' : PassState) (e : Trace) : Prop where
  resolved : s'.resolved = s.resolved + e.2.card
  hits : s'.hits = s.hits

namespace PassState

theorem LooksUp.trans (h : s.LooksUp s₁ d) (h' : s₁.LooksUp s₂ e) :
    s.LooksUp s₂ (d + e) where
  resolved := by
    rw [h'.resolved, h.resolved, Prod.snd_add, Multiset.card_add, Nat.add_assoc]
  hits := h'.hits.trans h.hits

theorem LooksUp.finish (h : (s.countResolved.push k).LooksUp s₁ e) :
    s.LooksUp (Expand.finish options k u s₁) (1, k ::ₘ e.2) where
  resolved := by
    have hresolved : s₁.resolved = s.resolved + 1 + e.2.card := h.resolved
    rw [Expand.finish_resolved, hresolved, Multiset.card_cons]
    omega
  hits := by
    rw [Expand.finish_hits, h.hits]
    rfl

theorem lookup_ne_some (h : s.cache = []) : s.cache.lookup k ≠ some u := by
  simp [h]

end PassState

theorem Expand.finish_cache_plain (hplain : options.memoize = false) :
    (finish options k u s).cache = s.cache := by
  simp [finish_cache, hplain]

/-- The counts of a pass without a cache. -/
def Ledger.plain (index : Index) (hplain : options.memoize = false) :
    Ledger index options where
  Valid s := s.cache = []
  Covers := PassState.LooksUp
  refl _ := ⟨rfl, rfl⟩
  trans := PassState.LooksUp.trans
  hit h hk := absurd hk (PassState.lookup_ne_some h)
  push h _ _ := h
  finish h hcovers _ := ⟨(Expand.finish_cache_plain hplain).trans h, hcovers.finish⟩

/-- No key is in the cache twice or while it is active, and with a key in the cache all keys
that are met below it are there. -/
structure PassState.Remembers (index : Index) (s : PassState) : Prop where
  nodup : (s.active ++ s.keys).Nodup
  traced : ∀ k u, s.cache.lookup k = some u →
    ∃ e, KeyTraced index k u e ∧ ∀ k' ∈ e.2, k' ∈ s.keys

/-- The lookups between two states are those for the placeholders in the types themselves,
and those for every key that is new in the cache. The lookups that are not for new keys are
hits. -/
structure PassState.Spends (index : Index) (s s' : PassState) (e : Trace) : Prop where
  active : s'.active = s.active
  mem : ∀ k, k ∈ s'.keys ↔ k ∈ s.keys ∨ k ∈ e.2
  resolved : s'.resolved + (s.keys.map (cost index)).sum =
    s.resolved + e.1 + (s'.keys.map (cost index)).sum
  hits : s'.resolved + s.hits + s.keys.length = s.resolved + s'.hits + s'.keys.length

theorem PassState.mem_keys_of_lookup (h : s.cache.lookup k = some u) : k ∈ s.keys := by
  obtain ⟨before, after, hcache, -⟩ := List.lookup_eq_some_iff.1 h
  simp [keys, hcache]

theorem PassState.not_mem_keys_of_lookup (h : s.cache.lookup k = none) : k ∉ s.keys := by
  intro hmem
  obtain ⟨entry, hentry, rfl⟩ := List.mem_map.1 hmem
  simpa using List.lookup_eq_none_iff.1 h entry hentry

theorem Expand.finish_keys (hmemoize : options.memoize = true) :
    (finish options k u s).keys = k :: s.keys := by
  simp [PassState.keys, finish_cache, hmemoize]

namespace PassState

theorem nodup_push (h : (s.active ++ s.keys).Nodup) (hnone : s.cache.lookup k = none)
    (hactive : k ∉ s.active) : (k :: s.active ++ s.keys).Nodup := by
  have hk : k ∉ s.active ++ s.keys := by
    rw [List.mem_append]
    rintro (hmem | hmem)
    · exact hactive hmem
    · exact not_mem_keys_of_lookup hnone hmem
  exact List.nodup_cons.2 ⟨hk, h⟩

theorem perm_finish (hmemoize : options.memoize = true) {active : List TemplateKey}
    (hactive : s.active = k :: active) :
    ((Expand.finish options k u s).active ++ (Expand.finish options k u s).keys).Perm
      (s.active ++ s.keys) := by
  rw [Expand.finish_active, Expand.finish_keys hmemoize, hactive]
  exact List.perm_middle

theorem Spends.refl (s : PassState) : s.Spends index s 0 :=
  ⟨rfl, by simp, by simp, rfl⟩

theorem Spends.trans (h : s.Spends index s₁ d) (h' : s₁.Spends index s₂ e) :
    s.Spends index s₂ (d + e) where
  active := h'.active.trans h.active
  mem k := by rw [h'.mem, h.mem, Prod.snd_add, Multiset.mem_add, or_assoc]
  resolved := by
    have := h.resolved
    have := h'.resolved
    rw [Prod.fst_add]
    omega
  hits := by
    have := h.hits
    have := h'.hits
    omega

theorem Remembers.hit (h : s.Remembers index) (hk : s.cache.lookup k = some u) :
    ∃ e, KeyTraced index k u e ∧ s.countResolved.countHit.Remembers index ∧
      s.Spends index s.countResolved.countHit (1, k ::ₘ e.2) := by
  obtain ⟨e, htraced, hbelow⟩ := h.traced k u hk
  refine ⟨e, htraced, ⟨h.nodup, h.traced⟩, ⟨rfl, fun k' => ?_, ?_, ?_⟩⟩
  · have hkey := mem_keys_of_lookup hk
    rw [Multiset.mem_cons]
    constructor
    · exact Or.inl
    · rintro (hmem | rfl | hmem)
      · exact hmem
      · exact hkey
      · exact hbelow k' hmem
  · rfl
  · simp only [countHit, countResolved, keys]
    omega

theorem Remembers.push (h : s.Remembers index) (hnone : s.cache.lookup k = none)
    (hactive : k ∉ s.active) : (s.countResolved.push k).Remembers index where
  nodup := nodup_push h.nodup hnone hactive
  traced := h.traced

variable (hmemoize : options.memoize = true)
  (hspends : (s.countResolved.push k).Spends index s₁ e)

include hmemoize hspends

theorem Remembers.finish (h : s₁.Remembers index) (hk : KeyTraced index k u e) :
    (Expand.finish options k u s₁).Remembers index where
  nodup := (perm_finish hmemoize hspends.active).nodup_iff.2 h.nodup
  traced := by
    intro k' u' hk'
    rw [Expand.finish_keys hmemoize]
    rcases Expand.lookup_finish hk' with ⟨rfl, rfl⟩ | hk'
    · exact ⟨e, hk, fun k'' hmem =>
        List.mem_cons_of_mem _ ((hspends.mem k'').2 (.inr hmem))⟩
    · obtain ⟨e', htraced, hbelow⟩ := h.traced k' u' hk'
      exact ⟨e', htraced, fun k'' hmem => List.mem_cons_of_mem _ (hbelow k'' hmem)⟩

theorem Spends.finish (hk : KeyTraced index k u e) :
    s.Spends index (Expand.finish options k u s₁) (1, k ::ₘ e.2) where
  active := by
    have hactive : s₁.active = k :: s.active := hspends.active
    rw [Expand.finish_active, hactive, List.tail_cons]
  mem k' := by
    have hmem : k' ∈ s₁.keys ↔ k' ∈ s.keys ∨ k' ∈ e.2 := hspends.mem k'
    rw [Expand.finish_keys hmemoize, List.mem_cons, Multiset.mem_cons, hmem]
    exact or_left_comm
  resolved := by
    have hresolved : s₁.resolved + (s.keys.map (cost index)).sum =
        s.resolved + 1 + e.1 + (s₁.keys.map (cost index)).sum := hspends.resolved
    rw [Expand.finish_resolved, Expand.finish_keys hmemoize, List.map_cons, List.sum_cons,
      hk.cost_eq]
    omega
  hits := by
    have hhits : s₁.resolved + s.hits + s.keys.length =
        s.resolved + 1 + s₁.hits + s₁.keys.length := hspends.hits
    rw [Expand.finish_resolved, Expand.finish_hits, Expand.finish_keys hmemoize,
      List.length_cons]
    omega

end PassState

/-- The counts of a pass with a cache. -/
def Ledger.memoizing (index : Index) (hmemoize : options.memoize = true) :
    Ledger index options where
  Valid := PassState.Remembers index
  Covers := PassState.Spends index
  refl := PassState.Spends.refl
  trans := PassState.Spends.trans
  hit := PassState.Remembers.hit
  push := PassState.Remembers.push
  finish h hspends hk := ⟨h.finish hmemoize hspends hk, hspends.finish hmemoize hk⟩

end Ledgers

/-! ### A pass over a crate -/

theorem Tracing.visitor_forTypes (index : Index) (bound : Nat) :
    (visitor index bound).ForTypes :=
  ⟨fun _ => rfl, fun _ => rfl, rfl⟩

/-- What is met at a place by a pass over the given part of a crate. -/
def Place.Traced (scope : Scope) (index : Index) : Place → Trace → Prop
  | .type t, e => ∃ bound u, t.visit (scope.restrict (visitor index bound)) 0 = (.ok u, e)
  | .body b, e =>
      ∃ bound b', (scope.restrict (visitor index bound)).body b 0 = (.ok b', e)

theorem Place.Traced.unique {scope : Scope} {index : Index} {p : Place} {d e : Trace}
    (hd : p.Traced scope index d) (he : p.Traced scope index e) : d = e := by
  cases p with
  | type t =>
      obtain ⟨m, u, hd⟩ := hd
      obtain ⟨n, v, he⟩ := he
      refine (trace_unique (x := fun bound =>
        t.visit (scope.restrict (visitor index bound))) (fun m n hle => ?_) hd he).2
      exact scope.type_same (visit_continues hle) t
  | body b =>
      obtain ⟨m, c, hd⟩ := hd
      obtain ⟨n, c', he⟩ := he
      refine (trace_unique (x := fun bound =>
        (scope.restrict (visitor index bound)).body b) (fun m n hle => ?_) hd he).2
      exact scope.body_same (visit_continues hle) (Run.following_keepsFaults Eq)
        (visitor_forTypes index m) (fun _ => visitor_forTypes index n) b

namespace Ledger

variable {index : Index} {options : ExpansionOptions} (A : Ledger index options)
  (scope : Scope)

/-- The state is valid, and since the start was met what there is at the given places. -/
def AtPlaces (start s : PassState) (places : List Place) : Prop :=
  ∃ es, List.Forall₂ (Place.Traced scope index) places es ∧ A.Since start s es.sum

theorem place_covers {α β : Type} {start : PassState} (place : Place)
    {x : Run (Fault ExpansionError) PassState α}
    {y : Nat → Run (Fault ExpansionError) Trace α}
    {z : Run (Fault Empty) (List Place) β} {a : β}
    (hxy : ∀ start, (Run.following (Fault ExpansionError) (Fault ExpansionError)
      (A.Since start)).Holds Eq x y)
    (hy : ∀ bound b e, y bound 0 = (.ok b, e) → place.Traced scope index e)
    (hz : z.Collects a [place]) :
    (Run.following (Fault ExpansionError) (Fault Empty) (A.AtPlaces scope start)).Holds
      (fun _ _ => True) x fun _ => z := by
  rintro s places ⟨_, -, hvalid, -⟩ b s₁ hx
  have hstart : A.Since s s 0 := A.since_start hvalid
  obtain ⟨_, rfl, n, hn⟩ := hxy s s 0 hstart b s₁ hx
  obtain ⟨e, htrace, hvalid', hcovers⟩ := hn n (Nat.le_refl n) 0 hstart
  refine ⟨a, trivial, 0, fun _ _ before hbefore => ⟨_, hz before, ?_⟩⟩
  obtain ⟨es, hes, -, hcovers'⟩ := hbefore
  refine ⟨es ++ [e], ?_, hvalid', ?_⟩
  · exact List.rel_append hes (.cons (hy n b e htrace) .nil)
  · rw [List.sum_append, List.sum_singleton]
    exact A.trans hcovers' hcovers

variable {c c' : Crate} {s : PassState}

theorem pass_covers (hstart : A.Valid PassState.start)
    (h : c.visit (scope.restrict (Expand.passVisitor index options)) PassState.start =
      (.ok c', s)) :
    A.AtPlaces scope PassState.start s c.places := by
  have types (start : PassState) (t : Ty) :
      (Run.following (Fault ExpansionError) (Fault ExpansionError)
        (A.Since start)).Holds Eq (t.visit (Expand.passVisitor index options))
          fun bound => t.visit (visitor index bound) := by
    rw [Expand.visit_passVisitor]
    exact A.typeWithin_covers options.maxDepth start t
  have hv := Expand.passVisitor_forTypes index options
  have hc : c.Rel Eq Eq c := by rw [Crate.rel_eq]
  have hfollow := Crate.visit_related (R := fun _ _ => True) (B := fun _ _ => True)
    (L := Run.following (Fault ExpansionError) (Fault Empty)
      (A.AtPlaces scope PassState.start))
    (w := fun _ => .collecting) (scope.restrict_entersAll hv.entersAll)
    (fun _ => Visitor.collecting_entersAll) ?types ?bodies hc
  case types =>
    rintro t _ rfl
    exact A.place_covers scope (.type t) (fun start => scope.type_same (types start) t)
      (fun bound u e he => ⟨bound, u, he⟩) (Visitor.visit_collects t)
  case bodies =>
    rintro b _ rfl
    exact A.place_covers scope (.body b) (fun start => scope.body_same (types start)
        (Run.following_keepsFaults _) hv (visitor_forTypes index) b)
      (fun bound b' e he => ⟨bound, b', he⟩) (a := b) fun before => rfl
  have hbegin : A.AtPlaces scope PassState.start PassState.start [] :=
    ⟨[], .nil, A.since_start hstart⟩
  obtain ⟨_, -, n, hn⟩ := hfollow PassState.start [] hbegin c' s h
  obtain ⟨places, hplaces, hend⟩ := hn n (Nat.le_refl n) [] hbegin
  cases (c.visit_collects []).symm.trans hplaces
  exact hend

end Ledger

/-- The counts of a pass that has met the given trace. -/
structure Trace.Counts (index : Index) (options : ExpansionOptions) (e : Trace)
    (s : PassState) : Prop where
  plain : options.memoize = false → s.resolved = e.2.card ∧ s.hits = 0
  memoized : options.memoize = true →
    s.resolved = e.1 + (e.2.dedup.map (cost index)).sum ∧
      s.resolved = s.hits + e.2.dedup.card

theorem Trace.Counts.unique {index : Index} {options options' : ExpansionOptions}
    {e : Trace} {s s' : PassState} (hmemoize : options.memoize = options'.memoize)
    (h : e.Counts index options s) (h' : e.Counts index options' s') :
    s.resolved = s'.resolved ∧ s.hits = s'.hits := by
  cases hoption : options.memoize with
  | false =>
      obtain ⟨hresolved, hhits⟩ := h.plain hoption
      obtain ⟨hresolved', hhits'⟩ := h'.plain (hmemoize ▸ hoption)
      exact ⟨hresolved.trans hresolved'.symm, hhits.trans hhits'.symm⟩
  | true =>
      obtain ⟨hresolved, hhits⟩ := h.memoized hoption
      obtain ⟨hresolved', hhits'⟩ := h'.memoized (hmemoize ▸ hoption)
      constructor <;> omega

theorem PassState.Remembers.keys_eq {index : Index} {s : PassState} {e : Trace}
    (h : s.Remembers index) (hspends : start.Spends index s e) :
    (s.keys : Multiset TemplateKey) = e.2.dedup := by
  have hnodup : s.keys.Nodup := (List.nodup_append.1 h.nodup).2.1
  have hmem (k : TemplateKey) : k ∈ (s.keys : Multiset TemplateKey) ↔ k ∈ e.2 := by
    rw [Multiset.mem_coe, hspends.mem]
    simp [start, keys]
  rw [← Multiset.dedup_eq_self.2 (Multiset.coe_nodup.2 hnodup)]
  exact Multiset.dedup_ext.2 hmem

namespace Expand

variable {index : Index} {options : ExpansionOptions} {c c' d d' : Crate}
  {s s' : PassState}

theorem pass_traced (scope : Scope)
    (h : c.visit (scope.restrict (passVisitor index options)) PassState.start =
      (.ok c', s)) :
    ∃ es, List.Forall₂ (Place.Traced scope index) c.places es ∧
      Trace.Counts index options es.sum s := by
  cases hoption : options.memoize with
  | false =>
      obtain ⟨es, hes, -, hresolved, hhits⟩ :=
        (Ledger.plain index hoption).pass_covers scope rfl h
      refine ⟨es, hes, ⟨fun _ => ⟨?_, hhits⟩, by simp [hoption]⟩⟩
      simpa [PassState.start] using hresolved
  | true =>
      have hstart : PassState.start.Remembers index :=
        ⟨List.nodup_nil, fun k u hk => by simp [PassState.start] at hk⟩
      obtain ⟨es, hes, hremembers, hspends⟩ :=
        (Ledger.memoizing index hoption).pass_covers scope hstart h
      have hkeys : (s.keys : Multiset TemplateKey) = es.sum.2.dedup :=
        hremembers.keys_eq hspends
      have hresolved := hspends.resolved
      have hhits := hspends.hits
      refine ⟨es, hes, ⟨by simp [hoption], fun _ => ?_⟩⟩
      rw [← hkeys, Multiset.map_coe, Multiset.sum_coe, Multiset.coe_card]
      simp only [PassState.start, PassState.keys, List.map_nil, List.sum_nil,
        List.length_nil] at hresolved hhits ⊢
      constructor <;> omega

/-- The counts do not depend on the order of the places, nor on the depth limit. -/
theorem pass_counts (scope : Scope) {options' : ExpansionOptions}
    (hmemoize : options.memoize = options'.memoize) (hplaces : c.places.Perm d.places)
    (hc : c.visit (scope.restrict (passVisitor index options)) PassState.start =
      (.ok c', s))
    (hd : d.visit (scope.restrict (passVisitor index options')) PassState.start =
      (.ok d', s')) :
    s.resolved = s'.resolved ∧ s.hits = s'.hits := by
  obtain ⟨es, hes, hcounts⟩ := pass_traced scope hc
  obtain ⟨es', hes', hcounts'⟩ := pass_traced scope hd
  have hunique : Relator.RightUnique (Place.Traced scope index) :=
    fun _ _ _ => Place.Traced.unique
  have hperm : es.Perm es' := List.rel_perm_imp hunique hes hes' hplaces
  rw [← hperm.sum_eq] at hcounts'
  exact hcounts.unique hmemoize hcounts'

end Expand

end Unerase
