import Unerase.Proofs.Expansion.Height
import Unerase.Proofs.Expansion.LargerLimit
import Unerase.Proofs.Expansion.Limit
import Unerase.Proofs.Expansion.Memoization
import Unerase.Proofs.Expansion.Termination

/-!
What it means that keys are nested in each other. A key needs another one if what it stands
for cannot be expanded without the other one (`Index.Needs`). The keys that are active
in a pass are a chain in which each key needs the next one. So a key that is reported as a
cycle needs itself, and a key for which there is no room stands at the end of a chain that
is as long as the limit and does not come to any key twice (`Crate.expand_nesting`).
-/

namespace Unerase

/-- In order to expand the type, the expansion has to expand the key. -/
inductive Ty.Meets (index : Index) : Ty → TemplateKey → Prop
  | part {t u : Ty} {k : TemplateKey} :
      t.isErased = false → u ∈ t.parts → Ty.Meets index u k → Ty.Meets index t k
  | origin {origin : Path} {i : Nat} {bounds : List ItemRef} {u : Ty} {k : TemplateKey} :
      u ∈ origin.parts → Ty.Meets index u k → Ty.Meets index (.erased origin i bounds) k
  | key {origin origin' : Path} {i : Nat} {bounds : List ItemRef} :
      origin.Rel (Expands index) origin' →
      Ty.Meets index (.erased origin i bounds) ⟨origin', i⟩

/-- The second key has to be expanded within the first one. -/
def Index.Needs (index : Index) (k k' : TemplateKey) : Prop :=
  ∃ t, index.unfold k = .ok t ∧ t.Meets index k'

/-- In order to expand the type, the expansion has to expand the keys inside each other, and
the last key inside all of them. -/
inductive Ty.Nests (index : Index) : Ty → List TemplateKey → TemplateKey → Prop
  | here {t : Ty} {k : TemplateKey} : t.Meets index k → Ty.Nests index t [] k
  | inside {t u : Ty} {k last : TemplateKey} {keys : List TemplateKey} :
      t.Meets index k → index.unfold k = .ok u → Ty.Nests index u keys last →
      Ty.Nests index t (k :: keys) last

namespace Ty.Nests

variable {index : Index} {t u : Ty} {keys : List TemplateKey} {k last : TemplateKey}

theorem mono (h : u.Nests index keys last) (hmeets : ∀ k, u.Meets index k → t.Meets index k) :
    t.Nests index keys last := by
  cases h with
  | here hu => exact .here (hmeets _ hu)
  | inside hu hunfold h => exact .inside (hmeets _ hu) hunfold h

theorem needs (h : t.Nests index keys last) (hunfold : index.unfold k = .ok t) :
    Relation.TransGen index.Needs k last := by
  induction h generalizing k with
  | here ht => exact .single ⟨_, hunfold, ht⟩
  | inside ht hunfold' _ ih => exact .head ⟨_, hunfold, ht⟩ (ih hunfold')

theorem needs_of_mem (h : t.Nests index keys last) (hk : k ∈ keys) :
    Relation.TransGen index.Needs k last := by
  induction h with
  | here => cases hk
  | inside _ hunfold h ih =>
      rcases List.mem_cons.1 hk with rfl | hk
      · exact h.needs hunfold
      · exact ih hk

end Ty.Nests

/-- The keys that stand behind an error of the expansion of a type, when some keys are active
and there is room for so many more. -/
structure Fault.Founded (index : Index) (options : ExpansionOptions) (room : Nat)
    (active : List TemplateKey) (t : Ty) (fault : Fault ExpansionError) : Prop where
  cycle : ∀ k, fault = .error (.cycle k) →
    ∃ keys, t.Nests index keys k ∧ k ∈ keys ++ active
  tooDeep : ∀ k limit, fault = .error (.tooDeep k limit) → limit = options.maxDepth ∧
    ∃ keys, t.Nests index keys k ∧ keys.length = room ∧ (keys ++ k :: active).Nodup

namespace Fault.Founded

variable {index : Index} {options : ExpansionOptions} {room : Nat}
  {active : List TemplateKey} {t u : Ty} {k : TemplateKey} {fault : Fault ExpansionError}

theorem of_isLocal (h : fault.IsLocal) : fault.Founded index options room active t := by
  obtain ⟨e, rfl, he⟩ := h
  constructor
  · rintro k ⟨⟩
    exact he.elim
  · rintro k limit ⟨⟩
    exact he.elim

theorem mono (h : fault.Founded index options room active u)
    (hmeets : ∀ k, u.Meets index k → t.Meets index k) :
    fault.Founded index options room active t where
  cycle k hk := by
    obtain ⟨keys, hkeys, hmem⟩ := h.cycle k hk
    exact ⟨keys, hkeys.mono hmeets, hmem⟩
  tooDeep k limit hk := by
    obtain ⟨hlimit, keys, hkeys, hlength, hnodup⟩ := h.tooDeep k limit hk
    exact ⟨hlimit, keys, hkeys.mono hmeets, hlength, hnodup⟩

theorem below (ht : t.Meets index k) (hunfold : index.unfold k = .ok u)
    (h : fault.Founded index options room (k :: active) u) :
    fault.Founded index options (room + 1) active t where
  cycle last hlast := by
    obtain ⟨keys, hkeys, hmem⟩ := h.cycle last hlast
    exact ⟨k :: keys, .inside ht hunfold hkeys, List.perm_middle.mem_iff.1 hmem⟩
  tooDeep last limit hlast := by
    obtain ⟨hlimit, keys, hkeys, hlength, hnodup⟩ := h.tooDeep last limit hlast
    have hperm : (keys ++ last :: k :: active).Perm (k :: keys ++ last :: active) := by
      simpa using (List.perm_middle : (keys ++ [last] ++ k :: active).Perm
        (k :: (keys ++ [last] ++ active)))
    exact ⟨hlimit, k :: keys, .inside ht hunfold hkeys, congrArg (· + 1) hlength,
      hperm.nodup_iff.1 hnodup⟩

end Fault.Founded

namespace Expand

variable {index : Index} {options : ExpansionOptions} {room least : Nat}
  {active : List TemplateKey} {s s' : PassState} {origin origin' : Path} {i : Nat}
  {t u : Ty} {k : TemplateKey} {fault : Fault ExpansionError}

theorem answer_ok (hs : Steady index options active least s)
    (h : answer index options room origin i s = (.ok u, s')) :
    Steady index options active least s' := by
  rcases answer_ok_iff.1 h with ⟨hhit, rfl⟩ | ⟨-, -, less, t, s₁, rfl, hunfold, ht, rfl⟩
  · exact hs.hit hhit
  · obtain ⟨⟨bound, hbound⟩, hs₁⟩ := typeWithin_ok (hs.push ⟨origin, i⟩) ht
    exact hs₁.finish ⟨bound + 1, Unfolding.key_succ_iff.2 ⟨t, hunfold, hbound⟩⟩

theorem origin_expands (hs : Steady index options active least s)
    (h : origin.visit (.replacing (answer index options room)) s = (.ok origin', s')) :
    origin.Rel (Expands index) origin' := by
  have types (t u : Ty) (htu : t = u) :
      (Run.following (Fault ExpansionError) (Fault ExpansionError)
        fun s (_ : Unit) => Steady index options active least s).Holds Eq
        (t.visit (.replacing (answer index options room)))
        fun bound => u.visit (Unfolding.visitor index bound) := by
    rw [← htu, ← typeWithin_eq_replacing]
    exact typeWithin_unfolding room active least t
  have hself : origin.Rel Eq origin := by rw [Path.rel_eq]
  have hfollow := Path.visit_related (Visitor.replacing_thorough _).entersAll
    (Unfolding.entersAll index) types hself
  rw [Path.rel_eq] at hfollow
  obtain ⟨_, rfl, n, hn⟩ := hfollow s () hs origin' s' h
  obtain ⟨⟨⟩, h', -⟩ := hn n (Nat.le_refl n) () hs
  exact Unfolding.origin_expands h'

/-- What stops an expansion of the type, with so much room, has its reason in the type. -/
def StopsFounded (index : Index) (options : ExpansionOptions) (room : Nat)
    (active : List TemplateKey) (least : Nat) (t : Ty) : Prop :=
  (typeWithin index options room t).Guards (Steady index options active least)
    (Fault.Founded index options room active t)

theorem answer_founded (hactive : active.Nodup) (ht : t.Meets index ⟨origin, i⟩)
    (hless : ∀ less < room, ∀ k ∉ active, ∀ u,
      StopsFounded index options less (k :: active) (least + 1) u) :
    (answer index options room origin i).Guards (Steady index options active least)
      (Fault.Founded index options room active t) := by
  intro s hs
  refine ⟨fun u s₁ h => answer_ok hs h, fun fault s₁ h => ?_⟩
  obtain rfl := hs.active
  cases noAnswer h with
  | cycle hk =>
      constructor
      · rintro _ ⟨⟩
        exact ⟨[], .here ht, hk⟩
      · rintro _ _ ⟨⟩
  | tooDeep hk hroom =>
      constructor
      · rintro _ ⟨⟩
      · rintro _ _ ⟨⟩
        exact ⟨rfl, [], .here ht, hroom.symm, List.nodup_cons.2 ⟨hk, hactive⟩⟩
  | unfold hunfold => exact .of_isLocal (Index.unfold_error hunfold)
  | @below _ less u s₂ hk hroom hunfold hfault =>
      subst hroom
      have hbelow := hless less (Nat.lt_succ_self less) _ hk u _ (hs.push _)
      exact .below ht hunfold (hbelow.2 fault s₂ hfault)

namespace StopsFounded

theorem visit_related (hmeets : ∀ k, u.Meets index k → t.Meets index k)
    (h : StopsFounded index options room active least u) :
    (Run.guarded Unit (Steady index options active least)
      (Fault.Founded index options room active t)).Holds Eq
      (u.visit (.replacing (answer index options room)))
      fun _ => u.visit (.replacing (answer index options room)) := by
  rw [← typeWithin_eq_replacing]
  exact Run.guarded_weaken (fun _ hfault => hfault.mono hmeets) (Run.guarded_self_iff.2 h)

theorem of_parts (ht : t.isErased = false)
    (h : ∀ u ∈ t.parts, StopsFounded index options room active least u) :
    StopsFounded index options room active least t := by
  have hv := Visitor.replacing_thorough (answer index options room)
  have hself : Ty.Parts (fun u u' => u = u' ∧ u ∈ t.parts) t t :=
    Ty.Parts.of_parts ht fun u hu => ⟨rfl, hu⟩
  rw [StopsFounded, typeWithin_eq_replacing, hv.visit]
  refine Run.guarded_self_iff.1 (Run.Comparison.mono (fun _ _ => Ty.Parts.eq)
    (Ty.walk_related hv.entersAll (fun _ => hv.entersAll) ?_ hself))
  rintro u _ ⟨rfl, hu⟩
  exact (h u hu).visit_related fun k => .part ht hu

theorem of_origin (hactive : active.Nodup) {bounds : List ItemRef}
    (h : ∀ u ∈ origin.parts, StopsFounded index options room active least u)
    (hless : ∀ less < room, ∀ k ∉ active, ∀ u,
      StopsFounded index options less (k :: active) (least + 1) u) :
    StopsFounded index options room active least (.erased origin i bounds) := by
  have hv := Visitor.replacing_thorough (answer index options room)
  have hself : origin.Rel (fun u u' => u = u' ∧ u ∈ origin.parts) origin :=
    Path.rel_of_parts fun u hu => ⟨rfl, hu⟩
  have hpath := Path.visit_related (R := Eq)
    (L := Run.guarded Unit (Steady index options active least)
      (Fault.Founded index options room active (.erased origin i bounds)))
    hv.entersAll (fun _ => hv.entersAll) ?types hself
  case types =>
    rintro u _ ⟨rfl, hu⟩
    exact (h u hu).visit_related fun k => .origin hu
  rw [Path.rel_eq] at hpath
  rw [StopsFounded, typeWithin_eq_replacing, hv.visit]
  -- The key is the one of the expanded origin.
  refine Run.guarded_self_iff.1 (Run.Comparison.bind _
    (Run.guarded_and (fun s p s₁ hs hp => origin_expands hs hp) hpath) ?_)
  rintro origin' _ ⟨rfl, horigin'⟩
  exact Run.guarded_self_iff.2 (answer_founded hactive (.key horigin') hless)

end StopsFounded

/-- An expansion of a type that stops has found keys nested in each other. The induction goes
over the room, and for each room over the types: the faults of a part are faults of the type,
and the faults of what a key stands for are those of the key. -/
theorem typeWithin_founded (room : Nat) (active : List TemplateKey) (least : Nat)
    (hactive : active.Nodup) (t : Ty) : StopsFounded index options room active least t := by
  induction room using Nat.strongRecOn generalizing active least t with
  | ind room ih =>
      have hereditary : Ty.Hereditary fun t _ =>
          StopsFounded index options room active least t := by
        constructor
        · intro t h
          have hparts := List.forall₂_same.1 h.parts
          exact .of_parts h.isErased hparts
        · intro origin i bounds h _
          have hparts := List.forall₂_same.1 h.parts
          apply StopsFounded.of_origin hactive hparts
          intro less hless k hk u
          exact ih less hless _ _ (List.nodup_cons.2 ⟨hk, hactive⟩) u
      exact hereditary.ty t

end Expand

variable {options : ExpansionOptions} {c : Crate}

/-- An error of a pass has its reason in a type that the pass comes to. -/
theorem Expansion.pass_founded {scope : Scope} {e : ExpansionError}
    (h : pass scope options c = .error (.error e)) (hc : ∀ b ∈ scope.bodiesOf c, b.Acyclic) :
    ∃ t, scope.Uses c t ∧
      Fault.Founded (Index.ofCrate c) options options.maxDepth [] t (.error e) := by
  obtain ⟨s, hs⟩ := pass_error_iff.1 h
  have hv := Expand.passVisitor_forTypes (Index.ofCrate c) options
  have hvisit := scope.visit_guarded (c := c) (Q := fun t => t.hasErased = false)
    (I := Expand.Steady (Index.ofCrate c) options [] 0)
    (P := fun fault => ∀ e, fault = .error e → ∃ t, scope.Uses c t ∧
      Fault.Founded (Index.ofCrate c) options options.maxDepth [] t fault)
    hv.entersAll (fun _ : Unit => hv.entersAll) hv.body (fun _ => hv.body)
    (fun _ => hv.patience) hc ?types (fun _ _ _ _ _ _ h => by cases h)
    () PassState.start Expand.steady_start
  case types =>
    rintro t (ht | ht)
    · rw [Ty.VisitsAlike, Expand.visit_passVisitor]
      refine Run.guarded_and (fun s t' s₁ hs ht' => ?_)
        (Run.guarded_weaken (fun _ hfault _ _ => ⟨t, ht, hfault⟩)
          (Run.guarded_self_iff.2
            (Expand.typeWithin_founded options.maxDepth [] 0 List.nodup_nil t)))
      obtain ⟨⟨bound, hbound⟩, -⟩ := Expand.typeWithin_ok hs ht'
      exact (Unfolding.visit_expands hbound).hasErased
    · rw [Ty.VisitsAlike, Expand.visit_of_hasErased ht]
      exact Run.Comparison.pure _ ⟨rfl, ht⟩
  rw [hs] at hvisit
  exact hvisit.of_error e rfl

/-! ### A crate with a circle of placeholders -/

namespace Sample

/-- What the function returns. -/
def result (name : String) : Ty :=
  .erased (.item ⟨⟨"sample", [name]⟩, ⟨[], []⟩⟩) 0 []

/-- A function that hides what the other function returns. -/
def hides (other : String) : Item :=
  .function ⟨⟨[], [], []⟩, [], .never, some (bodyHiding (result other))⟩

/-- The functions `ping` and `pong` hide what the other one returns. -/
def circular : Crate where
  name := "sample"
  items := ⟨[("ping", hides "pong"), ("pong", hides "ping")]⟩
  inherentImpls := []
  traitImpls := []

theorem circular_wellFormed : circular.WellFormed := by
  intro b hb
  rcases List.mem_pair.1 hb with rfl | rfl
  · exact bodyHiding_wellFormed (result "pong")
  · exact bodyHiding_wellFormed (result "ping")

end Sample

namespace Crate

/-- An expansion of the crate comes to the type in a pass with the index. -/
inductive ComesTo (c : Crate) : Index → Ty → Prop
  | body {b : Body} {t : Ty} : b ∈ c.bodies → b.Uses t → ComesTo c (Index.ofCrate c) t
  | signature {c₁ : Crate} {t : Ty} :
      c.Extracts c₁ → t ∈ c₁.types → ComesTo c (Index.ofCrate c₁) t

theorem expand_founded (hc : ∀ b ∈ c.bodies, b.Acyclic) {e : ExpansionError}
    (h : c.expand options = .error (.error e)) :
    ∃ index t, c.ComesTo index t ∧
      Fault.Founded index options options.maxDepth [] t (.error e) := by
  rcases expand_error_iff.1 h with hbodies | ⟨c₁, first, hfirst, hsignatures⟩
  · obtain ⟨t, ⟨b, hb, ht⟩, hfounded⟩ := Expansion.pass_founded hbodies hc
    exact ⟨_, t, .body hb ht, hfounded⟩
  · have hnone : ∀ b ∈ Scope.signatures.bodiesOf c₁, b.Acyclic := by simp
    obtain ⟨t, ht, hfounded⟩ := Expansion.pass_founded hsignatures hnone
    exact ⟨_, t, .signature ⟨options, first, hfirst⟩ ht, hfounded⟩

/-- No limit is large enough for a cycle, with a cache or without. -/
theorem not_ok_of_cycle {k : TemplateKey} (h : c.expand options = .error (.error (.cycle k)))
    (options' : ExpansionOptions) : ¬ ∃ out, c.expand options' = .ok out := by
  intro hok
  obtain ⟨least, hleast⟩ := exists_limit_of_ok hok
  obtain ⟨memoize, limit⟩ := options
  obtain ⟨out, hout⟩ := hleast ⟨memoize, max least limit⟩ (Nat.le_max_left least limit)
  rcases expand_tooDeep_or_eq (Nat.le_max_right least limit) memoize c with
    ⟨fault, hfault, k', hdeep⟩ | heq
  · rw [h, hdeep] at hfault
    cases hfault
  · rw [heq, h] at hout
    cases hout

theorem WellFormed.expand_ok_or_error (hc : c.WellFormed) (options : ExpansionOptions) :
    (∃ out, c.expand options = .ok out) ∨ ∃ e, c.expand options = .error (.error e) := by
  cases h : c.expand options with
  | ok out => exact .inl ⟨out, rfl⟩
  | error fault =>
      cases expand_justified (fun b hb => (hc b hb).to_acyclic) h with
      | error e => exact .inr ⟨e, rfl⟩
      | outOfBounds hb hid hlength =>
          exact absurd ((hc _ hb).inBounds _ hid) (Nat.not_lt.2 hlength)

/-- A key that is reported as a cycle needs itself, so that the crate cannot be expanded with
any options. A key that is reported as too deep is nested in as many keys as the limit says,
and all of them are different. -/
theorem expand_nesting (hc : c.WellFormed) (options : ExpansionOptions) :
    (∀ k, c.expand options = .error (.error (.cycle k)) →
      (∃ index t keys, c.ComesTo index t ∧ t.Nests index keys k ∧
        Relation.TransGen index.Needs k k) ∧
      ∀ options', ∃ e, c.expand options' = .error (.error e)) ∧
    ∀ k limit, c.expand options = .error (.error (.tooDeep k limit)) →
      limit = options.maxDepth ∧ ∃ index t keys, c.ComesTo index t ∧
        t.Nests index keys k ∧ keys.length = limit ∧ (keys ++ [k]).Nodup := by
  have hacyclic : ∀ b ∈ c.bodies, b.Acyclic := fun b hb => (hc b hb).to_acyclic
  constructor
  · intro k h
    constructor
    · obtain ⟨index, t, ht, hfounded⟩ := expand_founded hacyclic h
      obtain ⟨keys, hkeys, hmem⟩ := hfounded.cycle k rfl
      rw [List.append_nil] at hmem
      exact ⟨index, t, keys, ht, hkeys, hkeys.needs_of_mem hmem⟩
    · intro options'
      exact (hc.expand_ok_or_error options').resolve_left (not_ok_of_cycle h options')
  · intro k limit h
    obtain ⟨index, t, ht, hfounded⟩ := expand_founded hacyclic h
    obtain ⟨rfl, keys, hkeys, hlength, hnodup⟩ := hfounded.tooDeep k limit rfl
    exact ⟨rfl, index, t, keys, ht, hkeys, hlength, hnodup⟩

/-- Functions that hide each other are a cycle, and a function that hides itself at a larger
type comes to ever new keys. -/
theorem expand_nesting_samples :
    Sample.circular.WellFormed ∧
      (∃ k, Sample.circular.expand {} = .error (.error (.cycle k)) ∧
        ∃ index t keys, Sample.circular.ComesTo index t ∧ t.Nests index keys k ∧
          Relation.TransGen index.Needs k k) ∧
      (∀ options', ∃ e, Sample.circular.expand options' = .error (.error e)) ∧
      Sample.growing.WellFormed ∧
      ∃ k, Sample.growing.expand ⟨true, 3⟩ = .error (.error (.tooDeep k 3)) ∧
        ∃ index t keys, Sample.growing.ComesTo index t ∧ t.Nests index keys k ∧
          keys.length = 3 ∧ (keys ++ [k]).Nodup := by
  have hcircular : ∃ k, Sample.circular.expand {} = .error (.error (.cycle k)) := ⟨_, rfl⟩
  have hgrowing : ∃ k, Sample.growing.expand ⟨true, 3⟩ = .error (.error (.tooDeep k 3)) :=
    ⟨_, rfl⟩
  obtain ⟨k, hk⟩ := hcircular
  obtain ⟨last, hlast⟩ := hgrowing
  obtain ⟨hneeds, herrors⟩ := (expand_nesting Sample.circular_wellFormed {}).1 k hk
  obtain ⟨-, hchain⟩ := (expand_nesting Sample.growing_wellFormed ⟨true, 3⟩).2 last 3 hlast
  exact ⟨Sample.circular_wellFormed, ⟨k, hk, hneeds⟩, herrors, Sample.growing_wellFormed,
    last, hlast, hchain⟩

end Crate

end Unerase
