import Unerase.Proofs.Matching.Sequence
import Unerase.Proofs.Relation.Bounds

/-!
How a match fails. The first disagreement that a match finds is reported at two types that are
not built alike and that end their own match in the same way (`Ty.findings_report`). So
whenever a matcher is told of a disagreement, its two types stand at one and the same place of
the pattern and of the concrete type, and they disagree there whatever is done with the
bindings (`Matcher.clashesAt_located`).
-/

namespace Unerase

namespace Finding

/-- The types at which a finding reports a disagreement. -/
def clash? : Finding → Option (Ty × Ty)
  | .clash pattern concrete => some (pattern, concrete)
  | .type .. | .const .. => none

/-- The types at which a match with these findings fails, if nothing is refused. -/
def firstClash? (fs : List Finding) : Option (Ty × Ty) :=
  fs.findSome? clash?

theorem firstClash?_append (fs gs : List Finding) :
    firstClash? (fs ++ gs) = (firstClash? fs).or (firstClash? gs) :=
  List.findSome?_append

theorem firstClash?_of_mem_untilClash {fs : List Finding} {p c : Ty}
    (h : .clash p c ∈ untilClash fs) : firstClash? fs = some (p, c) := by
  induction fs with
  | nil => cases h
  | cons f fs ih =>
      cases f with
      | clash =>
          cases List.mem_singleton.1 h
          rfl
      | _ => exact ih ((List.mem_cons.1 h).resolve_left (nomatch ·))

end Finding

/-- No matter what the parts of the types are. -/
abbrev Ty.Whatever (_ _ : Ty) : Prop := True

/-- The two types are built alike: what is not a type is the same in both, and a walk hands
out as many types from the one as from the other. Bounds do not count. -/
abbrev Ty.BuiltAlike (p c : Ty) : Prop :=
  Ty.PartsButBounds Ty.Whatever p c

/-- The two types are not built alike, and their own match ends with a disagreement that is
reported at themselves and not at any of their parts. -/
structure Ty.Disagrees (p c : Ty) : Prop where
  firstClash : Finding.firstClash? (p.findings c) = some (p, c)
  not_builtAlike : ¬ p.BuiltAlike c

theorem Ty.Disagrees.ne_param {p c : Ty} (h : p.Disagrees c) (q : Param) : p ≠ .param q := by
  rintro rfl
  cases h.firstClash

namespace Finding

/-- The first disagreement among the findings is between two types that disagree on their own,
or else it is the one that stands for the enclosing types, and then these do not agree. -/
def Reports (agree : Prop) (clash : Finding) (fs : List Finding) : Prop :=
  ∀ p c, firstClash? fs = some (p, c) → clash = .clash p c ∧ ¬ agree ∨ p.Disagrees c

variable {agree agree' q : Prop} {clash : Finding} {fs gs : List Finding}

theorem Reports.mono (h : Reports agree clash fs) (hagree : agree' → agree) :
    Reports agree' clash fs := by
  intro p c hfirst
  exact (h p c hfirst).imp_left (And.imp_right (mt hagree))

theorem reports_of_none (h : firstClash? fs = none) : Reports agree clash fs := by
  intro p c hfirst
  rw [h] at hfirst
  cases hfirst

theorem reports_singleton (h : ¬ agree) : Reports agree clash [clash] := by
  intro p c hfirst
  cases clash <;> cases hfirst
  exact .inl ⟨rfl, h⟩

theorem Reports.append (hfs : Reports agree clash fs) (hgs : Reports agree clash gs) :
    Reports agree clash (fs ++ gs) := by
  intro p c hfirst
  rw [firstClash?_append, Option.or_eq_some_iff] at hfirst
  rcases hfirst with hfirst | ⟨-, hfirst⟩
  · exact hfs p c hfirst
  · exact hgs p c hfirst

theorem reports_ite [Decidable q] (hq : agree → q) (h : Reports agree clash fs) :
    Reports agree clash (if q then fs else [clash]) := by
  split
  · exact h
  · rename_i hnot
    exact reports_singleton (mt hq hnot)

theorem Reports.own {t u : Ty} (h : Reports (t.BuiltAlike u) (.clash t u) (t.findings u)) :
    Reports True clash (t.findings u) := by
  intro p c hfirst
  refine .inr ?_
  rcases h p c hfirst with ⟨heq, hnot⟩ | hdisagrees
  · -- What is reported first are `t` and `u`, so `hfirst` is about their own match.
    cases heq
    exact ⟨hfirst, hnot⟩
  · exact hdisagrees

theorem reports_type {t u : Ty} (h : Reports True clash (t.findings u)) :
    Reports agree clash (t.findings u) :=
  h.mono fun _ => trivial

end Finding

open Finding

theorem Const.findings_report {clash : Finding} (a b : Const) :
    Reports (a = b) clash (a.findings clash b) := by
  cases a with
  | param p => exact reports_of_none rfl
  | lit a => exact reports_ite Eq.symm (reports_of_none rfl)

theorem Const.findingsOfList_report {clash : Finding} :
    ∀ as bs : List Const, Reports (as = bs) clash (Const.findingsOfList clash as bs)
  | [], _ => by
      rw [Const.findingsOfList]
      · exact reports_of_none rfl
      · simp
  | _ :: _, [] => by
      rw [Const.findingsOfList]
      · exact reports_of_none rfl
      · simp
  | a :: as, b :: bs =>
      ((Const.findings_report a b).mono fun h => (List.cons.inj h).1).append
        ((Const.findingsOfList_report as bs).mono fun h => (List.cons.inj h).2)

mutual

/-- What a match reports first are two types that disagree on their own, so that it does not
matter for the enclosing types. -/
theorem Ty.findings_report {clash : Finding} : ∀ t u : Ty, Reports True clash (t.findings u)
  | .param _, _ => by
      simp only [Ty.findings]
      exact reports_of_none rfl
  | .never, u => by
      apply Reports.own
      cases u with
      | never => exact reports_of_none rfl
      | _ => exact reports_singleton nofun
  | .prim p, u => by
      apply Reports.own
      simp only [Ty.findings]
      refine reports_ite (fun h => ?_) (reports_of_none rfl)
      rcases h with ⟨⟨⟩⟩
      rfl
  | .path p, u => by
      apply Reports.own
      cases u with
      | path q => exact (Path.findings_report p q).mono fun | .parts (.path h) => h
      | _ => exact reports_singleton nofun
  | .dyn trait markers, u => by
      apply Reports.own
      cases u with
      | dyn trait' markers' =>
          simp only [Ty.findings]
          refine reports_ite (fun | .parts (.dyn _ h) => h.length_eq) (.append ?trait ?markers)
          case trait =>
            exact (ItemRef.findings_report trait trait').mono fun | .parts (.dyn h _) => h
          case markers =>
            exact (ItemRef.findingsOfList_report markers markers').mono
              fun | .parts (.dyn _ h) => h
      | _ => exact reports_singleton nofun
  | .erased origin _ _, u => by
      apply Reports.own
      cases u with
      | erased origin' _ _ =>
          simp only [Ty.findings]
          refine reports_ite (fun | .erased .. => rfl) ?_
          exact (Path.findings_report origin origin').mono fun | .erased _ _ _ h => h
      | _ => exact reports_singleton nofun
  | .array elem size, u => by
      apply Reports.own
      cases u with
      | array elem' size' =>
          exact (reports_type (Ty.findings_report elem elem')).append
            ((Const.findings_report size size').mono fun | .parts (.array _) => rfl)
      | _ => exact reports_singleton nofun
  | .slice elem, u => by
      apply Reports.own
      cases u with
      | slice elem' => exact reports_type (Ty.findings_report elem elem')
      | _ => exact reports_singleton nofun
  | .tuple elems, u => by
      apply Reports.own
      cases u with
      | tuple elems' =>
          simp only [Ty.findings]
          exact reports_ite (fun | .parts (.tuple h) => h.length_eq)
            (Ty.findingsOfList_report elems elems')
      | _ => exact reports_singleton nofun
  | .ref _ target, u => by
      apply Reports.own
      cases u with
      | ref _ target' =>
          simp only [Ty.findings]
          exact reports_ite (fun | .parts (.ref _) => rfl)
            (reports_type (Ty.findings_report target target'))
      | _ => exact reports_singleton nofun
  | .ptr _ target, u => by
      apply Reports.own
      cases u with
      | ptr _ target' =>
          simp only [Ty.findings]
          exact reports_ite (fun | .parts (.ptr _) => rfl)
            (reports_type (Ty.findings_report target target'))
      | _ => exact reports_singleton nofun
  | .fn args result, u => by
      apply Reports.own
      cases u with
      | fn args' result' =>
          simp only [Ty.findings]
          exact reports_ite (fun | .parts (.fn h _) => h.length_eq)
            ((Ty.findingsOfList_report args args').append
              (reports_type (Ty.findings_report result result')))
      | _ => exact reports_singleton nofun
termination_by structural t => t

theorem Path.findings_report {clash : Finding} :
    ∀ p q : Path, Reports (p.Rel Ty.Whatever q) clash (p.findings clash q)
  | .item target, q => by
      cases q with
      | item target' =>
          exact (ItemRef.findings_report target target').mono fun | .item h => h
      | _ => exact reports_singleton nofun
  | .inherent self _ args, q => by
      cases q with
      | inherent self' _ args' =>
          simp only [Path.findings]
          exact reports_ite (fun | .inherent .. => rfl)
            ((reports_type (Ty.findings_report self self')).append
              ((Args.findings_report args args').mono fun | .inherent _ h => h))
      | _ => exact reports_singleton nofun
  | .known self trait _ args, q => by
      cases q with
      | known self' trait' _ args' =>
          simp only [Path.findings]
          refine reports_ite (fun | .known .. => rfl) (.append (.append ?self ?trait) ?args)
          case self => exact reports_type (Ty.findings_report self self')
          case trait =>
            exact (ItemRef.findings_report trait trait').mono fun | .known _ h _ => h
          case args => exact (Args.findings_report args args').mono fun | .known _ _ h => h
      | _ => exact reports_singleton nofun
  | .unknown self _ args, q => by
      cases q with
      | unknown self' _ args' =>
          simp only [Path.findings]
          exact reports_ite (fun | .unknown .. => rfl)
            ((reports_type (Ty.findings_report self self')).append
              ((Args.findings_report args args').mono fun | .unknown _ h => h))
      | _ => exact reports_singleton nofun
termination_by structural p => p

theorem ItemRef.findings_report {clash : Finding} :
    ∀ r s : ItemRef, Reports (r.Rel Ty.Whatever s) clash (r.findings clash s)
  | ⟨_, args⟩, ⟨_, args'⟩ => by
      simp only [ItemRef.findings]
      exact reports_ite (fun | .intro _ => rfl)
        ((Args.findings_report args args').mono fun | .intro h => h)
termination_by structural r => r

theorem Args.findings_report {clash : Finding} :
    ∀ a b : Args, Reports (a.Rel Ty.Whatever b) clash (a.findings clash b)
  | ⟨types, consts⟩, ⟨types', consts'⟩ => by
      simp only [Args.findings]
      exact reports_ite (fun | .intro h => ⟨h.length_eq, rfl⟩)
        ((Ty.findingsOfList_report types types').append
          ((Const.findingsOfList_report consts consts').mono fun | .intro _ => rfl))
termination_by structural a => a

theorem Ty.findingsOfList_report {agree : Prop} {clash : Finding} :
    ∀ ts us : List Ty, Reports agree clash (Ty.findingsOfList ts us)
  | [], _ => reports_of_none rfl
  | _ :: _, [] => reports_of_none rfl
  | t :: ts, u :: us =>
      (reports_type (Ty.findings_report t u)).append (Ty.findingsOfList_report ts us)
termination_by structural ts => ts

theorem ItemRef.findingsOfList_report {clash : Finding} :
    ∀ rs ss : List ItemRef, Reports (List.Forall₂ (ItemRef.Rel Ty.Whatever) rs ss) clash
      (ItemRef.findingsOfList clash rs ss)
  | [], _ => reports_of_none rfl
  | _ :: _, [] => reports_of_none rfl
  | r :: rs, s :: ss =>
      ((ItemRef.findings_report r s).mono fun | .cons h _ => h).append
        ((ItemRef.findingsOfList_report rs ss).mono fun | .cons _ h => h)
termination_by structural rs => rs

end

theorem Ty.disagrees_of_firstClash {t u p c : Ty}
    (h : firstClash? (t.findings u) = some (p, c)) : p.Disagrees c := by
  have hreports : Reports True (.clash t u) (t.findings u) := Ty.findings_report t u
  rcases hreports p c h with ⟨-, hnot⟩ | hdisagrees
  · exact absurd trivial hnot
  · exact hdisagrees

namespace Matcher

variable {ε σ : Type} {m : Matcher ε σ} {s : σ} {pattern concrete p c : Ty}

/-- The match ends in a disagreement: the last that the matcher is told is that the two types
disagree, and its answer to this is the outcome. -/
def ClashesAt (m : Matcher ε σ) (s : σ) (pattern concrete p c : Ty) : Prop :=
  ∃ before s₁, pattern.matchWith m.watched concrete (s, []) =
    ((m.reject p c s₁).1, (m.reject p c s₁).2, before ++ [.clash p c])

/-- The matcher refuses no binding. -/
structure Accepts (m : Matcher ε σ) : Prop where
  type : ∀ p t s, ∃ s', m.bindType p t s = (.ok (), s')
  const : ∀ p c s, ∃ s', m.bindConst p c s = (.ok (), s')

theorem recording_accepts : (recording none).Accepts :=
  ⟨fun _ _ _ => ⟨_, rfl⟩, fun _ _ _ => ⟨_, rfl⟩⟩

theorem clashesAt_iff : m.ClashesAt s pattern concrete p c ↔
    ∃ before s₁, m.Feeds s (pattern.calls concrete) (before ++ [.clash p c])
      (m.reject p c s₁) := by
  simp only [ClashesAt, matchWith_watched_iff]

theorem Feeds.replay {fs seen : List Finding} {outcome : Except ε Unit × σ}
    (h : m.Feeds s fs seen outcome) : m.replay fs s = outcome := by
  induction h with
  | done => rfl
  | stop hf => rw [Matcher.replay, Run.bind_apply, hf]
  | next hf _ ih =>
      rw [Matcher.replay, Run.bind_apply, hf]
      exact ih

theorem ClashesAt.matchWith (h : m.ClashesAt s pattern concrete p c) :
    ∃ s₁, pattern.matchWith m concrete s = m.reject p c s₁ := by
  obtain ⟨before, s₁, hfeeds⟩ := clashesAt_iff.1 h
  exact ⟨s₁, (congrFun (matchWith_eq_replay_calls m pattern concrete) s).trans hfeeds.replay⟩

theorem ClashesAt.firstClash (h : m.ClashesAt s pattern concrete p c) :
    firstClash? (pattern.findings concrete) = some (p, c) := by
  obtain ⟨before, s₁, hfeeds⟩ := clashesAt_iff.1 h
  exact firstClash?_of_mem_untilClash (hfeeds.seen_le.subset (by simp))

theorem Accepts.feeds (hm : m.Accepts) {fs : List Finding}
    (h : firstClash? fs = some (p, c)) (s : σ) :
    ∃ before s₁, m.Feeds s (untilClash fs) (before ++ [.clash p c]) (m.reject p c s₁) := by
  induction fs generalizing s with
  | nil => cases h
  | cons f fs ih =>
      cases f with
      | type q t =>
          obtain ⟨s', hs'⟩ := hm.type q t s
          obtain ⟨before, s₁, hfeeds⟩ := ih h s'
          exact ⟨.type q t :: before, s₁, .next hs' hfeeds⟩
      | const q a =>
          obtain ⟨s', hs'⟩ := hm.const q a s
          obtain ⟨before, s₁, hfeeds⟩ := ih h s'
          exact ⟨.const q a :: before, s₁, .next hs' hfeeds⟩
      | clash =>
          cases h
          exact ⟨[], s, .stop rfl⟩

theorem Accepts.clashesAt (hm : m.Accepts) (h : p.Disagrees c) (s : σ) :
    m.ClashesAt s p c p c :=
  clashesAt_iff.2 (hm.feeds h.firstClash s)

/-- A disagreement that a match ends in is located. Its types stand at one and the same place
of the pattern and of the concrete type, the one in the pattern is no parameter, and the two
are not built alike. Matched alone they end in the same disagreement for every matcher that
refuses no binding. -/
theorem clashesAt_located (h : m.ClashesAt s pattern concrete p c) :
    (∃ s₁, pattern.matchWith m concrete s = m.reject p c s₁) ∧
    pattern.LinesUp concrete p c ∧
    (∀ q : Param, p ≠ .param q) ∧
    ¬ p.BuiltAlike c ∧
    ∀ (ε' σ' : Type) (m' : Matcher ε' σ') (s' : σ'), m'.Accepts →
      m'.ClashesAt s' p c p c := by
  have hdisagrees : p.Disagrees c := Ty.disagrees_of_firstClash h.firstClash
  have hplace : pattern.LinesUp concrete p c := by
    obtain ⟨before, s₁, hfeeds⟩ := clashesAt_iff.1 h
    exact hfeeds.linesUp.2 (.clash p c) (by simp)
  exact ⟨h.matchWith, hplace, hdisagrees.ne_param, hdisagrees.not_builtAlike,
    fun _ _ _ s' hm' => hm'.clashesAt hdisagrees s'⟩

end Matcher

namespace Sample

def array (t : Ty) (size : Nat) : Ty :=
  .array t (.lit size)

/-- A type and a boxed array of it. -/
def listed (t : Ty) (size : Nat) : Ty :=
  .tuple [t, .path (.item ⟨⟨"sample", ["Boxed"]⟩, ⟨[array t size], []⟩⟩)]

end Sample

/-- Arrays of different sizes disagree, inside a box inside a pair, after their elements have
been bound. -/
theorem Matcher.clashesAt_located_sizes :
    let elem : Ty := .param ⟨"T", .impl 0⟩
    let origin : Path := .inherent (Sample.listed (.prim .u8) 4) "get" ⟨[], []⟩
    (ImplBinding.matcher origin).ClashesAt [none] (Sample.listed elem 3)
        (Sample.listed (.prim .u8) 4) (Sample.array elem 3) (Sample.array (.prim .u8) 4) ∧
      (Sample.listed elem 3).LinesUp (Sample.listed (.prim .u8) 4) (Sample.array elem 3)
        (Sample.array (.prim .u8) 4) ∧
      ¬ (Sample.array elem 3).BuiltAlike (Sample.array (.prim .u8) 4) ∧
      (Matcher.recording none).ClashesAt [] (Sample.array elem 3)
        (Sample.array (.prim .u8) 4) (Sample.array elem 3) (Sample.array (.prim .u8) 4) := by
  intro elem origin
  have hclash : (ImplBinding.matcher origin).ClashesAt [none] (Sample.listed elem 3)
      (Sample.listed (.prim .u8) 4) (Sample.array elem 3) (Sample.array (.prim .u8) 4) :=
    ⟨[.type ⟨"T", .impl 0⟩ (.prim .u8), .type ⟨"T", .impl 0⟩ (.prim .u8)],
      [some (.prim .u8)], rfl⟩
  obtain ⟨-, hplace, -, hbuilt, halone⟩ := clashesAt_located hclash
  exact ⟨hclash, hplace, hbuilt, halone _ _ _ [] recording_accepts⟩

end Unerase
