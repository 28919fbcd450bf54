import Unerase.Proofs.Matching.Instance

/-!
What occurs in a type: parameters and placeholders, listed from left to right. A match comes
to the parameters of the pattern outside the bounds of placeholders in this order until it
comes to a disagreement (`Ty.findings_follow`). If it comes to none, it has come to every
parameter, and to no other one (`Ty.uses_of_findings`).
-/

namespace Unerase

/-- A use of a parameter, in the place of a type or of a constant. -/
inductive ParamUse where
  | type (p : Param)
  | const (p : Param)
deriving DecidableEq

/-- The parameter that a constant is, if it is one. -/
def Const.params : Const → List ParamUse
  | .param p => [.const p]
  | .lit _ => []

mutual

variable (inBounds : Bool)

/-- The uses of parameters in a type. Those in the bounds of placeholders count only if
this is said. -/
def Ty.params : Ty → List ParamUse
  | .never | .prim _ => []
  | .path p => p.params
  | .param p => [.type p]
  | .dyn trait markers => trait.params ++ ItemRef.paramsOfList markers
  | .erased origin _ bounds =>
      origin.params ++ if inBounds then ItemRef.paramsOfList bounds else []
  | .array elem size => elem.params ++ size.params
  | .slice elem => elem.params
  | .tuple elems => Ty.paramsOfList elems
  | .ref _ target | .ptr _ target => target.params
  | .fn args result => Ty.paramsOfList args ++ result.params
termination_by structural t => t

/-- Those in a path come from its self type, its trait and its arguments, in this order. -/
def Path.params : Path → List ParamUse
  | .item target => target.params
  | .inherent self _ args | .unknown self _ args => self.params ++ args.params
  | .known self trait _ args => self.params ++ trait.params ++ args.params
termination_by structural p => p

def ItemRef.params : ItemRef → List ParamUse
  | ⟨_, args⟩ => args.params
termination_by structural r => r

def Args.params : Args → List ParamUse
  | ⟨types, consts⟩ => Ty.paramsOfList types ++ consts.flatMap Const.params
termination_by structural a => a

def Ty.paramsOfList : List Ty → List ParamUse
  | [] => []
  | t :: ts => t.params ++ Ty.paramsOfList ts
termination_by structural ts => ts

def ItemRef.paramsOfList : List ItemRef → List ParamUse
  | [] => []
  | r :: rs => r.params ++ ItemRef.paramsOfList rs
termination_by structural rs => rs

end

/-- The bounds of a placeholder; other types have none of their own. -/
def Ty.bounds : Ty → List ItemRef
  | .erased _ _ bounds => bounds
  | _ => []

mutual

/-- The placeholders in a type. Behind a placeholder come those in its origin and in its
bounds. -/
def Ty.placeholders : Ty → List Ty
  | .never | .prim _ | .param _ => []
  | .path p => p.placeholders
  | .dyn trait markers => trait.placeholders ++ ItemRef.placeholdersOfList markers
  | .erased origin index bounds =>
      .erased origin index bounds ::
        (origin.placeholders ++ ItemRef.placeholdersOfList bounds)
  | .array elem _ | .slice elem => elem.placeholders
  | .tuple elems => Ty.placeholdersOfList elems
  | .ref _ target | .ptr _ target => target.placeholders
  | .fn args result => Ty.placeholdersOfList args ++ result.placeholders
termination_by structural t => t

/-- The placeholders in a path. -/
def Path.placeholders : Path → List Ty
  | .item target => target.placeholders
  | .inherent self _ args | .unknown self _ args => self.placeholders ++ args.placeholders
  | .known self trait _ args =>
      self.placeholders ++ trait.placeholders ++ args.placeholders
termination_by structural p => p

def ItemRef.placeholders : ItemRef → List Ty
  | ⟨_, args⟩ => args.placeholders
termination_by structural r => r

def Args.placeholders : Args → List Ty
  | ⟨types, _⟩ => Ty.placeholdersOfList types
termination_by structural a => a

def Ty.placeholdersOfList : List Ty → List Ty
  | [] => []
  | t :: ts => t.placeholders ++ Ty.placeholdersOfList ts
termination_by structural ts => ts

def ItemRef.placeholdersOfList : List ItemRef → List Ty
  | [] => []
  | r :: rs => r.placeholders ++ ItemRef.placeholdersOfList rs
termination_by structural rs => rs

end

mutual

theorem Ty.placeholders_eq_nil_iff : ∀ t : Ty,
    t.placeholders = [] ↔ t.hasErased = false
  | .never | .prim _ | .param _ => by simp [Ty.placeholders, Ty.hasErased]
  | .path p => by simp [Ty.placeholders, Ty.hasErased, Path.placeholders_eq_nil_iff p]
  | .dyn trait markers => by
      simp [Ty.placeholders, Ty.hasErased, ItemRef.placeholders_eq_nil_iff trait,
        ItemRef.placeholdersOfList_eq_nil_iff markers]
  | .erased origin index bounds => by simp [Ty.placeholders, Ty.hasErased]
  | .array elem _ | .slice elem => by
      simp [Ty.placeholders, Ty.hasErased, Ty.placeholders_eq_nil_iff elem]
  | .tuple elems => by
      simp [Ty.placeholders, Ty.hasErased, Ty.placeholdersOfList_eq_nil_iff elems]
  | .ref _ target | .ptr _ target => by
      simp [Ty.placeholders, Ty.hasErased, Ty.placeholders_eq_nil_iff target]
  | .fn args result => by
      simp [Ty.placeholders, Ty.hasErased, Ty.placeholdersOfList_eq_nil_iff args,
        Ty.placeholders_eq_nil_iff result]
termination_by structural t => t

theorem Path.placeholders_eq_nil_iff : ∀ p : Path,
    p.placeholders = [] ↔ p.hasErased = false
  | .item target => by
      simp [Path.placeholders, Path.hasErased, ItemRef.placeholders_eq_nil_iff target]
  | .inherent self _ args | .unknown self _ args => by
      simp [Path.placeholders, Path.hasErased, Ty.placeholders_eq_nil_iff self,
        Args.placeholders_eq_nil_iff args]
  | .known self trait _ args => by
      simp [Path.placeholders, Path.hasErased, Ty.placeholders_eq_nil_iff self,
        ItemRef.placeholders_eq_nil_iff trait, Args.placeholders_eq_nil_iff args, and_assoc]
termination_by structural p => p

theorem ItemRef.placeholders_eq_nil_iff : ∀ r : ItemRef,
    r.placeholders = [] ↔ r.hasErased = false
  | ⟨_, args⟩ => by
      simp [ItemRef.placeholders, ItemRef.hasErased, Args.placeholders_eq_nil_iff args]
termination_by structural r => r

theorem Args.placeholders_eq_nil_iff : ∀ a : Args,
    a.placeholders = [] ↔ a.hasErased = false
  | ⟨types, _⟩ => by
      simp [Args.placeholders, Args.hasErased, Ty.placeholdersOfList_eq_nil_iff types]
termination_by structural a => a

theorem Ty.placeholdersOfList_eq_nil_iff : ∀ ts : List Ty,
    Ty.placeholdersOfList ts = [] ↔ Ty.anyErased ts = false
  | [] => by simp [Ty.placeholdersOfList, Ty.anyErased]
  | t :: ts => by
      simp [Ty.placeholdersOfList, Ty.anyErased, Ty.placeholders_eq_nil_iff t,
        Ty.placeholdersOfList_eq_nil_iff ts]
termination_by structural ts => ts

theorem ItemRef.placeholdersOfList_eq_nil_iff : ∀ rs : List ItemRef,
    ItemRef.placeholdersOfList rs = [] ↔ ItemRef.anyErased rs = false
  | [] => by simp [ItemRef.placeholdersOfList, ItemRef.anyErased]
  | r :: rs => by
      simp [ItemRef.placeholdersOfList, ItemRef.anyErased,
        ItemRef.placeholders_eq_nil_iff r, ItemRef.placeholdersOfList_eq_nil_iff rs]
termination_by structural rs => rs

end

namespace Finding

/-- The use of a parameter that the match has come to. -/
def use? : Finding → Option ParamUse
  | .type p _ => some (.type p)
  | .const p _ => some (.const p)
  | .clash .. => none

/-- All uses of parameters that the match has come to. -/
def uses (fs : List Finding) : List ParamUse :=
  fs.filterMap use?

theorem uses_append (fs gs : List Finding) : uses (fs ++ gs) = uses fs ++ uses gs :=
  List.filterMap_append

theorem mem_uses {fs : List Finding} {f : Finding} {u : ParamUse} (hf : f ∈ fs)
    (hu : f.use? = some u) : u ∈ uses fs :=
  List.mem_filterMap.2 ⟨f, hf, hu⟩

/-- The findings up to the first disagreement, behind which no matcher is told anything. -/
def untilClash : List Finding → List Finding
  | [] => []
  | .type p t :: fs => .type p t :: untilClash fs
  | .const p c :: fs => .const p c :: untilClash fs
  | .clash pattern concrete :: _ => [.clash pattern concrete]

theorem untilClash_append (fs gs : List Finding) :
    (NoClash fs → untilClash (fs ++ gs) = fs ++ untilClash gs) ∧
      (¬ NoClash fs → untilClash (fs ++ gs) = untilClash fs) := by
  induction fs with
  | nil => simp
  | cons f fs ih =>
      rw [← List.singleton_append, noClash_append]
      cases f <;> simp_all [untilClash]

/-- The findings are uses of the first of the parameters up to the first disagreement, and
uses of all of them if there is none. -/
structure Follows (fs : List Finding) (us : List ParamUse) : Prop where
  first : uses (untilClash fs) <+: us
  all : NoClash fs → uses fs = us

variable {fs gs : List Finding} {us vs : List ParamUse}

theorem follows_nil : Follows [] [] where
  first := List.prefix_rfl
  all _ := rfl

theorem follows_clash {clash : Finding} (h : ¬ NoClash [clash]) (us : List ParamUse) :
    Follows [clash] us where
  first := by
    cases clash with
    | type p t => exact absurd (noClash_type p t) h
    | const p c => exact absurd (noClash_const p c) h
    | clash => exact List.nil_prefix
  all hclash := absurd hclash h

theorem follows_ite {c : Prop} [Decidable c] {clash : Finding} (hclash : ¬ NoClash [clash])
    (h : c → Follows fs us) : Follows (if c then fs else [clash]) us := by
  split
  · rename_i hc
    exact h hc
  · exact follows_clash hclash us

theorem Follows.append (h : Follows fs us) (h' : Follows gs vs) :
    Follows (fs ++ gs) (us ++ vs) where
  first := by
    by_cases hfs : NoClash fs
    · rw [(untilClash_append fs gs).1 hfs, uses_append, h.all hfs]
      exact (List.prefix_append_right_inj us).2 h'.first
    · rw [(untilClash_append fs gs).2 hfs]
      exact h.first.trans (List.prefix_append us vs)
  all hall := by
    obtain ⟨hfs, hgs⟩ := noClash_append.1 hall
    rw [uses_append, h.all hfs, h'.all hgs]

end Finding

section Uses

open Finding

theorem Const.findings_follow {clash : Finding} (hclash : ¬ NoClash [clash]) (a b : Const) :
    Follows (a.findings clash b) a.params := by
  cases a with
  | param p => exact ⟨List.prefix_rfl, fun _ => rfl⟩
  | lit a => exact follows_ite hclash fun _ => follows_nil

theorem Const.findingsOfList_follow {clash : Finding} (hclash : ¬ NoClash [clash]) :
    ∀ {as bs : List Const}, as.length = bs.length →
      Follows (Const.findingsOfList clash as bs) (as.flatMap Const.params)
  | [], _, _ => by
      rw [Const.findingsOfList]
      · exact follows_nil
      · simp
  | _ :: _, [], hlength => by cases hlength
  | a :: as, b :: bs, hlength => by
      rw [Const.findingsOfList, List.flatMap_cons]
      exact (Const.findings_follow hclash a b).append
        (Const.findingsOfList_follow hclash (Nat.succ.inj hlength))

mutual

/-- A match comes to the parameters of the pattern from left to right. -/
theorem Ty.findings_follow : ∀ t u : Ty, Follows (t.findings u) (t.params false)
  | .param p, _ => by
      simp only [Ty.findings, Ty.params]
      exact ⟨List.prefix_rfl, fun _ => rfl⟩
  | .never, u => by
      cases u with
      | never => exact follows_nil
      | _ => exact follows_clash (not_noClash_clash _ _) _
  | .prim a, u => by
      simp only [Ty.findings]
      exact follows_ite (not_noClash_clash _ _) fun _ => follows_nil
  | .path a, u => by
      cases u with
      | path b =>
          simp only [Ty.findings, Ty.params]
          exact Path.findings_follow (not_noClash_clash _ _) a b
      | _ => exact follows_clash (not_noClash_clash _ _) _
  | .dyn trait markers, u => by
      cases u with
      | dyn trait' markers' =>
          have hclash := not_noClash_clash (.dyn trait markers) (.dyn trait' markers')
          simp only [Ty.findings, Ty.params]
          refine follows_ite hclash fun hlength => ?_
          exact (ItemRef.findings_follow hclash trait trait').append
            (ItemRef.findingsOfList_follow hclash hlength)
      | _ => exact follows_clash (not_noClash_clash _ _) _
  | .erased origin index bounds, u => by
      cases u with
      | erased origin' index' bounds' =>
          have hclash := not_noClash_clash (.erased origin index bounds)
            (.erased origin' index' bounds')
          simp only [Ty.findings, Ty.params]
          refine follows_ite hclash fun _ => ?_
          simpa using Path.findings_follow hclash origin origin'
      | _ => exact follows_clash (not_noClash_clash _ _) _
  | .array elem size, u => by
      cases u with
      | array elem' size' =>
          simp only [Ty.findings, Ty.params]
          exact (Ty.findings_follow elem elem').append
            (Const.findings_follow (not_noClash_clash _ _) size size')
      | _ => exact follows_clash (not_noClash_clash _ _) _
  | .slice elem, u => by
      cases u with
      | slice elem' =>
          simp only [Ty.findings, Ty.params]
          exact Ty.findings_follow elem elem'
      | _ => exact follows_clash (not_noClash_clash _ _) _
  | .tuple elems, u => by
      cases u with
      | tuple elems' =>
          simp only [Ty.findings, Ty.params]
          exact follows_ite (not_noClash_clash _ _) Ty.findingsOfList_follow
      | _ => exact follows_clash (not_noClash_clash _ _) _
  | .ref kind target, u => by
      cases u with
      | ref kind' target' =>
          simp only [Ty.findings, Ty.params]
          exact follows_ite (not_noClash_clash _ _) fun _ => Ty.findings_follow target target'
      | _ => exact follows_clash (not_noClash_clash _ _) _
  | .ptr mutable target, u => by
      cases u with
      | ptr mutable' target' =>
          simp only [Ty.findings, Ty.params]
          exact follows_ite (not_noClash_clash _ _) fun _ => Ty.findings_follow target target'
      | _ => exact follows_clash (not_noClash_clash _ _) _
  | .fn args result, u => by
      cases u with
      | fn args' result' =>
          simp only [Ty.findings, Ty.params]
          refine follows_ite (not_noClash_clash _ _) fun hlength => ?_
          exact (Ty.findingsOfList_follow hlength).append (Ty.findings_follow result result')
      | _ => exact follows_clash (not_noClash_clash _ _) _
termination_by structural t => t

theorem Path.findings_follow {clash : Finding} (hclash : ¬ NoClash [clash]) :
    ∀ p q : Path, Follows (p.findings clash q) (p.params false)
  | .item target, q => by
      cases q with
      | item target' =>
          simp only [Path.findings, Path.params]
          exact ItemRef.findings_follow hclash target target'
      | _ => exact follows_clash hclash _
  | .inherent self name args, q => by
      cases q with
      | inherent self' name' args' =>
          simp only [Path.findings, Path.params]
          refine follows_ite hclash fun _ => ?_
          exact (Ty.findings_follow self self').append (Args.findings_follow hclash args args')
      | _ => exact follows_clash hclash _
  | .known self trait name args, q => by
      cases q with
      | known self' trait' name' args' =>
          simp only [Path.findings, Path.params]
          refine follows_ite hclash fun _ => ?_
          have hfirst := (Ty.findings_follow self self').append
            (ItemRef.findings_follow hclash trait trait')
          exact hfirst.append (Args.findings_follow hclash args args')
      | _ => exact follows_clash hclash _
  | .unknown self name args, q => by
      cases q with
      | unknown self' name' args' =>
          simp only [Path.findings, Path.params]
          refine follows_ite hclash fun _ => ?_
          exact (Ty.findings_follow self self').append (Args.findings_follow hclash args args')
      | _ => exact follows_clash hclash _
termination_by structural p => p

theorem ItemRef.findings_follow {clash : Finding} (hclash : ¬ NoClash [clash]) :
    ∀ r s : ItemRef, Follows (r.findings clash s) (r.params false)
  | ⟨name, args⟩, ⟨name', args'⟩ => by
      simp only [ItemRef.findings, ItemRef.params]
      exact follows_ite hclash fun _ => Args.findings_follow hclash args args'
termination_by structural r => r

theorem Args.findings_follow {clash : Finding} (hclash : ¬ NoClash [clash]) :
    ∀ a b : Args, Follows (a.findings clash b) (a.params false)
  | ⟨types, consts⟩, ⟨types', consts'⟩ => by
      simp only [Args.findings, Args.params]
      refine follows_ite hclash fun hlength => ?_
      exact (Ty.findingsOfList_follow hlength.1).append
        (Const.findingsOfList_follow hclash hlength.2)
termination_by structural a => a

theorem Ty.findingsOfList_follow : ∀ {ts us : List Ty}, ts.length = us.length →
    Follows (Ty.findingsOfList ts us) (Ty.paramsOfList false ts)
  | [], _, _ => follows_nil
  | _ :: _, [], hlength => by cases hlength
  | t :: ts, u :: us, hlength => by
      simp only [Ty.findingsOfList, Ty.paramsOfList]
      exact (Ty.findings_follow t u).append (Ty.findingsOfList_follow (Nat.succ.inj hlength))
termination_by structural ts => ts

theorem ItemRef.findingsOfList_follow {clash : Finding} (hclash : ¬ NoClash [clash]) :
    ∀ {rs ss : List ItemRef}, rs.length = ss.length →
      Follows (ItemRef.findingsOfList clash rs ss) (ItemRef.paramsOfList false rs)
  | [], _, _ => follows_nil
  | _ :: _, [], hlength => by cases hlength
  | r :: rs, s :: ss, hlength => by
      simp only [ItemRef.findingsOfList, ItemRef.paramsOfList]
      exact (ItemRef.findings_follow hclash r s).append
        (ItemRef.findingsOfList_follow hclash (Nat.succ.inj hlength))
termination_by structural rs => rs

end

/-- A match without a disagreement comes to the parameters of the pattern in their order. -/
theorem Ty.uses_of_findings {t u : Ty} (h : NoClash (t.findings u)) :
    uses (t.findings u) = t.params false :=
  (Ty.findings_follow t u).all h

end Uses

end Unerase
