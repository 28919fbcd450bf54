import Unerase.Proofs.Matching.Occurrences
import Unerase.Ty.Fit

/-!
Matching as the inverse of substitution. Values for the parameters of a pattern meet the
findings of a match if each finding lines a parameter up with its value and nothing
disagrees. A pattern fits a type exactly if some values meet the findings
(`Ty.fits_iff_exists_valuation`), and where no bounds are in the way, substituting values
for the parameters gives the type exactly if the values meet the findings
(`Ty.subst_iff_meets`).
-/

namespace Unerase

/-- Values for parameters, where these stand for types and where they stand for constants. -/
structure Valuation where
  type : Param → Option Ty
  const : Param → Option Const

/-- The values that a substitution has. -/
def Subst.valuation (s : Subst) : Valuation :=
  ⟨s.getType?, s.getConst?⟩

/-- The values that parameters have lined up with in a test. -/
def Fit.valuation (fit : Fit) : Valuation :=
  ⟨fun p => fit.types.lookup p, fun p => fit.consts.lookup p⟩

/-- The second valuation has the values of the first one, and possibly more. -/
structure Valuation.Below (v w : Valuation) : Prop where
  types : ∀ p t, v.type p = some t → w.type p = some t
  consts : ∀ p c, v.const p = some c → w.const p = some c

namespace Valuation.Below

variable {u v w : Valuation}

theorem refl (v : Valuation) : v.Below v :=
  ⟨fun _ _ h => h, fun _ _ h => h⟩

theorem trans (h : u.Below v) (h' : v.Below w) : u.Below w :=
  ⟨fun p t hp => h'.types p t (h.types p t hp),
    fun p c hp => h'.consts p c (h.consts p c hp)⟩

end Valuation.Below

namespace Finding

/-- The parameter has lined up with its value. -/
def Meets (v : Valuation) : Finding → Prop
  | .type p t => v.type p = some t
  | .const p c => v.const p = some c
  | .clash .. => False

theorem Meets.mono {v w : Valuation} {f : Finding} (hf : f.Meets v) (h : v.Below w) :
    f.Meets w := by
  cases f with
  | type p t => exact h.types p t hf
  | const p c => exact h.consts p c hf
  | clash => exact hf

/-- All parameters have lined up with their values, and nothing has disagreed. -/
def AllMeet (v : Valuation) (fs : List Finding) : Prop :=
  ∀ f ∈ fs, f.Meets v

variable {v : Valuation}

@[simp] theorem allMeet_nil : AllMeet v [] := by simp [AllMeet]

@[simp] theorem allMeet_type {p : Param} {t : Ty} :
    AllMeet v [.type p t] ↔ v.type p = some t := by
  simp [AllMeet, Meets]

@[simp] theorem allMeet_const {p : Param} {c : Const} :
    AllMeet v [.const p c] ↔ v.const p = some c := by
  simp [AllMeet, Meets]

@[simp] theorem not_allMeet_clash (t u : Ty) : ¬ AllMeet v [.clash t u] := by
  simp [AllMeet, Meets]

@[simp] theorem allMeet_append {fs gs : List Finding} :
    AllMeet v (fs ++ gs) ↔ AllMeet v fs ∧ AllMeet v gs :=
  List.forall_mem_append

theorem allMeet_ite {c : Prop} [Decidable c] {clash : Finding} {fs : List Finding}
    (hclash : ¬ AllMeet v [clash]) :
    AllMeet v (if c then fs else [clash]) ↔ c ∧ AllMeet v fs := by
  split <;> simp_all

theorem AllMeet.noClash {fs : List Finding} (h : AllMeet v fs) : NoClash fs :=
  fun _ _ hclash => h _ hclash

end Finding

/-! ### Fitting -/

theorem lookup_snoc {α β : Type} [BEq α] [LawfulBEq α] {pairs : List (α × β)} {a : α} (b : β)
    (ha : pairs.lookup a = none) :
    (pairs ++ [(a, b)]).lookup a = some b ∧
      ∀ a' b', pairs.lookup a' = some b' → (pairs ++ [(a, b)]).lookup a' = some b' := by
  rw [List.lookup_append]
  refine ⟨by simp [ha], fun a' b' h => ?_⟩
  rw [List.lookup_append, h, Option.some_or]

theorem lookup_snoc_le {α β : Type} [BEq α] [LawfulBEq α] {pairs : List (α × β)}
    {value : α → Option β} (h : ∀ a b, pairs.lookup a = some b → value a = some b) {a : α}
    {b : β} (ha : value a = some b) (a' : α) (b' : β)
    (h' : (pairs ++ [(a, b)]).lookup a' = some b') : value a' = some b' := by
  rw [List.lookup_append, Option.or_eq_some_iff] at h'
  rcases h' with hbefore | ⟨-, hnew⟩
  · exact h a' b' hbefore
  · rw [List.lookup_cons] at hnew
    split at hnew
    · rename_i heq
      obtain rfl := eq_of_beq heq
      rwa [ha]
    · cases hnew

namespace Fit

open Finding

variable {fit fit' : Fit} {v : Valuation}

theorem empty_below (v : Valuation) : empty.valuation.Below v :=
  ⟨nofun, nofun⟩

theorem meets_of_answer {f : Finding} (h : matcher.answer f fit = (.ok (), fit')) :
    f.Meets fit'.valuation ∧ fit.valuation.Below fit'.valuation := by
  cases f with
  | type p t =>
      simp only [Matcher.answer, matcher, bindType] at h
      split at h
      · rename_i bound hbound
        split at h
        · rename_i heq
          cases h
          exact ⟨heq ▸ hbound, .refl _⟩
        · cases h
      · rename_i hnone
        cases h
        obtain ⟨hp, hkept⟩ := lookup_snoc t hnone
        exact ⟨hp, hkept, fun _ _ h => h⟩
  | const p c =>
      simp only [Matcher.answer, matcher, bindConst] at h
      split at h
      · rename_i bound hbound
        split at h
        · rename_i heq
          cases h
          exact ⟨heq ▸ hbound, .refl _⟩
        · cases h
      · rename_i hnone
        cases h
        obtain ⟨hp, hkept⟩ := lookup_snoc c hnone
        exact ⟨hp, fun _ _ h => h, hkept⟩
  | clash => cases h

theorem allMeet_of_replay {fs : List Finding} (h : matcher.replay fs fit = (.ok (), fit')) :
    AllMeet fit'.valuation fs ∧ fit.valuation.Below fit'.valuation := by
  induction fs generalizing fit with
  | nil =>
      cases h
      exact ⟨allMeet_nil, .refl _⟩
  | cons f fs ih =>
      obtain ⟨⟨⟩, fit₁, hf, hfs⟩ := Run.bind_ok_iff.1 h
      obtain ⟨hmeets, hfirst⟩ := meets_of_answer hf
      obtain ⟨hall, hrest⟩ := ih hfs
      exact ⟨List.forall_mem_cons.2 ⟨hmeets.mono hrest, hall⟩, hfirst.trans hrest⟩

theorem answer_of_meets (h : fit.valuation.Below v) {f : Finding} (hf : f.Meets v) :
    ∃ fit', matcher.answer f fit = (.ok (), fit') ∧ fit'.valuation.Below v := by
  cases f with
  | type p t =>
      simp only [Matcher.answer, matcher, bindType]
      cases hbound : fit.types.lookup p with
      | some bound =>
          obtain rfl : bound = t := Option.some.inj ((h.types p bound hbound).symm.trans hf)
          exact ⟨fit, by simp, h⟩
      | none => exact ⟨_, rfl, lookup_snoc_le h.types hf, h.consts⟩
  | const p c =>
      simp only [Matcher.answer, matcher, bindConst]
      cases hbound : fit.consts.lookup p with
      | some bound =>
          obtain rfl : bound = c := Option.some.inj ((h.consts p bound hbound).symm.trans hf)
          exact ⟨fit, by simp, h⟩
      | none => exact ⟨_, rfl, h.types, lookup_snoc_le h.consts hf⟩
  | clash => exact hf.elim

theorem replay_of_allMeet (h : fit.valuation.Below v) {fs : List Finding}
    (hfs : AllMeet v fs) : ∃ fit', matcher.replay fs fit = (.ok (), fit') := by
  induction fs generalizing fit with
  | nil => exact ⟨fit, rfl⟩
  | cons f fs ih =>
      obtain ⟨hf, hrest⟩ := List.forall_mem_cons.1 hfs
      obtain ⟨fit₁, hanswer, hbelow⟩ := answer_of_meets h hf
      obtain ⟨fit₂, hreplay⟩ := ih hbelow hrest
      exact ⟨fit₂, Run.bind_ok_iff.2 ⟨(), fit₁, hanswer, hreplay⟩⟩

end Fit

/-- A pattern fits a type exactly if the parameters have values with which they line up. -/
theorem Ty.fits_iff_exists_valuation {pattern t : Ty} :
    pattern.fits t = true ↔ ∃ v, Finding.AllMeet v (pattern.findings t) := by
  rw [Ty.fits, Ty.matchWith_eq_replay]
  constructor
  · intro h
    rcases hreplay : Fit.matcher.replay (pattern.findings t) .empty with ⟨_ | ⟨⟨⟩⟩, fit⟩
    · simp [hreplay] at h
    · exact ⟨fit.valuation, (Fit.allMeet_of_replay hreplay).1⟩
  · rintro ⟨v, hv⟩
    obtain ⟨fit, hfit⟩ := Fit.replay_of_allMeet (Fit.empty_below v) hv
    simp [hfit]

/-! ### Substitution -/

/-- If there are placeholders on both sides then none of them has bounds. -/
def Bare (ps qs : List Ty) : Prop :=
  ∀ t ∈ ps, ∀ u ∈ qs, t.bounds = [] ∧ u.bounds = []

theorem Bare.tail {t u : Ty} {ps qs : List Ty} (h : Bare (t :: ps) (u :: qs)) : Bare ps qs :=
  fun t ht u hu => h t (List.mem_cons_of_mem _ ht) u (List.mem_cons_of_mem _ hu)

theorem Bare.append {ps ps' qs qs' : List Ty} (h : Bare (ps ++ ps') (qs ++ qs')) :
    Bare ps qs ∧ Bare ps' qs' :=
  ⟨fun t ht u hu => h t (List.mem_append_left _ ht) u (List.mem_append_left _ hu),
    fun t ht u hu => h t (List.mem_append_right _ ht) u (List.mem_append_right _ hu)⟩

section Substitution

open Finding

variable {s : Subst}

theorem Const.subst_iff_meets {clash : Finding} (hclash : ¬ AllMeet s.valuation [clash])
    {a b : Const} : a.subst s = .ok b ↔ AllMeet s.valuation (a.findings clash b) := by
  cases a with
  | param p =>
      simp only [Const.findings, allMeet_const]
      exact Param.orUncovered_eq_ok_iff
  | lit a => simp [Const.findings, allMeet_ite hclash, Const.subst, eq_comm]

theorem Const.substList_iff_meets {clash : Finding} (hclash : ¬ AllMeet s.valuation [clash]) :
    ∀ {as bs : List Const}, Const.substList s as = .ok bs ↔
      as.length = bs.length ∧ AllMeet s.valuation (Const.findingsOfList clash as bs)
  | [], bs => by cases bs <;> simp [Const.substList, Const.findingsOfList]
  | _ :: _, [] => by simp [Const.substList, except_bind_ok_iff]
  | a :: as, b :: bs => by
      simp [Const.substList, Const.findingsOfList, except_bind_ok_iff,
        Const.subst_iff_meets hclash, Const.substList_iff_meets hclash, and_left_comm]

mutual

theorem Ty.subst_iff_meets : ∀ {t u : Ty}, Bare t.placeholders u.placeholders →
    (t.subst s = .ok u ↔ AllMeet s.valuation (t.findings u))
  | .never, u, _ => by cases u <;> simp [Ty.subst, Ty.findings]
  | .prim a, u, _ => by simp [Ty.subst, Ty.findings, allMeet_ite, eq_comm]
  | .param p, u, _ => by
      simp only [Ty.subst, Ty.findings, allMeet_type]
      exact Param.orUncovered_eq_ok_iff
  | .path a, u, h => by
      cases u with
      | path b =>
          have hpath := Path.subst_iff_meets
            (not_allMeet_clash (v := s.valuation) (.path a) (.path b)) h
          simp [Ty.subst, Ty.findings, except_bind_ok_iff, hpath]
      | _ => simp [Ty.subst, Ty.findings, except_bind_ok_iff]
  | .dyn trait markers, u, h => by
      cases u with
      | dyn trait' markers' =>
          simp only [Ty.placeholders] at h
          have hclash := not_allMeet_clash (v := s.valuation) (.dyn trait markers)
            (.dyn trait' markers')
          have htrait := ItemRef.subst_iff_meets hclash h.append.1
          have hmarkers := ItemRef.substList_iff_meets hclash h.append.2
          simp [Ty.subst, Ty.findings, except_bind_ok_iff, allMeet_ite, htrait, hmarkers,
            and_left_comm]
      | _ => simp [Ty.subst, Ty.findings, except_bind_ok_iff]
  | .erased origin index bounds, u, h => by
      cases u with
      | erased origin' index' bounds' =>
          simp only [Ty.placeholders] at h
          obtain ⟨hbounds, hbounds'⟩ := h _ List.mem_cons_self _ List.mem_cons_self
          simp only [Ty.bounds] at hbounds hbounds'
          have horigin := Path.subst_iff_meets
            (not_allMeet_clash (v := s.valuation) (.erased origin index bounds)
              (.erased origin' index' bounds')) h.tail.append.1
          simp [Ty.subst, Ty.findings, except_bind_ok_iff, allMeet_ite, ItemRef.substList,
            horigin, hbounds, hbounds', and_comm]
      | _ => simp [Ty.subst, Ty.findings, except_bind_ok_iff]
  | .array elem size, u, h => by
      cases u with
      | array elem' size' =>
          simp only [Ty.placeholders] at h
          simp [Ty.subst, Ty.findings, except_bind_ok_iff, Ty.subst_iff_meets h,
            ← Const.subst_iff_meets]
      | _ => simp [Ty.subst, Ty.findings, except_bind_ok_iff]
  | .slice elem, u, h => by
      cases u with
      | slice elem' =>
          simp only [Ty.placeholders] at h
          simp [Ty.subst, Ty.findings, except_bind_ok_iff, Ty.subst_iff_meets h]
      | _ => simp [Ty.subst, Ty.findings, except_bind_ok_iff]
  | .tuple elems, u, h => by
      cases u with
      | tuple elems' =>
          simp only [Ty.placeholders] at h
          simp [Ty.subst, Ty.findings, except_bind_ok_iff, allMeet_ite,
            Ty.substList_iff_meets h]
      | _ => simp [Ty.subst, Ty.findings, except_bind_ok_iff]
  | .ref kind target, u, h => by
      cases u with
      | ref kind' target' =>
          simp only [Ty.placeholders] at h
          simp [Ty.subst, Ty.findings, except_bind_ok_iff, allMeet_ite,
            Ty.subst_iff_meets h, and_comm]
      | _ => simp [Ty.subst, Ty.findings, except_bind_ok_iff]
  | .ptr mutable target, u, h => by
      cases u with
      | ptr mutable' target' =>
          simp only [Ty.placeholders] at h
          simp [Ty.subst, Ty.findings, except_bind_ok_iff, allMeet_ite,
            Ty.subst_iff_meets h, and_comm]
      | _ => simp [Ty.subst, Ty.findings, except_bind_ok_iff]
  | .fn args result, u, h => by
      cases u with
      | fn args' result' =>
          simp only [Ty.placeholders] at h
          simp [Ty.subst, Ty.findings, except_bind_ok_iff, allMeet_ite,
            Ty.substList_iff_meets h.append.1, Ty.subst_iff_meets h.append.2, and_assoc]
      | _ => simp [Ty.subst, Ty.findings, except_bind_ok_iff]
termination_by structural t => t

theorem Path.subst_iff_meets {clash : Finding} (hclash : ¬ AllMeet s.valuation [clash]) :
    ∀ {p q : Path}, Bare p.placeholders q.placeholders →
      (p.subst s = .ok q ↔ AllMeet s.valuation (p.findings clash q))
  | .item target, q, h => by
      cases q with
      | item target' =>
          simp [Path.subst, Path.findings, except_bind_ok_iff,
            ItemRef.subst_iff_meets hclash h]
      | _ => simp [Path.subst, Path.findings, except_bind_ok_iff, hclash]
  | .inherent self name args, q, h => by
      cases q with
      | inherent self' name' args' =>
          simp only [Path.placeholders] at h
          simp [Path.subst, Path.findings, except_bind_ok_iff, allMeet_ite hclash,
            Ty.subst_iff_meets h.append.1, Args.subst_iff_meets hclash h.append.2,
            and_assoc, and_comm]
      | _ => simp [Path.subst, Path.findings, except_bind_ok_iff, hclash]
  | .known self trait name args, q, h => by
      cases q with
      | known self' trait' name' args' =>
          simp only [Path.placeholders] at h
          simp [Path.subst, Path.findings, except_bind_ok_iff, allMeet_ite hclash,
            Ty.subst_iff_meets h.append.1.append.1,
            ItemRef.subst_iff_meets hclash h.append.1.append.2,
            Args.subst_iff_meets hclash h.append.2, and_assoc, and_comm, and_left_comm]
      | _ => simp [Path.subst, Path.findings, except_bind_ok_iff, hclash]
  | .unknown self name args, q, h => by
      cases q with
      | unknown self' name' args' =>
          simp only [Path.placeholders] at h
          simp [Path.subst, Path.findings, except_bind_ok_iff, allMeet_ite hclash,
            Ty.subst_iff_meets h.append.1, Args.subst_iff_meets hclash h.append.2,
            and_assoc, and_comm]
      | _ => simp [Path.subst, Path.findings, except_bind_ok_iff, hclash]
termination_by structural p => p

theorem ItemRef.subst_iff_meets {clash : Finding} (hclash : ¬ AllMeet s.valuation [clash]) :
    ∀ {r q : ItemRef}, Bare r.placeholders q.placeholders →
      (r.subst s = .ok q ↔ AllMeet s.valuation (r.findings clash q))
  | ⟨name, args⟩, ⟨name', args'⟩, h => by
      simp only [ItemRef.placeholders] at h
      simp [ItemRef.subst, ItemRef.findings, except_bind_ok_iff, allMeet_ite hclash,
        Args.subst_iff_meets hclash h, and_comm]
termination_by structural r => r

theorem Args.subst_iff_meets {clash : Finding} (hclash : ¬ AllMeet s.valuation [clash]) :
    ∀ {a b : Args}, Bare a.placeholders b.placeholders →
      (a.subst s = .ok b ↔ AllMeet s.valuation (a.findings clash b))
  | ⟨types, consts⟩, ⟨types', consts'⟩, h => by
      simp only [Args.placeholders] at h
      simp [Args.subst, Args.findings, except_bind_ok_iff, allMeet_ite hclash,
        Ty.substList_iff_meets h, Const.substList_iff_meets hclash, and_assoc,
        and_left_comm]
termination_by structural a => a

theorem Ty.substList_iff_meets : ∀ {ts us : List Ty},
    Bare (Ty.placeholdersOfList ts) (Ty.placeholdersOfList us) →
      (Ty.substList s ts = .ok us ↔
        ts.length = us.length ∧ AllMeet s.valuation (Ty.findingsOfList ts us))
  | [], us, _ => by cases us <;> simp [Ty.substList, Ty.findingsOfList]
  | _ :: _, [], _ => by simp [Ty.substList, except_bind_ok_iff]
  | t :: ts, u :: us, h => by
      simp only [Ty.placeholdersOfList] at h
      simp [Ty.substList, Ty.findingsOfList, except_bind_ok_iff,
        Ty.subst_iff_meets h.append.1, Ty.substList_iff_meets h.append.2, and_left_comm]
termination_by structural ts => ts

theorem ItemRef.substList_iff_meets {clash : Finding}
    (hclash : ¬ AllMeet s.valuation [clash]) : ∀ {rs qs : List ItemRef},
    Bare (ItemRef.placeholdersOfList rs) (ItemRef.placeholdersOfList qs) →
      (ItemRef.substList s rs = .ok qs ↔
        rs.length = qs.length ∧ AllMeet s.valuation (ItemRef.findingsOfList clash rs qs))
  | [], qs, _ => by cases qs <;> simp [ItemRef.substList, ItemRef.findingsOfList]
  | _ :: _, [], _ => by simp [ItemRef.substList, except_bind_ok_iff]
  | r :: rs, q :: qs, h => by
      simp only [ItemRef.placeholdersOfList] at h
      simp [ItemRef.substList, ItemRef.findingsOfList, except_bind_ok_iff,
        ItemRef.subst_iff_meets hclash h.append.1,
        ItemRef.substList_iff_meets hclash h.append.2, and_left_comm]
termination_by structural rs => rs

end

end Substitution

end Unerase
