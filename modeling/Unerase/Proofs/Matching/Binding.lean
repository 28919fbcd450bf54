import Unerase.Expansion.ImplBinding
import Unerase.Proofs.Matching.Free
import Unerase.Proofs.Matching.Instance
import Unerase.Ty.Fit

/-!
The matchers of the expansion. An impl block that may apply to a type may apply to
each instance of the type (`Ty.fits_subst`), and the arguments that it gets for the
instance are the instances of those that it gets for the type
(`ImplBinding.toArgs_subst`). What goes wrong on the way is neither a cycle nor a matter of
depth (`ImplBinding.toArgs_error`).
-/

namespace Unerase

open Finding

namespace Matcher

variable {ε σ ε' σ' ι : Type}

/-- Matches compare if the answers to their findings do. -/
theorem replay_related {L : Run.Comparison ε σ ε' σ' ι} {m : Matcher ε σ}
    {m' : Matcher ε' σ'} {P : Finding → Finding → Prop}
    (h : ∀ f g, P f g → L.Holds Eq (m.answer f) fun _ => m'.answer g)
    {fs gs : List Finding} (hfs : List.Forall₂ P fs gs) :
    L.Holds Eq (m.replay fs) fun _ => m'.replay gs := by
  induction hfs with
  | nil => exact L.pure rfl
  | cons hf _ ih => exact L.bind (h _ _ hf) fun _ _ _ => ih

theorem noClash_of_replay {m : Matcher ε σ} {fs : List Finding} {s s' : σ}
    (h : m.replay fs s = (.ok (), s')) : NoClash fs := by
  induction fs generalizing s with
  | nil => simp
  | cons f fs ih =>
      obtain ⟨⟨⟩, s₁, hf, hfs⟩ := Run.bind_ok_iff.1 h
      have hone : NoClash [f] := by
        cases f with
        | clash => cases hf
        | _ => simp
      exact noClash_append.2 ⟨hone, ih hfs⟩

theorem exists_answer_of_replay {m : Matcher ε σ} {fs : List Finding} {s s' : σ} {e : ε}
    (h : m.replay fs s = (.error e, s')) :
    ∃ f ∈ fs, ∃ s₁, m.answer f s₁ = (.error e, s') := by
  induction fs generalizing s with
  | nil => cases h
  | cons f fs ih =>
      rw [replay, Run.bind_apply] at h
      rcases hf : m.answer f s with ⟨e' | ⟨⟩, s₁⟩
      · simp only [hf] at h
        cases h
        exact ⟨f, List.mem_cons_self, s, hf⟩
      · simp only [hf] at h
        obtain ⟨g, hg, hanswer⟩ := ih h
        exact ⟨g, List.mem_cons_of_mem f hg, hanswer⟩

theorem replay_invariant {m : Matcher ε σ} {I : σ → Prop} {fs : List Finding}
    (h : ∀ f ∈ fs, ∀ s s', I s → m.answer f s = (.ok (), s') → I s') {s s' : σ}
    (hs : I s) (hfs : m.replay fs s = (.ok (), s')) : I s' := by
  induction fs generalizing s with
  | nil =>
      cases hfs
      exact hs
  | cons f fs ih =>
      obtain ⟨⟨⟩, s₁, hf, hfs⟩ := Run.bind_ok_iff.1 hfs
      exact ih (fun g hg => h g (List.mem_cons_of_mem f hg))
        (h f List.mem_cons_self s s₁ hs hf) hfs

end Matcher

namespace Fit

/-- The same parameters have lined up, with instances. -/
structure Instance (s : Subst) (fit fit' : Fit) : Prop where
  types : List.Forall₂ (fun a b => a.1 = b.1 ∧ Ty.subst s a.2 = .ok b.2)
    fit.types fit'.types
  consts : List.Forall₂ (fun a b => a.1 = b.1 ∧ Const.subst s a.2 = .ok b.2)
    fit.consts fit'.consts

variable {s : Subst} {fit fit' fit₁ : Fit}

theorem bindType_instance (h : Instance s fit fit') {p : Param} {t u : Ty}
    (ht : t.subst s = .ok u) (hbind : bindType p t fit = (.ok (), fit₁)) :
    ∃ fit₁', bindType p u fit' = (.ok (), fit₁') ∧ Instance s fit₁ fit₁' := by
  have hlookup : Option.Rel (fun t u => Ty.subst s t = .ok u)
      (fit.types.lookup p) (fit'.types.lookup p) := lookup_related h.types p
  simp only [bindType] at hbind ⊢
  generalize fit.types.lookup p = bound? at hlookup hbind
  generalize fit'.types.lookup p = bound'? at hlookup
  cases hlookup with
  | none =>
      cases hbind
      exact ⟨_, rfl, List.rel_append h.types (.cons ⟨rfl, ht⟩ .nil), h.consts⟩
  | @some bound bound' hbound =>
      simp only at hbind ⊢
      split at hbind
      · rename_i heq
        subst heq
        cases hbind
        rw [ht] at hbound
        cases hbound
        exact ⟨fit', by simp, h⟩
      · cases hbind

theorem bindConst_instance (h : Instance s fit fit') {p : Param} {c d : Const}
    (hc : c.subst s = .ok d) (hbind : bindConst p c fit = (.ok (), fit₁)) :
    ∃ fit₁', bindConst p d fit' = (.ok (), fit₁') ∧ Instance s fit₁ fit₁' := by
  have hlookup : Option.Rel (fun c d => Const.subst s c = .ok d)
      (fit.consts.lookup p) (fit'.consts.lookup p) := lookup_related h.consts p
  simp only [bindConst] at hbind ⊢
  generalize fit.consts.lookup p = bound? at hlookup hbind
  generalize fit'.consts.lookup p = bound'? at hlookup
  cases hlookup with
  | none =>
      cases hbind
      exact ⟨_, rfl, h.types, List.rel_append h.consts (.cons ⟨rfl, hc⟩ .nil)⟩
  | @some bound bound' hbound =>
      simp only at hbind ⊢
      split at hbind
      · rename_i heq
        subst heq
        cases hbind
        rw [hc] at hbound
        cases hbound
        exact ⟨fit', by simp, h⟩
      · cases hbind

theorem answer_instance {f g : Finding} (hfg : f.Instance s g) :
    (Run.following Unit Unit (Instance s)).Holds Eq (matcher.answer f)
      fun _ => matcher.answer g := by
  rw [Run.following_const_iff]
  rintro fit fit' hfit ⟨⟩ fit₁ hanswer
  cases hfg with
  | type ht => exact bindType_instance hfit ht hanswer
  | const hc => exact bindConst_instance hfit hc hanswer

end Fit

/-- A pattern that may stand for a type may stand for each of its instances. -/
theorem Ty.fits_subst {s : Subst} {pattern t u : Ty} (ht : t.subst s = .ok u)
    (h : pattern.fits t = true) : pattern.fits u = true := by
  rw [Ty.fits, Ty.matchWith_eq_replay] at h ⊢
  rcases hreplay : Fit.matcher.replay (pattern.findings t) .empty with ⟨_ | ⟨⟨⟩⟩, fit⟩
  · simp [hreplay] at h
  · have hclash := Matcher.noClash_of_replay hreplay
    have hfollow := Matcher.replay_related (fun _ _ => Fit.answer_instance)
      (Ty.findings_subst pattern ht hclash)
    obtain ⟨fit', hfit', -⟩ := Run.following_const_iff.1 hfollow .empty .empty
      ⟨.nil, .nil⟩ () fit hreplay
    rw [hfit']

/-- The error is about one key, and not about keys that are nested in each other. -/
def ExpansionError.IsLocal : ExpansionError → Prop
  | cycle _ | tooDeep .. => False
  | _ => True

/-- Something about one key has stopped the walk. -/
def Fault.IsLocal (fault : Fault ExpansionError) : Prop :=
  ∃ e : ExpansionError, fault = .error e ∧ e.IsLocal

namespace ImplBinding

variable {s : Subst} {origin origin' : Path} {generics : Generics}
  {bound bound' bound₁ : ImplBinding}

/-- The second binding has the instances of what is bound in the first one. -/
def Instance (s : Subst) : ImplBinding → ImplBinding → Prop :=
  List.Forall₂ (Option.Rel fun t u => Ty.subst s t = .ok u)

theorem unbound_instance : Instance s (unbound generics) (unbound generics) := by
  refine List.forall₂_same.2 fun t? ht => ?_
  rw [List.eq_of_mem_replicate ht]
  exact .none

theorem bindType_instance (h : Instance s bound bound') {p : Param} {t u : Ty}
    (ht : t.subst s = .ok u) (hbind : bindType origin p t bound = (.ok (), bound₁)) :
    ∃ bound₁', bindType origin' p u bound' = (.ok (), bound₁') ∧
      Instance s bound₁ bound₁' := by
  obtain ⟨name, slot⟩ := p
  cases slot with
  | impl index =>
      simp only [bindType] at hbind ⊢
      split at hbind
      · rename_i hindex
        cases hbind
        rw [if_pos (h.length_eq ▸ hindex)]
        exact ⟨_, rfl, forall₂_set h (.some ht) index⟩
      · cases hbind
  | _ => cases hbind

theorem answer_instance (origin origin' : Path) {f g : Finding} (hfg : f.Instance s g) :
    (Run.following ExpansionError ExpansionError (Instance s)).Holds Eq
      ((matcher origin).answer f) fun _ => (matcher origin').answer g := by
  rw [Run.following_const_iff]
  rintro bound bound' hbound ⟨⟩ bound₁ hanswer
  cases hfg with
  | type ht => exact bindType_instance hbound ht hanswer
  | const => cases hanswer

/-- A block whose self type matches a type matches each instance of the type. -/
theorem matchWith_subst (origin' : Path) {pattern t u : Ty} (ht : t.subst s = .ok u)
    (h : pattern.matchWith (matcher origin) t (unbound generics) =
      (.ok (), bound)) :
    ∃ bound', pattern.matchWith (matcher origin') u (unbound generics) =
      (.ok (), bound') ∧ Instance s bound bound' := by
  rw [Ty.matchWith_eq_replay] at h ⊢
  have hclash := Matcher.noClash_of_replay h
  have hfollow := Matcher.replay_related (fun _ _ => answer_instance origin origin')
    (Ty.findings_subst pattern ht hclash)
  exact Run.following_const_iff.1 hfollow _ _ unbound_instance () bound h

theorem types_subst (origin origin' : Path) {index : Nat} {ts : List Ty}
    (h : Instance s bound bound') (hts : types origin generics index bound = .ok ts) :
    ∃ us, types origin' generics index bound' = .ok us ∧
      Ty.substList s ts = .ok us := by
  induction h generalizing index ts with
  | nil =>
      cases hts
      exact ⟨[], rfl, rfl⟩
  | @cons t? u? bound bound' htu _ ih =>
      cases htu with
      | none =>
          rw [types] at hts
          split at hts <;> cases hts
      | some htu =>
          simp only [types, except_bind_ok_iff] at hts
          obtain ⟨ts, hts, ⟨⟩⟩ := hts
          obtain ⟨us, hus, hsubst⟩ := ih hts
          exact ⟨_, by rw [types, hus]; rfl,
            by simp [Ty.substList, bind, Except.bind, htu, hsubst]⟩

theorem toArgs_subst (origin' : Path) {a : Args} (h : Instance s bound bound')
    (ha : bound.toArgs origin generics = .ok a) :
    ∃ b, bound'.toArgs origin' generics = .ok b ∧ a.subst s = .ok b := by
  simp only [toArgs, except_bind_ok_iff] at ha
  obtain ⟨ts, hts, ha⟩ := ha
  split at ha
  · rename_i hconsts
    cases ha
    obtain ⟨us, hus, hsubst⟩ := types_subst origin origin' h hts
    exact ⟨⟨us, []⟩, by simp [toArgs, bind, Except.bind, hus, hconsts],
      by simp [Args.subst, Const.substList, bind, Except.bind, hsubst]⟩
  · cases ha

/-- What is bound has no placeholders. -/
def Free (bound : ImplBinding) : Prop :=
  ∀ t, some t ∈ bound → t.hasErased = false

theorem bindType_free (h : Free bound) {p : Param} {t : Ty}
    (ht : t.hasErased = false) (hbind : bindType origin p t bound = (.ok (), bound₁)) :
    Free bound₁ := by
  obtain ⟨name, slot⟩ := p
  cases slot with
  | impl index =>
      simp only [bindType] at hbind
      split at hbind
      · cases hbind
        intro u hu
        rcases List.mem_or_eq_of_mem_set hu with hu | hu
        · exact h u hu
        · cases hu
          exact ht
      · cases hbind
  | _ => cases hbind

theorem matchWith_free {pattern t : Ty} (ht : t.hasErased = false)
    (h : pattern.matchWith (matcher origin) t (unbound generics) =
      (.ok (), bound)) : Free bound := by
  rw [Ty.matchWith_eq_replay] at h
  have hfree : AllFree (pattern.findings t) := Ty.findings_free pattern ht
  refine Matcher.replay_invariant (I := Free) (fun f hf bound bound₁ hbound hanswer => ?_)
    (fun u hu => by simp [unbound] at hu) h
  cases f with
  | type p u => exact bindType_free hbound (hfree p u hf) hanswer
  | const => cases hanswer
  | clash => cases hanswer

theorem types_free {index : Nat} {ts : List Ty} (h : Free bound)
    (hts : types origin generics index bound = .ok ts) :
    Ty.anyErased ts = false := by
  induction bound generalizing index ts with
  | nil =>
      cases hts
      simp [Ty.anyErased]
  | cons t? bound ih =>
      cases t? with
      | none =>
          rw [types] at hts
          split at hts <;> cases hts
      | some t =>
          simp only [types, except_bind_ok_iff] at hts
          obtain ⟨ts, hts, ⟨⟩⟩ := hts
          have ht : t.hasErased = false := h t List.mem_cons_self
          have hrest : Free bound := fun u hu => h u (List.mem_cons_of_mem _ hu)
          simp [Ty.anyErased, ht, ih hrest hts]

theorem toArgs_free {a : Args} (h : Free bound)
    (ha : bound.toArgs origin generics = .ok a) : a.hasErased = false := by
  simp only [toArgs, except_bind_ok_iff] at ha
  obtain ⟨ts, hts, ha⟩ := ha
  split at ha
  · cases ha
    simpa [Args.hasErased] using types_free h hts
  · cases ha

theorem length_answer (origin : Path) (f : Finding) (bound : ImplBinding) :
    ((matcher origin).answer f bound).2.length = bound.length := by
  cases f with
  | type p t =>
      obtain ⟨name, slot⟩ := p
      cases slot with
      | impl i =>
          simp only [Matcher.answer, matcher, bindType]
          split
          · exact List.length_set
          · rfl
      | self | method => rfl
  | const | clash => rfl

theorem length_matchWith (origin : Path) (pattern t : Ty) (bound : ImplBinding) :
    (pattern.matchWith (matcher origin) t bound).2.length = bound.length := by
  rw [Ty.matchWith_eq_replay]
  induction pattern.findings t generalizing bound with
  | nil => rfl
  | cons f fs ih =>
      have hf := length_answer origin f bound
      rw [Matcher.replay, Run.bind_apply]
      generalize (matcher origin).answer f bound = outcome at hf ⊢
      obtain ⟨e | ⟨⟩, bound₁⟩ := outcome
      · exact hf
      · exact (ih bound₁).trans hf

theorem matchWith_length {pattern t : Ty}
    (h : pattern.matchWith (matcher origin) t (unbound generics) = (.ok (), bound)) :
    bound.length = generics.types.length := by
  have hlength := length_matchWith origin pattern t (unbound generics)
  rw [h] at hlength
  exact hlength.trans List.length_replicate

theorem matchWith_error {pattern t : Ty} {e : ExpansionError}
    (h : pattern.matchWith (matcher origin) t bound = (.error e, bound₁)) : e.IsLocal := by
  rw [Ty.matchWith_eq_replay] at h
  obtain ⟨f, -, bound₂, hanswer⟩ := Matcher.exists_answer_of_replay h
  cases f with
  | type p u =>
      simp only [Matcher.answer, matcher, bindType] at hanswer
      split at hanswer
      · split at hanswer <;> cases hanswer
        trivial
      · cases hanswer
        trivial
  | const | clash =>
      cases hanswer
      trivial

theorem types_error {index : Nat} {fault : Fault ExpansionError}
    (hlength : index + bound.length ≤ generics.types.length)
    (h : types origin generics index bound = .error fault) : fault.IsLocal := by
  induction bound generalizing index with
  | nil => cases h
  | cons t? bound ih =>
      rw [List.length_cons] at hlength
      cases t? with
      | none =>
          have hindex : index < generics.types.length := by omega
          rw [types, List.getElem?_eq_getElem hindex] at h
          cases h
          exact ⟨_, rfl, trivial⟩
      | some t =>
          rw [types, except_bind_error_iff] at h
          rcases h with hrest | ⟨ts, -, ⟨⟩⟩
          exact ih (by omega) hrest

theorem toArgs_error {fault : Fault ExpansionError}
    (hlength : bound.length = generics.types.length)
    (h : bound.toArgs origin generics = .error fault) : fault.IsLocal := by
  rw [toArgs, except_bind_error_iff] at h
  rcases h with htypes | ⟨ts, -, hconsts⟩
  · exact types_error (by omega) htypes
  · split at hconsts
    · cases hconsts
    · cases hconsts
      exact ⟨_, rfl, trivial⟩

end ImplBinding

end Unerase
