import Mathlib.Data.List.Forall2

namespace Unerase

variable {α β γ δ : Type}

@[simp] theorem optionRel_eq : Option.Rel (Eq : α → α → Prop) = Eq := by
  funext x y
  cases x <;> cases y <;> simp [Option.rel_some_some]

theorem optionRel_mono {r s : α → β → Prop}
    (h : ∀ a b, r a b → s a b) {x : Option α} {y : Option β} :
    Option.Rel r x y → Option.Rel s x y
  | .some hab => .some (h _ _ hab)
  | .none => .none

theorem optionRel_isSome {R : α → β → Prop} {x : Option α} {y : Option β} :
    Option.Rel R x y → x.isSome = y.isSome
  | .some _ => rfl
  | .none => rfl

theorem optionRel_bind {R : α → β → Prop} {S : γ → δ → Prop}
    {x : Option α} {y : Option β} {f : α → Option γ} {g : β → Option δ}
    (h : Option.Rel R x y) (hfg : ∀ a b, R a b → Option.Rel S (f a) (g b)) :
    Option.Rel S (x.bind f) (y.bind g) := by
  cases h with
  | none => exact .none
  | some hab => exact hfg _ _ hab

theorem optionRel_of_some {R : α → β → Prop} {a : α} {y : Option β}
    (h : Option.Rel R (some a) y) : ∃ b, y = some b ∧ R a b := by
  cases h with
  | some hab => exact ⟨_, rfl, hab⟩

theorem optionRel_unique {R S : α → β → Prop} {x : Option α} {y z : Option β}
    (hy : Option.Rel R x y) (hz : Option.Rel S x z)
    (h : ∀ a b c, R a b → S a c → b = c) : y = z := by
  cases hy with
  | none =>
      cases hz
      rfl
  | some hr =>
      rcases hz with ⟨hs⟩ | -
      rw [h _ _ _ hr hs]

theorem optionRel_symm {R : α → β → Prop} {S : β → α → Prop} {x? : Option α} {y? : Option β}
    (hRS : ∀ x ∈ x?, ∀ y ∈ y?, R x y → S y x) (h : Option.Rel R x? y?) :
    Option.Rel S y? x? := by
  cases h with
  | none => exact .none
  | some h => exact .some (hRS _ rfl _ rfl h)

theorem optionRel_trans {R : α → β → Prop} {S : β → γ → Prop} {T : α → γ → Prop}
    {x? : Option α} {y? : Option β} {z? : Option γ}
    (hRST : ∀ x ∈ x?, ∀ y ∈ y?, ∀ z ∈ z?, R x y → S y z → T x z) (h : Option.Rel R x? y?)
    (h' : Option.Rel S y? z?) : Option.Rel T x? z? := by
  cases h with
  | none =>
      cases h' with
      | none => exact .none
  | some h =>
      cases h' with
      | some h' => exact .some (hRST _ rfl _ rfl _ rfl h h')

theorem forall₂_unique {R S : α → β → Prop} {as : List α}
    {bs cs : List β} (hb : List.Forall₂ R as bs) (hc : List.Forall₂ S as cs)
    (h : ∀ a b c, R a b → S a c → b = c) : bs = cs := by
  induction hb generalizing cs with
  | nil =>
      cases hc
      rfl
  | cons hr _ ih =>
      rcases hc with - | ⟨hs, hc⟩
      rw [h _ _ _ hr hs, ih hc]

theorem forall₂_related {P : α → β → Prop} {Q : α → γ → Prop} {Q' : β → δ → Prop}
    {S : γ → δ → Prop} (h : ∀ a b c d, P a b → Q a c → Q' b d → S c d)
    {as : List α} {bs : List β} {cs : List γ} {ds : List δ} (hab : List.Forall₂ P as bs)
    (hc : List.Forall₂ Q as cs) (hd : List.Forall₂ Q' bs ds) : List.Forall₂ S cs ds := by
  induction hab generalizing cs ds with
  | nil =>
      cases hc
      cases hd
      exact .nil
  | cons hp _ ih =>
      rcases hc with - | ⟨hq, hc⟩
      rcases hd with - | ⟨hq', hd⟩
      exact .cons (h _ _ _ _ hp hq hq') (ih hc hd)

theorem forall₂_symm {R : α → β → Prop} {S : β → α → Prop} {as : List α} {bs : List β}
    (hRS : ∀ a ∈ as, ∀ b ∈ bs, R a b → S b a) (h : List.Forall₂ R as bs) :
    List.Forall₂ S bs as := by
  induction h with
  | nil => exact .nil
  | cons hab _ ih =>
      refine .cons (hRS _ List.mem_cons_self _ List.mem_cons_self hab) (ih fun a ha b hb => ?_)
      exact hRS a (List.mem_cons_of_mem _ ha) b (List.mem_cons_of_mem _ hb)

theorem forall₂_trans {R : α → β → Prop} {S : β → γ → Prop} {T : α → γ → Prop}
    {as : List α} {bs : List β} {cs : List γ}
    (hRST : ∀ a ∈ as, ∀ b ∈ bs, ∀ c ∈ cs, R a b → S b c → T a c)
    (h : List.Forall₂ R as bs) (h' : List.Forall₂ S bs cs) : List.Forall₂ T as cs := by
  induction h generalizing cs with
  | nil =>
      cases h' with
      | nil => exact .nil
  | cons hab _ ih =>
      cases h' with
      | cons hbc h' =>
          refine .cons (hRST _ List.mem_cons_self _ List.mem_cons_self _ List.mem_cons_self hab hbc)
            (ih (fun a ha b hb c hc => ?_) h')
          exact hRST a (List.mem_cons_of_mem _ ha) b (List.mem_cons_of_mem _ hb) c
            (List.mem_cons_of_mem _ hc)

theorem forall₂_snoc {R : α → β → Prop} {as : List α} {a : α} {bs : List β}
    (h : List.Forall₂ R (as ++ [a]) bs) :
    ∃ bs' b, bs = bs' ++ [b] ∧ List.Forall₂ R as bs' ∧ R a b := by
  induction as generalizing bs with
  | nil =>
      rcases h with - | ⟨hab, hnil⟩
      cases hnil
      exact ⟨[], _, rfl, .nil, hab⟩
  | cons a' as ih =>
      rcases h with - | ⟨hab', hrest⟩
      obtain ⟨bs', b, rfl, has, hab⟩ := ih hrest
      exact ⟨_ :: bs', b, rfl, .cons hab' has, hab⟩

theorem forall₂_exists {R : α → β → Prop} {as : List α} {bs : List β}
    (h : List.Forall₂ R as bs) {a : α} (ha : a ∈ as) : ∃ b ∈ bs, R a b := by
  obtain ⟨i, hi, rfl⟩ := List.mem_iff_getElem.1 ha
  have hb : i < bs.length := h.length_eq ▸ hi
  exact ⟨bs[i], List.getElem_mem hb, h.get hi hb⟩

theorem forall₂_getElem? {R : α → β → Prop} {as : List α} {bs : List β}
    (h : List.Forall₂ R as bs) (i : Nat) : Option.Rel R as[i]? bs[i]? := by
  induction h generalizing i with
  | nil => exact .none
  | cons hab _ ih =>
      cases i with
      | zero => exact .some hab
      | succ i => exact ih i

theorem forall₂_set {R : α → β → Prop} {as : List α} {bs : List β}
    (h : List.Forall₂ R as bs) {a : α} {b : β} (hab : R a b) (i : Nat) :
    List.Forall₂ R (as.set i a) (bs.set i b) := by
  induction h generalizing i with
  | nil => exact .nil
  | cons hxy hrest ih =>
      cases i with
      | zero => exact .cons hab hrest
      | succ i => exact .cons hxy (ih i)

theorem lookup_related {κ : Type} [BEq κ] {P : α → β → Prop}
    {as : List (κ × α)} {bs : List (κ × β)}
    (h : List.Forall₂ (fun a b => a.1 = b.1 ∧ P a.2 b.2) as bs) (k : κ) :
    Option.Rel P (as.lookup k) (bs.lookup k) := by
  induction h with
  | nil => exact .none
  | @cons a b as bs hab _ ih =>
      obtain ⟨k', x⟩ := a
      obtain ⟨_, y⟩ := b
      obtain ⟨rfl, hxy⟩ := hab
      simp only [List.lookup_cons]
      split
      · exact .some hxy
      · exact ih

theorem findSome?_related {P : α → β → Prop} {Q : γ → δ → Prop}
    {f : α → Option γ} {g : β → Option δ}
    (hfg : ∀ a b, P a b → Option.Rel Q (f a) (g b)) {as : List α} {bs : List β}
    (h : List.Forall₂ P as bs) : Option.Rel Q (as.findSome? f) (bs.findSome? g) := by
  induction h with
  | nil => exact .none
  | @cons a b as bs hab _ ih =>
      have hhead := hfg a b hab
      rw [List.findSome?_cons, List.findSome?_cons]
      generalize f a = x at hhead ⊢
      generalize g b = y at hhead ⊢
      cases hhead with
      | none => exact ih
      | some hcd => exact .some hcd

end Unerase
