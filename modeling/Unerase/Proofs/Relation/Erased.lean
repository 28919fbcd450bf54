import Unerase.Proofs.Relation.Ty

namespace Unerase

section Free

variable {R : Ty → Ty → Prop} (h : ∀ t u, R t u → u.hasErased = false)

include h

theorem Ty.anyErased_of_forall₂ {ts us : List Ty} (hts : List.Forall₂ R ts us) :
    Ty.anyErased us = false := by
  induction hts with
  | nil => simp [Ty.anyErased]
  | cons ht _ ih => simp [Ty.anyErased, h _ _ ht, ih]

theorem Args.Rel.hasErased {a b : Args} (hab : a.Rel R b) :
    b.hasErased = false := by
  obtain ⟨types⟩ := hab
  simpa [Args.hasErased] using Ty.anyErased_of_forall₂ h types

theorem ItemRef.Rel.hasErased {r s : ItemRef} (hrs : r.Rel R s) :
    s.hasErased = false := by
  obtain ⟨args⟩ := hrs
  simpa [ItemRef.hasErased] using args.hasErased h

theorem ItemRef.anyErased_of_forall₂ {rs ss : List ItemRef}
    (hrs : List.Forall₂ (ItemRef.Rel R) rs ss) : ItemRef.anyErased ss = false := by
  induction hrs with
  | nil => simp [ItemRef.anyErased]
  | cons hr _ ih => simp [ItemRef.anyErased, hr.hasErased h, ih]

theorem Path.Rel.hasErased {p q : Path} (hpq : p.Rel R q) :
    q.hasErased = false := by
  cases hpq with
  | item target => simp [Path.hasErased, target.hasErased h]
  | inherent self args => simp [Path.hasErased, h _ _ self, args.hasErased h]
  | known self trait args =>
      simp [Path.hasErased, h _ _ self, trait.hasErased h, args.hasErased h]
  | unknown self args => simp [Path.hasErased, h _ _ self, args.hasErased h]

theorem Ty.Parts.hasErased {t u : Ty} (htu : Ty.Parts R t u) :
    u.hasErased = false := by
  cases htu with
  | never => simp [Ty.hasErased]
  | prim => simp [Ty.hasErased]
  | param => simp [Ty.hasErased]
  | path p => simp [Ty.hasErased, p.hasErased h]
  | dyn trait markers =>
      simp [Ty.hasErased, trait.hasErased h, ItemRef.anyErased_of_forall₂ h markers]
  | array elem => simp [Ty.hasErased, h _ _ elem]
  | slice elem => simp [Ty.hasErased, h _ _ elem]
  | tuple elems => simp [Ty.hasErased, Ty.anyErased_of_forall₂ h elems]
  | ref target => simp [Ty.hasErased, h _ _ target]
  | ptr target => simp [Ty.hasErased, h _ _ target]
  | fn args result =>
      simp [Ty.hasErased, Ty.anyErased_of_forall₂ h args, h _ _ result]

end Free

section Restrict

variable {R S : Ty → Ty → Prop} (h : ∀ t u, t.hasErased = false → R t u → S t u)

include h

theorem Ty.forall₂_of_anyErased {ts us : List Ty} (hts : List.Forall₂ R ts us)
    (hfree : Ty.anyErased ts = false) : List.Forall₂ S ts us := by
  induction hts with
  | nil => exact .nil
  | cons ht _ ih =>
      simp only [Ty.anyErased, Bool.or_eq_false_iff] at hfree
      exact .cons (h _ _ hfree.1 ht) (ih hfree.2)

theorem Args.Rel.of_hasErased {a b : Args} (hab : a.Rel R b)
    (hfree : a.hasErased = false) : a.Rel S b := by
  obtain ⟨types⟩ := hab
  simp only [Args.hasErased] at hfree
  exact .intro (Ty.forall₂_of_anyErased h types hfree)

theorem ItemRef.Rel.of_hasErased {r s : ItemRef} (hrs : r.Rel R s)
    (hfree : r.hasErased = false) : r.Rel S s := by
  obtain ⟨args⟩ := hrs
  simp only [ItemRef.hasErased] at hfree
  exact .intro (args.of_hasErased h hfree)

theorem ItemRef.forall₂_of_anyErased {rs ss : List ItemRef}
    (hrs : List.Forall₂ (ItemRef.Rel R) rs ss)
    (hfree : ItemRef.anyErased rs = false) :
    List.Forall₂ (ItemRef.Rel S) rs ss := by
  induction hrs with
  | nil => exact .nil
  | cons hr _ ih =>
      simp only [ItemRef.anyErased, Bool.or_eq_false_iff] at hfree
      exact .cons (hr.of_hasErased h hfree.1) (ih hfree.2)

theorem Path.Rel.of_hasErased {p q : Path} (hpq : p.Rel R q)
    (hfree : p.hasErased = false) : p.Rel S q := by
  cases hpq with
  | item target =>
      simp only [Path.hasErased] at hfree
      exact .item (target.of_hasErased h hfree)
  | inherent self args =>
      simp only [Path.hasErased, Bool.or_eq_false_iff] at hfree
      exact .inherent (h _ _ hfree.1 self) (args.of_hasErased h hfree.2)
  | known self trait args =>
      simp only [Path.hasErased, Bool.or_eq_false_iff] at hfree
      exact .known (h _ _ hfree.1.1 self) (trait.of_hasErased h hfree.1.2)
        (args.of_hasErased h hfree.2)
  | unknown self args =>
      simp only [Path.hasErased, Bool.or_eq_false_iff] at hfree
      exact .unknown (h _ _ hfree.1 self) (args.of_hasErased h hfree.2)

theorem Ty.Parts.of_hasErased {t u : Ty} (htu : Ty.Parts R t u)
    (hfree : t.hasErased = false) : Ty.Parts S t u := by
  cases htu with
  | never => exact .never
  | prim p => exact .prim p
  | param p => exact .param p
  | path p =>
      simp only [Ty.hasErased] at hfree
      exact .path (p.of_hasErased h hfree)
  | dyn trait markers =>
      simp only [Ty.hasErased, Bool.or_eq_false_iff] at hfree
      exact .dyn (trait.of_hasErased h hfree.1)
        (ItemRef.forall₂_of_anyErased h markers hfree.2)
  | array elem =>
      simp only [Ty.hasErased] at hfree
      exact .array (h _ _ hfree elem)
  | slice elem =>
      simp only [Ty.hasErased] at hfree
      exact .slice (h _ _ hfree elem)
  | tuple elems =>
      simp only [Ty.hasErased] at hfree
      exact .tuple (Ty.forall₂_of_anyErased h elems hfree)
  | ref target =>
      simp only [Ty.hasErased] at hfree
      exact .ref (h _ _ hfree target)
  | ptr target =>
      simp only [Ty.hasErased] at hfree
      exact .ptr (h _ _ hfree target)
  | fn args result =>
      simp only [Ty.hasErased, Bool.or_eq_false_iff] at hfree
      exact .fn (Ty.forall₂_of_anyErased h args hfree.1) (h _ _ hfree.2 result)

end Restrict

end Unerase
