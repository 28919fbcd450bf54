import Unerase.Proofs.Expansion.Unfolding
import Unerase.Proofs.Walk.Completion

/-!
The height of a type: how many placeholders have to be unfolded one inside the other to
expand it. Heights are what the depth limit is compared with: `Unfolding` expands a type
within a bound exactly if the type has a height up to the bound
(`Unfolding.completes_iff`). The types of height 0 are those without placeholders.
-/

namespace Unerase

/-- The largest of the numbers, 0 if there are none. -/
def greatest (ns : List Nat) : Nat :=
  ns.foldr max 0

theorem greatest_le_iff {ns : List Nat} {n : Nat} :
    greatest ns ≤ n ↔ ∀ m ∈ ns, m ≤ n := by
  unfold greatest
  induction ns with
  | nil => simp
  | cons m ns ih => simp [ih]

/-- A type is as high as the highest of its parts. A placeholder is as high as its origin,
and higher than the type that it stands for once the origin is expanded. A type has no
height if one of these types cannot be found, or if there is no end to them. -/
inductive Height (index : Index) : Ty → Nat → Prop
  | parts {t : Ty} {height : Ty → Nat} :
      t.isErased = false → (∀ u ∈ t.parts, Height index u (height u)) →
      Height index t (greatest (t.parts.map height))
  | placeholder {origin origin' : Path} {i : Nat} {bounds : List ItemRef} {t : Ty}
      {height : Ty → Nat} {n : Nat} :
      (∀ u ∈ origin.parts, Height index u (height u)) →
      origin.Rel (Expands index) origin' → index.unfold ⟨origin', i⟩ = .ok t →
      Height index t n →
      Height index (.erased origin i bounds)
        (max (greatest (origin.parts.map height)) (1 + n))

/-- The type has a height, which is the bound at most. -/
def HeightAtMost (index : Index) (bound : Nat) (t : Ty) : Prop :=
  ∃ n, n ≤ bound ∧ Height index t n

/-- A chain of so many placeholders. Each of them stands for the next one, and the last for
a type without placeholders. -/
inductive Chain (index : Index) : Nat → Ty → Prop
  | free {t : Ty} : t.hasErased = false → Chain index 0 t
  | link {origin : Path} {i : Nat} {bounds : List ItemRef} {t : Ty} {n : Nat} :
      origin.hasErased = false → index.unfold ⟨origin, i⟩ = .ok t → Chain index n t →
      Chain index (n + 1) (.erased origin i bounds)

variable {index : Index} {t : Ty} {bound : Nat}

theorem Height.unique {m n : Nat} (hm : Height index t m) (hn : Height index t n) :
    m = n := by
  induction hm generalizing n with
  | @parts t height ht _ ih =>
      cases hn with
      | parts _ hparts =>
          have hmap := List.map_congr_left fun u hu => ih u hu (hparts u hu)
          rw [hmap]
      | placeholder => cases ht
  | @placeholder origin origin' i bounds t height m _ horigin hunfold _ iho ih =>
      cases hn with
      | parts ht => cases ht
      | placeholder hparts horigin' hunfold' hn =>
          have hmap := List.map_congr_left fun u hu => iho u hu (hparts u hu)
          cases horigin.unique (fun _ _ _ hu hv => hu.unique hv) horigin'
          rw [hunfold] at hunfold'
          cases hunfold'
          rw [hmap, ih hn]

namespace HeightAtMost

theorem mono {bound' : Nat} (h : HeightAtMost index bound t) (hle : bound ≤ bound') :
    HeightAtMost index bound' t := by
  obtain ⟨n, hn, hheight⟩ := h
  exact ⟨n, Nat.le_trans hn hle, hheight⟩

theorem exists_heights {ts : List Ty} (h : ∀ t ∈ ts, HeightAtMost index bound t) :
    ∃ height : Ty → Nat, (∀ t ∈ ts, Height index t (height t)) ∧
      greatest (ts.map height) ≤ bound := by
  choose! height hle hheight using h
  refine ⟨height, hheight, ?_⟩
  simpa [greatest_le_iff] using hle

theorem of_parts (ht : t.isErased = false)
    (h : ∀ u ∈ t.parts, HeightAtMost index bound u) : HeightAtMost index bound t := by
  obtain ⟨height, hheight, hle⟩ := exists_heights h
  exact ⟨_, hle, .parts ht hheight⟩

theorem of_unfold {origin origin' : Path} {i : Nat} {bounds : List ItemRef}
    (hparts : ∀ u ∈ origin.parts, HeightAtMost index (bound + 1) u)
    (horigin : origin.Rel (Expands index) origin')
    (hunfold : index.unfold ⟨origin', i⟩ = .ok t) (h : HeightAtMost index bound t) :
    HeightAtMost index (bound + 1) (.erased origin i bounds) := by
  obtain ⟨height, hheight, hle⟩ := exists_heights hparts
  obtain ⟨n, hn, ht⟩ := h
  exact ⟨_, by omega, .placeholder hheight horigin hunfold ht⟩

theorem exists_bound (P : Ty → Prop) (ts : List Ty)
    (h : ∀ t ∈ ts, P t → ∃ n, Height index t n) :
    ∃ bound, ∀ t ∈ ts, P t → HeightAtMost index bound t := by
  induction ts with
  | nil => exact ⟨0, by simp⟩
  | cons t ts ih =>
      obtain ⟨hhead, hrest⟩ := List.forall_mem_cons.1 h
      obtain ⟨bound, hbound⟩ := ih hrest
      by_cases ht : P t
      · obtain ⟨n, hn⟩ := hhead ht
        refine ⟨max n bound, List.forall_mem_cons.2 ⟨fun _ => ?_, fun u hu hP => ?_⟩⟩
        · exact ⟨n, Nat.le_max_left n bound, hn⟩
        · exact (hbound u hu hP).mono (Nat.le_max_right n bound)
      · exact ⟨bound, List.forall_mem_cons.2 ⟨fun hP => absurd hP ht, hbound⟩⟩

end HeightAtMost

theorem Ty.Parts.isErased {R : Ty → Ty → Prop} {t u : Ty} (h : Ty.Parts R t u) :
    t.isErased = false := by
  cases h <;> rfl

namespace Unfolding

theorem entersAll (index : Index) (bound : Nat) : (visitor index bound).EntersAll :=
  (visitor_thorough index bound).entersAll

theorem origin_expands {origin origin' : Path}
    (h : origin.visit (visitor index bound) () = (.ok origin', ())) :
    origin.Rel (Expands index) origin' :=
  (Path.becomes_of_visit (entersAll index bound) h).mono fun _ _ ht => visit_expands ht

theorem becomes_parts_iff (ht : t.isErased = false) :
    t.Completes (visitor index bound) ↔
      ∀ u ∈ t.parts, u.Completes (visitor index bound) := by
  rw [← Ty.walk_ok_iff (entersAll index bound) ht, ← (visitor_thorough index bound).visit]
  rfl

theorem becomes_placeholder_iff {origin : Path} {i : Nat} {bounds : List ItemRef} :
    (Ty.erased origin i bounds).Completes (visitor index bound) ↔
      ∃ origin' t less, origin.visit (visitor index bound) () = (.ok origin', ()) ∧
        bound = less + 1 ∧ index.unfold ⟨origin', i⟩ = .ok t ∧
        t.Completes (visitor index less) := by
  rw [Ty.Completes]
  simp only [Ty.Becomes, (visitor_thorough index bound).visit]
  constructor
  · rintro ⟨u, hu⟩
    obtain ⟨origin', ⟨⟩, horigin, hkey⟩ := Run.bind_ok_iff.1 hu
    cases bound with
    | zero => cases hkey
    | succ less =>
        obtain ⟨t, hunfold, ht⟩ := key_succ_iff.1 hkey
        exact ⟨origin', t, less, horigin, rfl, hunfold, u, ht⟩
  · rintro ⟨origin', t, less, horigin, rfl, hunfold, u, hu⟩
    have hkey := key_succ_iff.2 ⟨t, hunfold, hu⟩
    exact ⟨u, Run.bind_ok_iff.2 ⟨origin', (), horigin, hkey⟩⟩

theorem completes_of_height {n : Nat} (h : Height index t n) (hle : n ≤ bound) :
    t.Completes (visitor index bound) := by
  induction h generalizing bound with
  | @parts t height ht _ ih =>
      apply (becomes_parts_iff ht).2
      intro u hu
      exact ih u hu (greatest_le_iff.1 hle _ (List.mem_map_of_mem hu))
  | @placeholder origin origin' i bounds t height n _ horigin hunfold _ iho ih =>
      obtain ⟨hmax, hn⟩ := Nat.max_le.1 hle
      have hparts : ∀ u ∈ origin.parts, u.Completes (visitor index bound) := by
        intro u hu
        exact iho u hu (greatest_le_iff.1 hmax _ (List.mem_map_of_mem hu))
      obtain ⟨origin'', hvisit⟩ :=
        (Path.visit_ok_iff (entersAll index bound)).2 hparts
      have hsame : origin' = origin'' :=
        horigin.unique (fun _ _ _ hu hv => hu.unique hv) (origin_expands hvisit)
      subst hsame
      have hless : bound = bound - 1 + 1 := by omega
      exact becomes_placeholder_iff.2
        ⟨origin', t, bound - 1, hvisit, hless, hunfold, ih (by omega)⟩

theorem heightAtMost_of_completes (h : t.Completes (visitor index bound)) :
    HeightAtMost index bound t := by
  induction bound using Nat.strongRecOn generalizing t with
  | ind bound ih =>
      -- The bound gets smaller at placeholders only, so there is an induction on types for
      -- each bound.
      have hereditary : Ty.Hereditary fun t _ =>
          t.Completes (visitor index bound) → HeightAtMost index bound t := by
        refine ⟨fun t hparts h => ?_, fun origin i bounds horigin _ h => ?_⟩
        · have herased := hparts.isErased
          have hcompletes := (becomes_parts_iff herased).1 h
          have hheights := List.forall₂_same.1 hparts.parts
          exact .of_parts herased fun u hu => hheights u hu (hcompletes u hu)
        · obtain ⟨origin', t, less, hvisit, rfl, hunfold, ht⟩ :=
            becomes_placeholder_iff.1 h
          have hcompletes := (Path.visit_ok_iff (entersAll _ _)).1 ⟨origin', hvisit⟩
          have hheights := List.forall₂_same.1 horigin.parts
          have hless : HeightAtMost index less t := ih less (Nat.lt_succ_self less) ht
          exact .of_unfold (fun u hu => hheights u hu (hcompletes u hu))
            (origin_expands hvisit) hunfold hless
      exact hereditary.ty t h

/-- A type is expanded within a bound exactly if it has a height up to the bound. -/
theorem completes_iff :
    t.Completes (visitor index bound) ↔ HeightAtMost index bound t := by
  constructor
  · exact heightAtMost_of_completes
  · rintro ⟨n, hle, h⟩
    exact completes_of_height h hle

end Unfolding

theorem Height.of_hasErased (h : t.hasErased = false) : Height index t 0 := by
  have hcompletes : t.Completes (Unfolding.visitor index 0) :=
    ⟨t, by rw [Ty.Becomes, (Unfolding.visitor_thorough index 0).visit_of_hasErased t h]; rfl⟩
  obtain ⟨n, hn, hheight⟩ := Unfolding.completes_iff.1 hcompletes
  rwa [Nat.le_zero.1 hn] at hheight

theorem Height.hasErased (h : Height index t 0) : t.hasErased = false := by
  generalize hn : 0 = n at h
  induction h with
  | @parts t height ht _ ih =>
      have hparts : Ty.Parts (fun _ u => u.hasErased = false) t t := by
        apply Ty.Parts.of_parts ht
        intro u hu
        have hle := greatest_le_iff.1 (Nat.le_of_eq hn.symm) _ (List.mem_map_of_mem hu)
        exact ih u hu (Nat.le_zero.1 hle).symm
      exact hparts.hasErased fun _ _ hu => hu
  | placeholder => omega

theorem heightAtMost_zero_iff : HeightAtMost index 0 t ↔ t.hasErased = false := by
  constructor
  · rintro ⟨n, hn, h⟩
    obtain rfl := Nat.le_zero.1 hn
    exact h.hasErased
  · intro h
    exact ⟨0, Nat.le_refl 0, .of_hasErased h⟩

theorem Path.parts_of_hasErased {p : Path} (h : p.hasErased = false) :
    ∀ t ∈ p.parts, t.hasErased = false := by
  have hself : p.Rel Eq p := by rw [Path.rel_eq]
  have hfree : p.Rel (fun t _ => t.hasErased = false) p :=
    hself.of_hasErased (fun _ _ ht _ => ht) h
  exact List.forall₂_same.1 hfree.parts

theorem Chain.height {n : Nat} (h : Chain index n t) : Height index t n := by
  induction h with
  | free ht => exact .of_hasErased ht
  | @link origin i bounds t n horigin hunfold _ ih =>
      have hfree := Path.parts_of_hasErased horigin
      have hself : origin.Rel (Expands index) origin :=
        Path.rel_of_parts fun u hu => .of_hasErased (hfree u hu)
      have hheights : ∀ u ∈ origin.parts, Height index u 0 :=
        fun u hu => .of_hasErased (hfree u hu)
      have hzero : greatest (origin.parts.map fun _ => 0) = 0 :=
        Nat.le_zero.1 (greatest_le_iff.2 (by simp))
      have h : Height index (.erased origin i bounds) _ :=
        .placeholder hheights hself hunfold ih
      rwa [hzero, Nat.zero_max, Nat.add_comm] at h

theorem Chain.heightAtMost_iff {n : Nat} (h : Chain index n t) :
    HeightAtMost index bound t ↔ n ≤ bound := by
  constructor
  · rintro ⟨m, hle, hm⟩
    rwa [h.height.unique hm]
  · intro hle
    exact ⟨n, hle, h.height⟩

end Unerase
