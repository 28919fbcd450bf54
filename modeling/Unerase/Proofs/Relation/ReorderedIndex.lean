import Unerase.Expansion.Index
import Unerase.Proofs.Relation.Reordered

namespace Unerase

theorem lookup_perm {κ α : Type} [BEq κ] [LawfulBEq κ] {as bs : List (κ × α)}
    (h : as.Perm bs) (hnodup : (as.map Prod.fst).Nodup) (k : κ) :
    as.lookup k = bs.lookup k := by
  induction h with
  | nil => rfl
  | cons entry _ ih =>
      obtain ⟨key, a⟩ := entry
      rw [List.lookup_cons, List.lookup_cons, ih (List.nodup_cons.1 hnodup).2]
  | swap first second _ =>
      obtain ⟨key, a⟩ := first
      obtain ⟨key', b⟩ := second
      have hne : key' ≠ key := by simp_all
      simp only [List.lookup_cons]
      by_cases hk : k = key
      · subst hk
        simp [beq_false_of_ne hne.symm]
      · simp [beq_false_of_ne hk]
  | trans hperm _ ih ih' =>
      have hnodup' := (hperm.map Prod.fst).nodup_iff.1 hnodup
      rw [ih hnodup, ih' hnodup']

theorem mem_of_lookup {κ α : Type} [BEq κ] [LawfulBEq κ] {as : List (κ × α)} {k : κ} {a : α}
    (h : as.lookup k = some a) : (k, a) ∈ as := by
  obtain ⟨before, after, rfl, -⟩ := List.lookup_eq_some_iff.1 h
  simp

theorem lookup_map {κ α β : Type} [BEq κ] (g : α → β) (as : List (κ × α)) (k : κ) :
    (as.map fun (key, a) => (key, g a)).lookup k = (as.lookup k).map g := by
  induction as with
  | nil => rfl
  | cons entry as ih =>
      obtain ⟨key, a⟩ := entry
      cases h : k == key <;> simp [List.lookup_cons, h, ih]

/-! ### Names of functions -/

theorem segment_eq_of_prefixes {segments names : List String} {segment segment' : String}
    (h : segments ++ [segment] <+: names) (h' : segments ++ [segment'] <+: names) :
    segment = segment' := by
  have hlength : (segments ++ [segment]).length = (segments ++ [segment']).length := by simp
  have hsame : segments ++ [segment] = segments ++ [segment'] :=
    (List.prefix_of_prefix_length_le h h' (Nat.le_of_eq hlength)).eq_of_length hlength
  simpa using List.append_cancel_left hsame

mutual

theorem Item.prefix_of_mem_functions : ∀ {name : ItemName} {item : Item}
    {entry : ItemName × Function}, entry ∈ item.functions name →
    name.segments <+: entry.1.segments
  | _, .module ⟨entries⟩, entry, h => by
      obtain ⟨segment, -, hprefix⟩ := Item.prefix_of_mem_functionsOf h
      exact (List.prefix_append _ _).trans hprefix
  | _, .function _, entry, h => by
      cases List.mem_singleton.1 h
      exact List.prefix_rfl

theorem Item.prefix_of_mem_functionsOf : ∀ {name : ItemName}
    {entries : List (String × Item)} {entry : ItemName × Function},
    entry ∈ Item.functionsOf name entries →
    ∃ segment ∈ entries.map Prod.fst, name.segments ++ [segment] <+: entry.1.segments
  | name, (segment, item) :: entries, entry, h => by
      rcases List.mem_append.1 h with h | h
      · exact ⟨segment, by simp, Item.prefix_of_mem_functions h⟩
      · obtain ⟨segment', hsegment', hprefix⟩ := Item.prefix_of_mem_functionsOf h
        exact ⟨segment', List.mem_cons_of_mem _ hsegment', hprefix⟩

end

mutual

theorem Item.functions_nodup : ∀ {name : ItemName} {item : Item}, item.Unique →
    ((item.functions name).map Prod.fst).Nodup
  | _, .module ⟨_⟩, ⟨hkeys, hitems⟩ => Item.functionsOf_nodup hkeys hitems
  | _, .function _, _ => by simp [Item.functions]
  | _, .struct _, _ => List.nodup_nil
  | _, .enum _, _ => List.nodup_nil
  | _, .typeAlias _, _ => List.nodup_nil
  | _, .static _, _ => List.nodup_nil
  | _, .trait _, _ => List.nodup_nil

theorem Item.functionsOf_nodup : ∀ {name : ItemName} {entries : List (String × Item)},
    (entries.map Prod.fst).Nodup → Item.UniqueEntries entries →
    ((Item.functionsOf name entries).map Prod.fst).Nodup
  | _, [], _, _ => List.nodup_nil
  | name, (segment, item) :: entries, hkeys, ⟨hitem, hitems⟩ => by
      obtain ⟨hsegment, hkeys⟩ := List.nodup_cons.1 hkeys
      rw [Item.functionsOf, List.map_append]
      refine List.nodup_append.2
        ⟨Item.functions_nodup hitem, Item.functionsOf_nodup hkeys hitems, ?_⟩
      -- A name on both sides would start with two different segments.
      rintro n hn _ hn' rfl
      obtain ⟨entry, hentry, rfl⟩ := List.mem_map.1 hn
      obtain ⟨entry', hentry', heq⟩ := List.mem_map.1 hn'
      have hprefix := Item.prefix_of_mem_functions hentry
      obtain ⟨segment', hsegment', hprefix'⟩ := Item.prefix_of_mem_functionsOf hentry'
      rw [heq] at hprefix'
      cases segment_eq_of_prefixes hprefix hprefix'
      exact hsegment hsegment'

end

theorem Crate.functions_nodup {c : Crate} (hc : c.Unique) :
    (c.functions.map Prod.fst).Nodup :=
  Item.functionsOf_nodup hc.items.1 hc.items.2

theorem Item.functionsOf_perm {name : ItemName} {entries entries' : List (String × Item)}
    (h : entries.Perm entries') :
    (Item.functionsOf name entries).Perm (Item.functionsOf name entries') := by
  have hflatMap (es : List (String × Item)) : Item.functionsOf name es =
      es.flatMap fun entry => entry.2.functions (name.child entry.1) := by
    induction es with
    | nil => rfl
    | cons entry es ih => rw [Item.functionsOf, ih, List.flatMap_cons]
  rw [hflatMap, hflatMap]
  exact h.flatMap_right _

mutual

theorem Item.Reordered.functions : ∀ {name : ItemName} {item item' : Item},
    item.Reordered item' → (item.functions name).Perm (item'.functions name)
  | _, _, _, .refl _ => .refl _
  | _, _, _, .trait _ => .refl _
  | _, .module ⟨_⟩, .module ⟨_⟩, .module (.intro hperm h) =>
      (Item.functionsOf_perm hperm).trans (Item.Reordered.functionsOf h)

theorem Item.Reordered.functionsOf : ∀ {name : ItemName}
    {between entries : List (String × Item)},
    Table.Rel Item.Reordered ⟨between⟩ ⟨entries⟩ →
    (Item.functionsOf name between).Perm (Item.functionsOf name entries)
  | _, [], [], .nil => .nil
  | _, (_, _) :: _, (_, _) :: _, .cons hitem h =>
      hitem.functions.append (Item.Reordered.functionsOf h)

end

/-! ### What is found -/

/-- The blocks have the same pattern, and the same method under every name. -/
structure ImplEntry.Alike (a b : ImplEntry) : Prop where
  generics : a.generics = b.generics
  self : a.self = b.self
  get? : ∀ name, a.methods.get? name = b.methods.get? name

theorem InherentImpl.Reordered.alike {a b : InherentImpl} (h : a.Reordered b)
    (ha : a.methods.Unique) :
    (ImplEntry.ofInherentImpl a).Alike (.ofInherentImpl b) where
  generics := h.generics
  self := h.self
  get? name := by
    have hmethod : a.methods.get? name = b.methods.get? name :=
      lookup_perm h.methods ha name
    simp only [ImplEntry.ofInherentImpl, Table.get?_map, hmethod]

namespace Crate.Reordered

variable {c d : Crate}

theorem functions (h : c.Reordered d) : c.functions.Perm d.functions := by
  obtain ⟨name, items, impls, traitImpls⟩ := c
  obtain ⟨_, ⟨entries'⟩, impls', traitImpls'⟩ := d
  obtain ⟨rfl, ⟨hperm, hitems⟩, -, -⟩ := h
  exact (Item.functionsOf_perm hperm).trans (Item.Reordered.functionsOf hitems)

variable (hc : c.Unique) (h : c.Reordered d)

include hc h

theorem getFunction? (name : ItemName) :
    (Index.ofCrate c).getFunction? name = (Index.ofCrate d).getFunction? name := by
  apply lookup_perm (h.functions.map _)
  rw [List.map_map]
  exact Crate.functions_nodup hc

theorem impls :
    List.Forall₂ ImplEntry.Alike (Index.ofCrate c).impls (Index.ofCrate d).impls := by
  have himpls : ∀ block ∈ c.inherentImpls, block.methods.Unique := hc.inherentImpls
  simp only [Index.ofCrate, List.forall₂_map_left_iff, List.forall₂_map_right_iff]
  have hforall := h.inherentImpls
  generalize c.inherentImpls = blocks at himpls hforall
  generalize d.inherentImpls = blocks' at hforall
  induction hforall with
  | nil => exact .nil
  | cons hblock _ ih =>
      obtain ⟨hunique, himpls⟩ := List.forall_mem_cons.1 himpls
      exact .cons (hblock.alike hunique) (ih himpls)

theorem findMethod? (receiver : Ty) (name : String) :
    Option.Rel (fun a b => a.1.Alike b.1 ∧ a.2 = b.2)
      ((Index.ofCrate c).findMethod? receiver name)
      ((Index.ofCrate d).findMethod? receiver name) := by
  refine findSome?_related (fun a b hab => ?_) (h.impls hc)
  rw [hab.self, hab.get? name]
  split
  · cases b.methods.get? name with
    | none => exact .none
    | some f => exact .some ⟨hab, rfl⟩
  · exact .none

theorem resolve (origin : Path) :
    (Index.ofCrate c).resolve origin = (Index.ofCrate d).resolve origin := by
  cases origin with
  | item target =>
      obtain ⟨name, args⟩ := target
      simp only [Index.resolve, h.getFunction? hc name]
  | inherent self name args =>
      have hmethod := h.findMethod? hc self name
      simp only [Index.resolve]
      generalize (Index.ofCrate c).findMethod? self name = x at hmethod ⊢
      generalize (Index.ofCrate d).findMethod? self name = y at hmethod ⊢
      cases hmethod with
      | none => rfl
      | @some a b hab =>
          obtain ⟨⟨generics, pattern, methods⟩, f⟩ := a
          obtain ⟨⟨generics', pattern', methods'⟩, f'⟩ := b
          obtain ⟨⟨rfl, rfl, -⟩, rfl⟩ := hab
          rfl
  | known => rfl
  | unknown => rfl

/-- A key stands for the same type in both crates. -/
theorem unfold : (Index.ofCrate c).unfold = (Index.ofCrate d).unfold := by
  funext k
  simp only [Index.unfold, Index.template, h.resolve hc]

end Crate.Reordered

end Unerase
