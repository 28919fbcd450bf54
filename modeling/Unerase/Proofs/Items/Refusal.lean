import Unerase.Proofs.Items.Insertion

/-!
Names under which a crate takes no item. A name is refused if it belongs to another crate, if
it has no segments, or if something that is not a module stands above it. Every other name is
accepted, and a refused item is handed back by a crate in which nothing has changed
(`Crate.insert_refuses`). New modules never have to be taken back: there is nothing in a new
module, so that no name is refused once a module has been created for it.
-/

namespace Unerase

theorem Table.insert_of_get? {α : Type} {t : Table α} {key : String} {value : α}
    (h : t.get? key = some value) : t.insert key value = t := by
  obtain ⟨entries⟩ := t
  replace h : entries.lookup key = some value := h
  suffices insertEntry key value entries = entries from congrArg mk this
  induction entries with
  | nil => cases h
  | cons entry entries ih =>
      obtain ⟨name, old⟩ := entry
      by_cases hname : name = key
      · subst hname
        rw [List.lookup_cons_self] at h
        cases h
        rw [insertEntry, if_pos rfl]
      · have hbeq : (key == name) = false := beq_false_of_ne (Ne.symm hname)
        rw [List.lookup_cons, hbeq] at h
        rw [insertEntry, if_neg hname, ih h]

def Item.isModule : Item → Bool
  | .module _ => true
  | _ => false

theorem Item.exists_of_isModule {item : Item} (h : item.isModule = true) :
    ∃ items, item = .module items := by
  cases item with
  | module items => exact ⟨items, rfl⟩
  | _ => cases h

namespace Items

variable {item : Item} {items : Items} {name : String} {segments : List String}

/-- Something that is not a module stands on the way to the end of the path. -/
def Blocks (items : Items) (segments : List String) : Prop :=
  ∃ front rest other, front ≠ [] ∧ rest ≠ [] ∧ segments = front ++ rest ∧
    items.find? front = some other ∧ other.isModule = false

theorem not_blocks_singleton (items : Items) (name : String) : ¬ items.Blocks [name] := by
  rintro ⟨front, rest, other, hfront, hrest, hsegments, -⟩
  rcases List.singleton_eq_append_iff.1 hsegments with ⟨h, -⟩ | ⟨-, h⟩
  · exact hfront h
  · exact hrest h

theorem blocks_cons_iff (hsegments : segments ≠ []) :
    items.Blocks (name :: segments) ↔ ∃ other, items.get? name = some other ∧
      ∀ inner : Items, other = .module inner → inner.Blocks segments := by
  constructor
  · rintro ⟨front, rest, other, hfront, hrest, heq, hfind, hother⟩
    obtain ⟨first, front, rfl⟩ := List.exists_cons_of_ne_nil hfront
    obtain ⟨rfl, rfl⟩ := List.cons_eq_cons.1 heq
    rw [find?_cons, Option.bind_eq_some_iff] at hfind
    obtain ⟨entry, hget, hfind⟩ := hfind
    refine ⟨entry, hget, ?_⟩
    rintro inner rfl
    have hfront : front ≠ [] := by
      rintro rfl
      cases hfind
      cases hother
    rw [Item.find?_module hfront] at hfind
    exact ⟨front, rest, other, hfront, hrest, rfl, hfind, hother⟩
  · rintro ⟨other, hget, hinner⟩
    cases hother : other.isModule with
    | false =>
        have hfind : items.find? [name] = some other := hget
        exact ⟨[name], segments, other, by simp, hsegments, rfl, hfind, hother⟩
    | true =>
        obtain ⟨inner, rfl⟩ := Item.exists_of_isModule hother
        obtain ⟨front, rest, entry, hfront, hrest, rfl, hfind, hentry⟩ := hinner inner rfl
        refine ⟨name :: front, rest, entry, by simp, hrest, rfl, ?_, hentry⟩
        rw [find?_cons, hget, Option.bind_some, Item.find?_module hfront, hfind]

theorem place_of_blocks : ∀ {segments : List String} {items : Items},
    items.Blocks segments → place item segments items = (.error item, items)
  | [], _, _ => rfl
  | [name], items, h => absurd h (not_blocks_singleton items name)
  | name :: next :: rest, items, h => by
      obtain ⟨other, hget, hinner⟩ := (blocks_cons_iff (by simp)).1 h
      rw [place_cons, within]
      simp only [hget]
      cases other with
      | module inner =>
          simp only [place_of_blocks (hinner inner rfl), Table.insert_of_get? hget]
      | _ => rfl

/-- Where nothing is in the way, the item is accepted. A module that is created on the way
needs no look at what comes behind it. -/
theorem exists_place (item : Item) : ∀ {segments : List String} {items : Items},
    segments ≠ [] → ¬ items.Blocks segments →
    ∃ previous? items', place item segments items = (.ok previous?, items')
  | [], _, hsegments, _ => absurd rfl hsegments
  | [name], items, _, _ => ⟨items.get? name, items.insert name item, rfl⟩
  | name :: next :: rest, items, _, h => by
      rw [blocks_cons_iff (by simp)] at h
      rw [place_cons, within]
      cases hget : items.get? name with
      | none =>
          simp only [place_empty]
          exact ⟨_, _, rfl⟩
      | some other =>
          cases other with
          | module inner =>
              have hinner : ¬ Blocks inner (next :: rest) := by
                intro hblocks
                refine h ⟨_, hget, ?_⟩
                rintro _ ⟨⟩
                exact hblocks
              obtain ⟨previous?, inner', hplace⟩ := exists_place item (by simp) hinner
              simp only [hplace]
              exact ⟨previous?, _, rfl⟩
          | _ =>
              refine absurd ⟨_, hget, ?_⟩ h
              rintro inner ⟨⟩

end Items

namespace Crate

variable {c : Crate} {name : ItemName}

/-- The reasons for which a crate takes no item under a name. -/
inductive Refuses (c : Crate) (name : ItemName) : Prop
  /-- The name belongs to another crate. -/
  | foreign : name.crate ≠ c.name → Refuses c name
  /-- The name is that of the root, which is no item. -/
  | root : name.segments = [] → Refuses c name
  /-- The name leads through an item that is not a module. -/
  | blocked {front rest : List String} {other : Item} : front ≠ [] → rest ≠ [] →
      name.segments = front ++ rest → c.get? (c.itemName front) = some other →
      other.isModule = false → Refuses c name

theorem refuses_iff : c.Refuses name ↔
    name.crate ≠ c.name ∨ name.segments = [] ∨ c.items.Blocks name.segments := by
  have hget (front : List String) : c.get? (c.itemName front) = c.items.find? front :=
    if_pos rfl
  constructor
  · rintro (hcrate | hroot | ⟨hfront, hrest, hsegments, hother, hmodule⟩)
    · exact .inl hcrate
    · exact .inr (.inl hroot)
    · rw [hget] at hother
      exact .inr (.inr ⟨_, _, _, hfront, hrest, hsegments, hother, hmodule⟩)
  · rintro (hcrate | hroot | ⟨front, rest, other, hfront, hrest, hsegments, hother, hmodule⟩)
    · exact .foreign hcrate
    · exact .root hroot
    · rw [← hget] at hother
      exact .blocked hfront hrest hsegments hother hmodule

theorem insert_of_refuses (h : c.Refuses name) (item : Item) :
    insert name item c = (.error item, c) := by
  rw [insert]
  split
  · rename_i hcrate
    have hplace : Items.place item name.segments c.items = (.error item, c.items) := by
      rcases refuses_iff.1 h with hforeign | hroot | hblocks
      · exact absurd hcrate hforeign
      · rw [hroot]
        rfl
      · exact Items.place_of_blocks hblocks
    rw [hplace]
  · rfl

theorem exists_insert (h : ¬ c.Refuses name) (item : Item) :
    ∃ previous? c', insert name item c = (.ok previous?, c') := by
  rw [refuses_iff, not_or, not_or, not_not] at h
  obtain ⟨hcrate, hsegments, hblocks⟩ := h
  obtain ⟨previous?, items', hplace⟩ := Items.exists_place item hsegments hblocks
  exact ⟨previous?, { c with items := items' }, by rw [insert, if_pos hcrate, hplace]⟩

/-- An item is refused exactly under the names that the crate refuses. It is handed back as it
is, and the crate is what it was before. -/
theorem insert_refuses (c : Crate) (name : ItemName) (item : Item) :
    ((∃ back c', insert name item c = (.error back, c')) ↔ c.Refuses name) ∧
      ∀ back c', insert name item c = (.error back, c') → back = item ∧ c' = c := by
  by_cases h : c.Refuses name
  · have hinsert := insert_of_refuses h item
    refine ⟨⟨fun _ => h, fun _ => ⟨item, c, hinsert⟩⟩, fun back c' hback => ?_⟩
    rw [hinsert] at hback
    cases hback
    exact ⟨rfl, rfl⟩
  · obtain ⟨previous?, c', hinsert⟩ := exists_insert h item
    have hnot (back : Item) (d : Crate) : insert name item c ≠ (.error back, d) := by
      rw [hinsert]
      simp
    exact ⟨⟨fun ⟨back, d, hback⟩ => absurd hback (hnot back d), fun hrefuses =>
      absurd hrefuses h⟩, fun back d hback => absurd hback (hnot back d)⟩

end Crate

/-- The function `f` is in the way, although `k` would be a new name in it. -/
example : Crate.insert ⟨"sample", ["m", "f", "n", "k"]⟩ Sample.declared (Sample.store []) =
    (.error Sample.declared, Sample.store []) := rfl

end Unerase
