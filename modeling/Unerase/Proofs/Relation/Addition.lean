import Unerase.Proofs.Expansion.Resolution
import Unerase.Proofs.Relation.ReorderedIndex

/-!
Crates with one declaration more: an impl block behind those that there are, or an item
under a name that was free. Whatever there was is still there (`Crate.Adds.kept`), and every
template key stands for what it stood for (`Crate.Adds.unfold`): the first impl block that
fits a receiver is still the first one, and no function is hidden by the new item. If both
crates are changed place by place in ways that agree, they differ in one declaration
afterwards (`Crate.Adds.related`).
-/

namespace Unerase

/-! ### A new item -/

/-- The item in as many new modules as the path has segments. -/
def Item.nest (item : Item) : List String → Item
  | [] => item
  | segment :: rest => .module ⟨[(segment, item.nest rest)]⟩

/-- The second entries are the first ones with a new item at the end of the path. The first
module that is missing on the way comes behind the entries that there are. -/
inductive Items.Adds (item : Item) :
    List String → List (String × Item) → List (String × Item) → Prop
  | last (segment : String) (rest : List String) :
      Items.Adds item (segment :: rest) [] [(segment, item.nest rest)]
  | skip {segment name : String} {rest : List String} {other : Item}
      {entries entries' : List (String × Item)} :
      name ≠ segment → Items.Adds item (segment :: rest) entries entries' →
      Items.Adds item (segment :: rest) ((name, other) :: entries)
        ((name, other) :: entries')
  | inside {segment : String} {rest : List String}
      {inner inner' entries : List (String × Item)} :
      Items.Adds item rest inner inner' →
      Items.Adds item (segment :: rest) ((segment, .module ⟨inner⟩) :: entries)
        ((segment, .module ⟨inner'⟩) :: entries)

namespace Items

variable {item : Item} {segment : String} {rest segments : List String}
  {a b entries : List (String × Item)}

theorem adds_insertEntry_nest (h : entries.lookup segment = none) :
    Adds item (segment :: rest) entries
      (Table.insertEntry segment (item.nest rest) entries) := by
  induction entries with
  | nil => exact .last segment rest
  | cons entry entries ih =>
      obtain ⟨name, other⟩ := entry
      by_cases hname : name = segment
      · simp [hname] at h
      · have hbeq : (segment == name) = false := beq_false_of_ne (Ne.symm hname)
        rw [List.lookup_cons, hbeq] at h
        rw [Table.insertEntry, if_neg hname]
        exact .skip hname (ih h)

theorem adds_insertEntry_module {inner inner' : List (String × Item)}
    (h : entries.lookup segment = some (.module ⟨inner⟩))
    (hinner : Adds item rest inner inner') :
    Adds item (segment :: rest) entries
      (Table.insertEntry segment (.module ⟨inner'⟩) entries) := by
  induction entries with
  | nil => cases h
  | cons entry entries ih =>
      obtain ⟨name, other⟩ := entry
      by_cases hname : name = segment
      · subst hname
        rw [List.lookup_cons_self] at h
        cases h
        rw [Table.insertEntry, if_pos rfl]
        exact .inside hinner
      · have hbeq : (segment == name) = false := beq_false_of_ne (Ne.symm hname)
        rw [List.lookup_cons, hbeq] at h
        rw [Table.insertEntry, if_neg hname]
        exact .skip hname (ih h)

theorem place_cons {next : String} :
    place item (segment :: next :: rest) = within segment item (place item (next :: rest)) :=
  rfl

theorem within_empty {x : Run Item Items (Option Item)} :
    within segment item x ∅ =
      ((x ∅).1, ⟨[(segment, .module (x ∅).2)]⟩) := rfl

theorem place_empty : place item (segment :: rest) ∅ =
    (.ok none, ⟨[(segment, item.nest rest)]⟩) := by
  induction rest generalizing segment with
  | nil => rfl
  | cons next rest ih =>
      rw [place_cons, within_empty, ih]
      rfl

theorem adds_of_place : ∀ {segments : List String} {items items' : Items}
    {previous? : Option Item}, items.find? segments = none →
    place item segments items = (.ok previous?, items') →
    Adds item segments items.entries items'.entries
  | [], _, _, _, _, hplace => by cases hplace
  | [segment], items, _, _, hfind, hplace => by
      cases hplace
      exact adds_insertEntry_nest hfind
  | segment :: next :: rest, items, items', previous?, hfind, hplace => by
      simp only [find?] at hfind
      simp only [place_cons, within] at hplace
      cases hget : items.get? segment with
      | none =>
          simp only [hget, place_empty] at hplace
          cases hplace
          exact adds_insertEntry_nest hget
      | some other =>
          cases other with
          | module inner =>
              simp only [hget] at hfind hplace
              rcases hinner : place item (next :: rest) inner with ⟨r, inner'⟩
              rw [hinner] at hplace
              cases hplace
              exact adds_insertEntry_module hget (adds_of_place hfind hinner)
          | _ =>
              simp only [hget] at hplace
              cases hplace

theorem Adds.lookup : ∀ {a b : List (String × Item)}, Adds item (segment :: rest) a b →
    (a.lookup segment = none ∧ b = Table.insertEntry segment (item.nest rest) a) ∨
      ∃ inner inner', a.lookup segment = some (.module ⟨inner⟩) ∧
        Adds item rest inner inner' ∧ b = Table.insertEntry segment (.module ⟨inner'⟩) a
  | _, _, .last _ _ => .inl ⟨rfl, rfl⟩
  | _, _, .skip hname h => by
      have hbeq : (segment == _) = false := beq_false_of_ne (Ne.symm hname)
      simp only [List.lookup_cons, hbeq, Table.insertEntry, if_neg hname]
      rcases h.lookup with ⟨hlookup, rfl⟩ | ⟨inner, inner', hlookup, hinner, rfl⟩
      · exact .inl ⟨hlookup, rfl⟩
      · exact .inr ⟨inner, inner', hlookup, hinner, rfl⟩
  | _, _, .inside h =>
      .inr ⟨_, _, List.lookup_cons_self, h, by simp [Table.insertEntry]⟩

theorem Adds.place : ∀ {segments : List String} {a b : List (String × Item)},
    Adds item segments a b → find? ⟨a⟩ segments = none ∧
      Items.place item segments ⟨a⟩ = (.ok none, ⟨b⟩)
  | [segment], a, _, h => by
      rcases h.lookup with ⟨hlookup, rfl⟩ | ⟨_, _, _, hinner, _⟩
      · refine ⟨hlookup, ?_⟩
        show (Except.ok (a.lookup segment), _) = _
        rw [hlookup]
        rfl
      · cases hinner
  | segment :: next :: rest, a, _, h => by
      simp only [find?, place_cons, within, Table.get?]
      rcases h.lookup with ⟨hlookup, rfl⟩ | ⟨inner, inner', hlookup, hinner, rfl⟩
      · simp only [hlookup, place_empty]
        exact ⟨trivial, rfl⟩
      · obtain ⟨hfind, hplace⟩ := Adds.place hinner
        simp only [hlookup, hfind, hplace]
        exact ⟨trivial, rfl⟩

theorem find?_cons_of_ne {name : String} {other : Item} (h : segment ≠ name) :
    find? ⟨(name, other) :: entries⟩ (segment :: rest) =
      find? ⟨entries⟩ (segment :: rest) := by
  have hbeq : (segment == name) = false := beq_false_of_ne h
  have hget : Table.get? ⟨(name, other) :: entries⟩ segment = Table.get? ⟨entries⟩ segment := by
    simp only [Table.get?, List.lookup_cons, hbeq]
  cases rest <;> simp only [find?, hget]

theorem find?_cons_self {other : Item} (entries entries' : List (String × Item)) :
    find? ⟨(segment, other) :: entries⟩ (segment :: rest) =
      find? ⟨(segment, other) :: entries'⟩ (segment :: rest) := by
  cases rest <;> simp only [find?, Table.get?, List.lookup_cons_self]

theorem find?_module {inner : Items} {next : String} :
    find? ⟨(segment, .module inner) :: entries⟩ (segment :: next :: rest) =
      find? inner (next :: rest) := by
  simp only [find?, Table.get?, List.lookup_cons_self]

theorem Adds.find? : ∀ {segments other : List String} {a b : List (String × Item)}
    {found : Item}, Adds item segments a b → Items.find? ⟨a⟩ other = some found →
    ¬ other <+: segments → Items.find? ⟨b⟩ other = some found
  | _, [], _, _, _, _, hfound, _ => by cases hfound
  | _, [_], _, _, _, .last _ _, hfound, _ => by cases hfound
  | _, _ :: _ :: _, _, _, _, .last _ _, hfound, _ => by cases hfound
  | _, segment :: rest, _, _, _, @Adds.skip _ _ name _ _ _ entries' _ h, hfound,
      hother => by
      by_cases hname : segment = name
      · subst hname
        rw [find?_cons_self _ entries'] at hfound
        exact hfound
      · rw [find?_cons_of_ne hname] at hfound ⊢
        exact h.find? hfound hother
  | _, segment :: rest, _, _, _, @Adds.inside _ name _ _ _ _ h, hfound, hother => by
      by_cases hname : segment = name
      · subst hname
        cases rest with
        | nil => exact absurd (List.prefix_append [segment] _) hother
        | cons next rest =>
            rw [find?_module] at hfound ⊢
            refine h.find? hfound fun hprefix => hother ?_
            exact List.cons_prefix_cons.2 ⟨rfl, hprefix⟩
      · rw [find?_cons_of_ne hname] at hfound ⊢
        exact hfound

/-! ### Functions -/

theorem Adds.functions : ∀ {segments : List String} {a b : List (String × Item)},
    Adds item segments a b → (a.map Prod.fst).Nodup → Item.UniqueEntries a →
    ∀ {name n : ItemName} {f : Function}, (Item.functionsOf name a).lookup n = some f →
      (Item.functionsOf name b).lookup n = some f
  | _, _, _, .last _ _, _, _, _, _, _, hlookup => by cases hlookup
  | _, _, _, .skip _ h, hkeys, ⟨_, hentries⟩, name, n, f, hlookup => by
      rw [Item.functionsOf, List.lookup_append, Option.or_eq_some_iff] at hlookup ⊢
      refine hlookup.imp_right fun ⟨hnone, hrest⟩ => ⟨hnone, ?_⟩
      exact h.functions (List.nodup_cons.1 hkeys).2 hentries hrest
  | _, _, _, @Adds.inside _ segment _ _ _ _ h, hkeys, ⟨⟨hinner, hinners⟩, _⟩, name, n,
      f, hlookup => by
      rw [Item.functionsOf, List.lookup_append, Option.or_eq_some_iff] at hlookup ⊢
      rcases hlookup with hfirst | ⟨-, hrest⟩
      · exact .inl (h.functions hinner hinners hfirst)
      · refine .inr ⟨?_, hrest⟩
        -- No function in the module has the name of one behind the module.
        rw [List.lookup_eq_none_iff]
        rintro ⟨n', g⟩ hmem
        refine bne_iff_ne.2 ?_
        rintro rfl
        obtain ⟨segment', hsegment', hprefix⟩ :=
          Item.prefix_of_mem_functionsOf (mem_of_lookup hrest)
        have hmodule : (name.child segment).segments <+: n.segments :=
          Item.prefix_of_mem_functions hmem
        rw [segment_eq_of_prefixes hmodule hprefix] at hkeys
        exact (List.nodup_cons.1 hkeys).1 hsegment'

/-! ### The same changes -/

theorem nest_rel {R : Ty → Ty → Prop} {B : Body → Body → Prop} : ∀ {rest : List String}
    {nested' : Item}, (item.nest rest).Rel R B nested' →
    ∃ item', item.Rel R B item' ∧ nested' = item'.nest rest
  | [], nested', h => ⟨nested', h, rfl⟩
  | _ :: _, .module ⟨[(_, _)]⟩, .module (.cons h .nil) => by
      obtain ⟨item', hitem', rfl⟩ := nest_rel h
      exact ⟨item', hitem', rfl⟩

theorem Adds.related {R S : Ty → Ty → Prop} {B D : Body → Body → Prop}
    (hR : ∀ t u v, R t u → S t v → u = v) (hB : ∀ b d d', B b d → D b d' → d = d') :
    ∀ {segments : List String} {a b a' b' : List (String × Item)}, Adds item segments a b →
      Table.Rel (Item.Rel R B) ⟨a⟩ ⟨a'⟩ → Table.Rel (Item.Rel S D) ⟨b⟩ ⟨b'⟩ →
      ∃ item', item.Rel S D item' ∧ Adds item' segments a' b'
  | _, _, _, _, _, .last segment rest, .nil, .cons hitem .nil => by
      obtain ⟨item', hitem', rfl⟩ := nest_rel hitem
      exact ⟨item', hitem', .last segment rest⟩
  | _, _, _, _, _, .skip hname h, .cons hother ha, .cons hother' hb => by
      obtain ⟨item', hitem', hadds⟩ := h.related hR hB ha hb
      cases hother.unique hR hB hother'
      exact ⟨item', hitem', .skip hname hadds⟩
  | _, _, _, (_, .module ⟨_⟩) :: _, (_, .module ⟨_⟩) :: _, .inside h,
      .cons (.module hinner) ha, .cons (.module hinner') hb => by
      obtain ⟨item', hitem', hadds⟩ := h.related hR hB hinner hinner'
      cases Item.Rel.entries_unique hR hB ha hb
      exact ⟨item', hitem', .inside hadds⟩

end Items

/-! ### A new declaration -/

/-- What is added to a crate. -/
inductive Declaration where
  | inherentImpl (block : InherentImpl)
  | traitImpl (block : TraitImpl)
  | item (name : ItemName) (item : Item)

namespace Declaration

/-- The declarations are impl blocks of the same kind, or items of the same name. -/
def Alike : Declaration → Declaration → Prop
  | .inherentImpl _, .inherentImpl _ => True
  | .traitImpl _, .traitImpl _ => True
  | .item name _, .item name' _ => name = name'
  | _, _ => False

/-- The declaration stands in the module of the given name, at some depth. -/
def LiesIn : Declaration → ItemName → Prop
  | .item name _, other => other.segments <+: name.segments
  | _, _ => False

variable {x y z : Declaration}

theorem Alike.trans (h : x.Alike y) (h' : y.Alike z) : x.Alike z := by
  cases x <;> cases y <;> cases h <;> cases z <;> cases h' <;> trivial

theorem Alike.liesIn_iff (h : x.Alike y) (name : ItemName) :
    x.LiesIn name ↔ y.LiesIn name := by
  cases x <;> cases y <;> cases h <;> exact .rfl

end Declaration

namespace Crate

/-- The second crate is the first one with the declaration added: an impl block comes last,
and an item comes under a name that was free. -/
def Adds (c : Crate) : Declaration → Crate → Prop
  | .inherentImpl block, d => d = c.addInherentImpl block
  | .traitImpl block, d => d = c.addTraitImpl block
  | .item name item, d =>
      c.get? name = none ∧ ∃ previous?, Crate.insert name item c = (.ok previous?, d)

/-- What there is in the first crate is in the second one, and not changed. Only the modules
in which the declaration stands are not the same, as it is new in them. -/
structure Kept (x : Declaration) (c d : Crate) : Prop where
  name : c.name = d.name
  items : ∀ name item, c.get? name = some item → ¬ x.LiesIn name → d.get? name = some item
  inherentImpls : c.inherentImpls <+: d.inherentImpls
  traitImpls : c.traitImpls <+: d.traitImpls

theorem adds_item_iff {c d : Crate} {name : ItemName} {item : Item} :
    c.Adds (.item name item) d ↔ name.crate = c.name ∧ d = { c with items := d.items } ∧
      Items.Adds item name.segments c.items.entries d.items.entries := by
  obtain ⟨crate, ⟨entries⟩, impls, traitImpls⟩ := c
  constructor
  · rintro ⟨hget, previous?, hinsert⟩
    rw [insert] at hinsert
    split at hinsert
    · rename_i hcrate
      rw [get?, if_pos hcrate] at hget
      rcases hplace : Items.place item name.segments ⟨entries⟩ with ⟨r, items'⟩
      rw [hplace] at hinsert
      cases hinsert
      exact ⟨hcrate, rfl, Items.adds_of_place hget hplace⟩
    · cases hinsert
  · rintro ⟨hcrate, hd, hadds⟩
    obtain ⟨hfind, hplace⟩ := hadds.place
    refine ⟨by rw [get?, if_pos hcrate, hfind], none, ?_⟩
    rw [insert, if_pos hcrate, hplace, hd]

variable {c d c' d' : Crate} {x : Declaration}

/-- Adding a declaration changes nothing that was there. -/
theorem Adds.kept (h : c.Adds x d) : c.Kept x d := by
  cases x with
  | inherentImpl block =>
      cases h
      exact ⟨rfl, fun _ _ hget _ => hget, List.prefix_append _ _, List.prefix_rfl⟩
  | traitImpl block =>
      cases h
      exact ⟨rfl, fun _ _ hget _ => hget, List.prefix_rfl, List.prefix_append _ _⟩
  | item name item =>
      obtain ⟨-, hd, hadds⟩ := adds_item_iff.1 h
      rw [hd]
      refine ⟨rfl, fun other found hget hother => ?_, List.prefix_rfl, List.prefix_rfl⟩
      rw [get?] at hget ⊢
      split at hget
      · rename_i hcrate
        rw [if_pos hcrate]
        exact hadds.find? hget hother
      · cases hget

theorem Kept.alike {y : Declaration} (h : c.Kept y d) (hx : x.Alike y) : c.Kept x d :=
  ⟨h.name, fun name item hget hx' => h.items name item hget (mt (hx.liesIn_iff name).2 hx'),
    h.inherentImpls, h.traitImpls⟩

theorem Adds.related {R S : Ty → Ty → Prop} {B D : Body → Body → Prop}
    (hR : ∀ t u v, R t u → S t v → u = v) (hB : ∀ b d d', B b d → D b d' → d = d')
    (h : c.Adds x d) (hc : c.Rel R B c') (hd : d.Rel S D d') :
    ∃ x', x.Alike x' ∧ c'.Adds x' d' := by
  have hname : c'.name = c.name := hc.name.symm
  have hitems {items : Items} (h : c.items.Rel (Item.Rel S D) items) : items = c'.items :=
    (hc.items.unique h fun _ _ _ p q => p.unique hR hB q).symm
  have himpls {impls : List InherentImpl}
      (h : List.Forall₂ (InherentImpl.Rel S D) c.inherentImpls impls) :
      impls = c'.inherentImpls :=
    (forall₂_unique hc.inherentImpls h fun _ _ _ p q => p.unique hR hB q).symm
  have htraitImpls {impls : List TraitImpl}
      (h : List.Forall₂ (TraitImpl.Rel S D) c.traitImpls impls) : impls = c'.traitImpls :=
    (forall₂_unique hc.traitImpls h fun _ _ _ p q => p.unique hR hB q).symm
  obtain ⟨name', items', impls', traitImpls'⟩ := d'
  cases x with
  | inherentImpl block =>
      cases h
      obtain ⟨hname', hitems', himpls', htraitImpls'⟩ := hd
      obtain ⟨before, block', rfl, hbefore, -⟩ := forall₂_snoc himpls'
      cases hname.trans hname'
      cases hitems hitems'
      cases himpls hbefore
      cases htraitImpls htraitImpls'
      exact ⟨.inherentImpl block', trivial, rfl⟩
  | traitImpl block =>
      cases h
      obtain ⟨hname', hitems', himpls', htraitImpls'⟩ := hd
      obtain ⟨before, block', rfl, hbefore, -⟩ := forall₂_snoc htraitImpls'
      cases hname.trans hname'
      cases hitems hitems'
      cases himpls himpls'
      cases htraitImpls hbefore
      exact ⟨.traitImpl block', trivial, rfl⟩
  | item name item =>
      obtain ⟨hcrate, hd₀, hadds⟩ := adds_item_iff.1 h
      obtain ⟨hname', hitems', himpls', htraitImpls'⟩ := hd
      rw [hd₀] at hname' himpls' htraitImpls'
      cases hname.trans hname'
      cases himpls himpls'
      cases htraitImpls htraitImpls'
      obtain ⟨item', -, hadds'⟩ := hadds.related hR hB hc.items hitems'
      exact ⟨.item name item', rfl,
        adds_item_iff.2 ⟨hcrate.trans hname.symm, rfl, hadds'⟩⟩

/-! ### What keys stand for -/

theorem Adds.getFunction? (hc : c.Unique) (h : c.Adds x d) {name : ItemName}
    {f : FunctionEntry} (hf : (Index.ofCrate c).getFunction? name = some f) :
    (Index.ofCrate d).getFunction? name = some f := by
  cases x with
  | inherentImpl block =>
      cases h
      exact hf
  | traitImpl block =>
      cases h
      exact hf
  | item added item =>
      obtain ⟨-, hd, hadds⟩ := adds_item_iff.1 h
      simp only [Index.getFunction?, Index.ofCrate, lookup_map, Option.map_eq_some_iff]
        at hf ⊢
      obtain ⟨g, hg, hfg⟩ := hf
      refine ⟨g, ?_, hfg⟩
      rw [hd]
      exact hadds.functions hc.items.1 hc.items.2 hg

theorem Adds.findMethod? (h : c.Adds x d) {receiver : Ty} {name : String}
    {found : ImplEntry × FunctionEntry}
    (hfound : (Index.ofCrate c).findMethod? receiver name = some found) :
    (Index.ofCrate d).findMethod? receiver name = some found := by
  obtain ⟨later, hlater⟩ := h.kept.inherentImpls
  rw [Index.findMethod?, Index.ofCrate] at hfound ⊢
  rw [← hlater, List.map_append, List.findSome?_append, hfound, Option.some_or]

end Crate

namespace Index

variable {index index' : Index}
  (hfunction : ∀ name f, index.getFunction? name = some f →
    index'.getFunction? name = some f)
  (hmethod : ∀ receiver name found, index.findMethod? receiver name = some found →
    index'.findMethod? receiver name = some found)

include hfunction hmethod

theorem resolve_of_found {origin : Path} {out : FunctionEntry × Subst}
    (h : index.resolve origin = .ok out) : index'.resolve origin = .ok out := by
  cases origin with
  | item target =>
      obtain ⟨name, args⟩ := target
      simp only [resolve] at h ⊢
      split at h
      · rename_i f hf
        rw [hfunction name f hf]
        exact h
      · cases h
  | inherent self name args =>
      simp only [resolve] at h ⊢
      split at h
      · cases h
      · rename_i block f hfound
        rw [hmethod self name (block, f) hfound]
        exact h
  | known => cases h
  | unknown => cases h

theorem unfold_of_found {k : TemplateKey} {t : Ty} (h : index.unfold k = .ok t) :
    index'.unfold k = .ok t := by
  obtain ⟨f, s, template, hresolve, htemplate, hsubst⟩ := unfold_ok_iff.1 h
  exact unfold_ok_iff.2
    ⟨f, s, template, resolve_of_found hfunction hmethod hresolve, htemplate, hsubst⟩

end Index

theorem Crate.Adds.unfold {c d : Crate} {x : Declaration} (hc : c.Unique) (h : c.Adds x d)
    (k : TemplateKey) (t : Ty) (hk : (Index.ofCrate c).unfold k = .ok t) :
    (Index.ofCrate d).unfold k = .ok t :=
  Index.unfold_of_found (fun _ _ => h.getFunction? hc) (fun _ _ _ => h.findMethod?) hk

end Unerase
