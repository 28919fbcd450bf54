/-!
Tables keyed by name that remember the order of declaration. Order shows when
a table is listed and is ignored when two tables are compared.
-/

namespace Unerase

/-- Values under names, in the order in which the names were first given. The
operations here never give a name twice, see `Table.Unique`. -/
structure Table (α : Type) where
  entries : List (String × α)

namespace Table

variable {α : Type}

def empty : Table α := ⟨[]⟩

instance : EmptyCollection (Table α) := ⟨empty⟩

/-- The names in order. -/
def keys (t : Table α) : List String :=
  t.entries.map Prod.fst

/-- No name is given twice. -/
def Unique (t : Table α) : Prop :=
  t.keys.Nodup

/-- The first value under a name. -/
def get? (t : Table α) (key : String) : Option α :=
  t.entries.lookup key

/-- Entries with `value` under `key`: in the place of the entry that had the
key before, and at the end if there was none. -/
def insertEntry (key : String) (value : α) :
    List (String × α) → List (String × α)
  | [] => [(key, value)]
  | entry :: rest =>
      if entry.1 = key then (key, value) :: rest
      else entry :: insertEntry key value rest

/-- Puts a value under a name. A name already present keeps its place, and a
new one goes last. -/
def insert (t : Table α) (key : String) (value : α) : Table α :=
  ⟨insertEntry key value t.entries⟩

/-- Inserts the values one after the other. -/
def ofList (pairs : List (String × α)) : Table α :=
  pairs.foldl (fun t pair => t.insert pair.1 pair.2) empty

/-- Applies a function to every value, names and order unchanged. -/
def map {β : Type} (f : α → β) (t : Table α) : Table β :=
  ⟨t.entries.map fun entry => (entry.1, f entry.2)⟩

theorem keys_map {β : Type} (f : α → β) (t : Table α) :
    (t.map f).keys = t.keys := by
  simp [keys, map]

theorem get?_map {β : Type} (f : α → β) (t : Table α) (key : String) :
    (t.map f).get? key = (t.get? key).map f := by
  obtain ⟨entries⟩ := t
  show (entries.map fun entry => (entry.1, f entry.2)).lookup key =
    (entries.lookup key).map f
  induction entries with
  | nil => rfl
  | cons entry rest ih =>
      obtain ⟨name, value⟩ := entry
      cases h : key == name <;>
        simp [List.lookup_cons, h, ih]

/-- Two tables are equal if they have equally many entries and every name of
the first has an equal value in the second. -/
def equal [BEq α] (a b : Table α) : Bool :=
  a.entries.length == b.entries.length &&
    a.entries.all fun entry =>
      match b.get? entry.1 with
      | some value => entry.2 == value
      | none => false

instance [BEq α] : BEq (Table α) := ⟨equal⟩

theorem lookup_insertEntry (key other : String) (value : α)
    (entries : List (String × α)) :
    (insertEntry key value entries).lookup other =
      if other = key then some value else entries.lookup other := by
  by_cases ho : other = key
  · subst ho
    induction entries with
    | nil => simp [insertEntry]
    | cons entry rest ih =>
        obtain ⟨name, old⟩ := entry
        by_cases hn : name = other
        · simp [insertEntry, hn]
        · have hn' : (other == name) = false :=
            beq_eq_false_iff_ne.2 (Ne.symm hn)
          simpa [insertEntry, hn, List.lookup_cons, hn'] using ih
  · have ho' : (other == key) = false := beq_eq_false_iff_ne.2 ho
    induction entries with
    | nil => simp [insertEntry, List.lookup_cons, ho, ho']
    | cons entry rest ih =>
        obtain ⟨name, old⟩ := entry
        by_cases hn : name = key
        · simp [insertEntry, hn, List.lookup_cons, ho, ho']
        · rw [if_neg ho] at ih ⊢
          simp [insertEntry, hn, List.lookup_cons, ih]

/-- Reading after writing: the written name has the new value, and every other
name the value that it had. -/
theorem get?_insert (t : Table α) (key other : String) (value : α) :
    (t.insert key value).get? other =
      if other = key then some value else t.get? other :=
  lookup_insertEntry key other value t.entries

theorem keys_insertEntry (key : String) (value : α)
    (entries : List (String × α)) :
    (insertEntry key value entries).map Prod.fst =
      if key ∈ entries.map Prod.fst then entries.map Prod.fst
      else entries.map Prod.fst ++ [key] := by
  induction entries with
  | nil => simp [insertEntry]
  | cons entry rest ih =>
      by_cases hk : entry.1 = key
      · simp [insertEntry, hk]
      · have hk' : ¬ key = entry.1 := fun h => hk h.symm
        by_cases hm : key ∈ rest.map Prod.fst <;>
          simp_all [insertEntry]

theorem keys_insert (t : Table α) (key : String) (value : α) :
    (t.insert key value).keys =
      if key ∈ t.keys then t.keys else t.keys ++ [key] :=
  keys_insertEntry key value t.entries

theorem Unique.insert {t : Table α} (h : t.Unique) (key : String) (value : α) :
    (t.insert key value).Unique := by
  unfold Unique at *
  rw [keys_insert]
  split
  · exact h
  · rename_i hk
    exact List.nodup_append.2 ⟨h, by simp, by grind⟩

theorem unique_ofList (pairs : List (String × α)) : (ofList pairs).Unique := by
  suffices ∀ t : Table α, t.Unique →
      (pairs.foldl (fun t pair => t.insert pair.1 pair.2) t).Unique from
    this empty List.nodup_nil
  induction pairs with
  | nil => exact fun t h => h
  | cons pair rest ih => exact fun t h => ih _ (h.insert pair.1 pair.2)

end Table

end Unerase
