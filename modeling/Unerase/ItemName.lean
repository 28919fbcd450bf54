namespace Unerase

/-- The full name of an item: its crate, then one segment per module level. A
name without segments addresses the root of the crate. -/
structure ItemName where
  crate : String
  segments : List String
deriving DecidableEq

namespace ItemName

/-- The name of the root of a crate. -/
def root (crate : String) : ItemName :=
  ⟨crate, []⟩

/-- The name one level below `n`. -/
def child (n : ItemName) (segment : String) : ItemName :=
  { n with segments := n.segments ++ [segment] }

/-- The last segment; the root has none. -/
def last? (n : ItemName) : Option String :=
  n.segments.getLast?

/-- The name one level above `n`; the root has none. -/
def parent? (n : ItemName) : Option ItemName :=
  if n.segments.isEmpty then none
  else some { n with segments := n.segments.dropLast }

/-- Crate and segments with double colons between them. -/
def text (n : ItemName) : String :=
  "::".intercalate (n.crate :: n.segments)

/-- Names are ordered by crate first and then segment by segment, a shorter
name before its extensions. Strings are ordered by code point, which is also
the order of their UTF-8 bytes. -/
instance : Ord ItemName where
  compare a b := (compare a.crate b.crate).then (compare a.segments b.segments)

theorem parent?_child (n : ItemName) (segment : String) :
    (n.child segment).parent? = some n := by
  simp [child, parent?]

theorem last?_child (n : ItemName) (segment : String) :
    (n.child segment).last? = some segment := by
  simp [child, last?]

end ItemName

end Unerase
