import Mathlib.Data.Finset.Card
import Unerase.Proofs.Walk.Reachable

namespace Unerase

/-- No way from the root comes back to where it was. -/
def Body.Acyclic (b : Body) : Prop :=
  ∀ id, b.Reachable id → ¬ Relation.TransGen (Node.Refers b.nodes) id id

namespace Node

variable {nodes : List Node} {id child j : NodeId} {depth : Nat}

/-- No way from the position has more than so many steps. -/
def Bounded (nodes : List Node) : Nat → NodeId → Prop
  | 0, id => ∀ child, ¬ Refers nodes id child
  | depth + 1, id => ∀ child, Refers nodes id child → Bounded nodes depth child

theorem Refers.lt_length (h : Refers nodes id child) : id < nodes.length := by
  obtain ⟨node, hnode, -⟩ := h
  exact (List.getElem?_eq_some_iff.1 hnode).1

theorem not_reaches_of_acc
    (h : Acc (fun child id => Refers nodes id child) id)
    (hchild : Refers nodes id child) : ¬ Reaches nodes child id := by
  induction h generalizing child with
  | intro id _ ih =>
      intro hback
      rcases Relation.ReflTransGen.cases_head hback with rfl | ⟨next, hnext, hrest⟩
      · exact ih child hchild hchild .refl
      · -- The circle from `id` through `child` is one from `child` through `next` as well.
        exact ih child hchild hnext (hrest.tail hchild)

open Classical in
/-- The positions in the list to which one can come from the given one. -/
noncomputable def ahead (nodes : List Node) (id : NodeId) : Finset NodeId :=
  (Finset.range nodes.length).filter (Reaches nodes id)

theorem mem_ahead : j ∈ ahead nodes id ↔ j < nodes.length ∧ Reaches nodes id j := by
  simp [ahead]

theorem card_ahead_le : (ahead nodes id).card ≤ nodes.length := by
  have h : ahead nodes id ⊆ Finset.range nodes.length :=
    fun j hj => Finset.mem_range.2 (mem_ahead.1 hj).1
  simpa using Finset.card_le_card h

theorem card_ahead_lt (hchild : Refers nodes id child)
    (hback : ¬ Reaches nodes child id) :
    (ahead nodes child).card < (ahead nodes id).card := by
  apply Finset.card_lt_card
  constructor
  · intro j hj
    obtain ⟨hlt, hreaches⟩ := mem_ahead.1 hj
    exact mem_ahead.2 ⟨hlt, .head hchild hreaches⟩
  · intro hsubset
    have hself : id ∈ ahead nodes id := mem_ahead.2 ⟨hchild.lt_length, .refl⟩
    exact hback (mem_ahead.1 (hsubset hself)).2

theorem bounded_of_card
    (hacyclic : ∀ j, Reaches nodes id j → ¬ Relation.TransGen (Refers nodes) j j)
    (hcard : (ahead nodes id).card ≤ depth) : Bounded nodes depth id := by
  have hlt (child : NodeId) (hchild : Refers nodes id child) :
      (ahead nodes child).card < (ahead nodes id).card :=
    card_ahead_lt hchild fun hback => hacyclic id .refl (.head' hchild hback)
  induction depth generalizing id with
  | zero =>
      intro child hchild
      have h := hlt child hchild
      omega
  | succ depth ih =>
      intro child hchild
      have h := hlt child hchild
      have hacyclic' (j : NodeId) (hj : Reaches nodes child j) :
          ¬ Relation.TransGen (Refers nodes) j j :=
        hacyclic j (.head hchild hj)
      apply ih hacyclic' (by omega)
      intro next hnext
      exact card_ahead_lt hnext fun hback => hacyclic' child .refl (.head' hnext hback)

theorem Bounded.acc (h : Bounded nodes depth id) :
    Acc (fun child id => Refers nodes id child) id := by
  induction depth generalizing id with
  | zero => exact .intro id fun child hchild => absurd hchild (h child)
  | succ depth ih => exact .intro id fun child hchild => ih (h child hchild)

theorem leads_of_lt {P : NodeId → Prop} (hid : id < nodes.length)
    (h : ∀ child, Refers nodes id child → P child) : Leads nodes P id := by
  have hnode := List.getElem?_eq_getElem hid
  exact ⟨nodes[id], hnode, fun child hchild => h child ⟨nodes[id], hnode, hchild⟩⟩

theorem within_of_bounded (hbounds : ∀ j, Reaches nodes id j → j < nodes.length)
    (h : Bounded nodes depth id) : Within nodes depth id := by
  induction depth generalizing id with
  | zero => exact leads_of_lt (hbounds id .refl) h
  | succ depth ih =>
      apply leads_of_lt (hbounds id .refl)
      intro child hchild
      exact ih (fun j hj => hbounds j (.head hchild hj)) (h child hchild)

theorem Leads.part {P : NodeId → Prop} (h : Leads nodes P id)
    (hchild : Refers nodes id child) : P child := by
  obtain ⟨node, hnode, hparts⟩ := h
  obtain ⟨node', hnode', hmem⟩ := hchild
  rw [hnode] at hnode'
  cases hnode'
  exact hparts child hmem

theorem Leads.lt_length {P : NodeId → Prop} (h : Leads nodes P id) :
    id < nodes.length := by
  obtain ⟨node, hnode, -⟩ := h
  exact (List.getElem?_eq_some_iff.1 hnode).1

theorem Within.lt_length (h : Within nodes depth id) : id < nodes.length := by
  cases depth with
  | zero => exact Leads.lt_length h
  | succ depth => exact Leads.lt_length h

theorem Within.bounded (h : Within nodes depth id) : Bounded nodes depth id := by
  induction depth generalizing id with
  | zero => exact fun child hchild => Leads.part h hchild
  | succ depth ih => exact fun child hchild => ih (Leads.part h hchild)

theorem Within.part (h : Within nodes depth id) (hchild : Refers nodes id child) :
    ∃ less, Within nodes less child := by
  cases depth with
  | zero => exact (Leads.part h hchild).elim
  | succ depth => exact ⟨depth, Leads.part h hchild⟩

theorem Within.reaches (h : Within nodes depth id) (hj : Reaches nodes id j) :
    ∃ less, Within nodes less j := by
  induction hj with
  | refl => exact ⟨depth, h⟩
  | tail _ hrefers ih =>
      obtain ⟨less, hless⟩ := ih
      exact hless.part hrefers

end Node

namespace Body

variable {b : Body} {patience : Nat}

theorem Acyclic.bounded (h : b.Acyclic) :
    Node.Bounded b.nodes b.nodes.length b.root :=
  Node.bounded_of_card (fun j hj => h j (reachable_iff.2 hj)) Node.card_ahead_le

theorem wellFormed_of_leaves (hroot : b.root < b.nodes.length)
    (h : ∀ node ∈ b.nodes, node.expr.children = []) : b.WellFormed := by
  have hrefers (id child : NodeId) : ¬ Node.Refers b.nodes id child := by
    rintro ⟨node, hnode, hchild⟩
    rw [h node (List.mem_of_getElem? hnode)] at hchild
    cases hchild
  constructor
  · intro id hid
    cases hid with
    | root => exact hroot
    | part _ hchild => exact absurd hchild (hrefers _ _)
  · intro id _
    exact .intro id fun child hchild => absurd hchild (hrefers id child)

theorem WellFormed.to_acyclic (h : b.WellFormed) : b.Acyclic := by
  intro id hid hcircle
  obtain ⟨child, hchild, hback⟩ := Relation.TransGen.head'_iff.1 hcircle
  exact Node.not_reaches_of_acc (h.acyclic id hid) hchild hback

/-- Visitors come to an end in the well-formed bodies only, however patient they are. -/
theorem ends_iff : b.Ends patience ↔ b.WellFormed := by
  constructor
  · intro h
    constructor
    · intro id hid
      obtain ⟨less, hless⟩ := Node.Within.reaches h (reachable_iff.1 hid)
      exact hless.lt_length
    · intro id hid
      obtain ⟨less, hless⟩ := Node.Within.reaches h (reachable_iff.1 hid)
      exact hless.bounded.acc
  · intro h
    have hroot : ∀ j, Node.Reaches b.nodes b.root j →
        ¬ Relation.TransGen (Node.Refers b.nodes) j j :=
      fun j hj => h.to_acyclic j (reachable_iff.2 hj)
    have hcard : (Node.ahead b.nodes b.root).card ≤ b.nodes.length + patience :=
      Nat.le_add_right_of_le Node.card_ahead_le
    exact Node.within_of_bounded (fun j hj => h.inBounds j (reachable_iff.2 hj))
      (Node.bounded_of_card hroot hcard)

end Body

end Unerase
