import Unerase.Proofs.Relation.Places

namespace Unerase

section Lists

variable {α : Type} [BEq α]

theorem list_beq_iff {as bs : List α} :
    (as == bs) = true ↔ List.Forall₂ (fun a b => (a == b) = true) as bs := by
  induction as generalizing bs with
  | nil => cases bs <;> simp
  | cons a as ih => cases bs <;> simp [ih]

theorem option_beq_iff {a? b? : Option α} :
    (a? == b?) = true ↔ Option.Rel (fun a b => (a == b) = true) a? b? := by
  cases a? <;> cases b? <;> simp

theorem list_beq_self_iff {as : List α} :
    (as == as) = true ↔ ∀ a ∈ as, (a == a) = true := by
  rw [list_beq_iff, List.forall₂_same]

instance list_partialEquivBEq [PartialEquivBEq α] : PartialEquivBEq (List α) where
  symm h := list_beq_iff.2
    (forall₂_symm (fun _ _ _ _ => PartialEquivBEq.symm) (list_beq_iff.1 h))
  trans h h' := by
    refine list_beq_iff.2 (forall₂_trans ?_ (list_beq_iff.1 h) (list_beq_iff.1 h'))
    exact fun _ _ _ _ _ _ => PartialEquivBEq.trans

instance option_partialEquivBEq [PartialEquivBEq α] : PartialEquivBEq (Option α) where
  symm h := option_beq_iff.2
    (optionRel_symm (fun _ _ _ _ => PartialEquivBEq.symm) (option_beq_iff.1 h))
  trans h h' := by
    refine option_beq_iff.2 (optionRel_trans ?_ (option_beq_iff.1 h) (option_beq_iff.1 h'))
    exact fun _ _ _ _ _ _ => PartialEquivBEq.trans

end Lists

/-! ### Numbers -/

namespace Float64

theorem beq_iff {x y : Float64} :
    (x == y) = true ↔ x.isNaN = false ∧ y.isNaN = false ∧
      (x = y ∨ x.magnitude = 0 ∧ y.magnitude = 0) := by
  obtain ⟨bits⟩ := x
  obtain ⟨bits'⟩ := y
  show equal _ _ = true ↔ _
  simp [equal, and_assoc]

instance : PartialEquivBEq Float64 where
  symm h := by
    obtain ⟨hx, hy, h⟩ := beq_iff.1 h
    exact beq_iff.2 ⟨hy, hx, h.imp Eq.symm And.symm⟩
  trans h h' := by
    obtain ⟨hx, _, hxy⟩ := beq_iff.1 h
    obtain ⟨_, hz, hyz⟩ := beq_iff.1 h'
    refine beq_iff.2 ⟨hx, hz, ?_⟩
    rcases hxy with rfl | hxy
    · exact hyz
    · rcases hyz with rfl | hyz
      · exact .inr hxy
      · exact .inr ⟨hxy.1, hyz.2⟩

end Float64

/-! ### Expressions -/

/-- The number, if the literal is one with a fraction. -/
def Literal.float? : Literal → Option Float64
  | .float x => some x
  | _ => none

/-- The number that an expression is, if it is a floating-point literal. -/
def Expr.float? : Expr → Option Float64
  | .lit value => value.float?
  | _ => none

theorem Literal.eq_of_beq {l l' : Literal} (h : (l == l') = true) (hl : l.float? = none) :
    l = l' := by
  cases l with
  | float => cases hl
  | _ => cases l' <;> first | cases h | exact congrArg _ (LawfulBEq.eq_of_beq h)

theorem Literal.beq_self {l : Literal} (hl : l.float? = none) : (l == l) = true := by
  cases l with
  | float => cases hl
  | int n => exact beq_self_eq_true n
  | bool b => exact beq_self_eq_true b
  | str s => exact beq_self_eq_true s

theorem Expr.eq_of_beq {e e' : Expr} (h : (e == e') = true) (he : e.float? = none) :
    e = e' := by
  change instBEqExpr.beq e e' = true at h
  unfold instBEqExpr.beq at h
  split at h
  · split at h
    case lit value value' _ => rw [Literal.eq_of_beq h he]
    all_goals
      simp only [Bool.and_eq_true, beq_iff_eq] at h
      simp only [h]
  · cases h

theorem Expr.beq_self {e : Expr} (he : e.float? = none) : (e == e) = true := by
  change instBEqExpr.beq e e = true
  have hkind : Nat.decEq e.ctorIdx e.ctorIdx = isTrue rfl := Subsingleton.elim _ _
  unfold instBEqExpr.beq
  rw [hkind]
  cases e with
  | lit value => exact Literal.beq_self he
  | _ => simp only [beq_self_eq_true, Bool.and_self]

/-- The expressions are the same, or they are two numbers that are equal. -/
inductive Expr.Alike : Expr → Expr → Prop
  | same {e : Expr} : e.float? = none → Expr.Alike e e
  | float {x y : Float64} : (x == y) = true → Expr.Alike (.lit (.float x)) (.lit (.float y))

theorem Expr.eq_float {e : Expr} {x : Float64} (h : e.float? = some x) : e = .lit (.float x) := by
  cases e with
  | lit value =>
      cases value with
      | float y =>
          cases h
          rfl
      | _ => cases h
  | _ => cases h

theorem Expr.beq_iff {e e' : Expr} : (e == e') = true ↔ e.Alike e' := by
  constructor
  · intro h
    cases he : e.float? with
    | none => exact eq_of_beq h he ▸ .same he
    | some x =>
        obtain rfl := eq_float he
        cases e' with
        | lit value =>
            cases value with
            | float y => exact .float h
            | _ => cases h
        | _ => cases h
  · intro h
    cases h with
    | same he => exact beq_self he
    | float h => exact h

instance : PartialEquivBEq Expr where
  symm h := by
    rw [Expr.beq_iff] at h ⊢
    cases h with
    | same he => exact .same he
    | float h => exact .float (PartialEquivBEq.symm h)
  trans h h' := by
    rw [Expr.beq_iff] at h h' ⊢
    cases h with
    | same => exact h'
    | float h =>
        cases h' with
        | same => exact .float h
        | float h' => exact .float (PartialEquivBEq.trans h h')

/-- The expression is not a literal that is not a number. -/
def Expr.NaNFree (e : Expr) : Prop :=
  ∀ x, e = .lit (.float x) → x.isNaN = false

theorem Expr.beq_self_iff {e : Expr} : (e == e) = true ↔ e.NaNFree := by
  rw [beq_iff]
  constructor
  · rintro h x rfl
    cases h with
    | same he => cases he
    | float h => exact (Float64.beq_self_iff x).1 h
  · intro h
    cases he : e.float? with
    | none => exact .same he
    | some x =>
        obtain rfl := eq_float he
        exact .float ((Float64.beq_self_iff x).2 (h x rfl))

/-! ### Bodies and what has one -/

theorem Node.beq_iff {n m : Node} :
    (n == m) = true ↔ (n.expr == m.expr) = true ∧ n.type = m.type := by
  show (n.expr == m.expr && n.type == m.type) = true ↔ _
  simp

instance : PartialEquivBEq Node where
  symm h := by
    obtain ⟨hexpr, htype⟩ := Node.beq_iff.1 h
    exact Node.beq_iff.2 ⟨PartialEquivBEq.symm hexpr, htype.symm⟩
  trans h h' := by
    obtain ⟨hexpr, htype⟩ := Node.beq_iff.1 h
    obtain ⟨hexpr', htype'⟩ := Node.beq_iff.1 h'
    exact Node.beq_iff.2 ⟨PartialEquivBEq.trans hexpr hexpr', htype.trans htype'⟩

theorem Body.beq_iff {b d : Body} :
    (b == d) = true ↔ (b.nodes == d.nodes) = true ∧ b.root = d.root ∧
      b.bindings = d.bindings ∧ b.templates = d.templates := by
  show (b.nodes == d.nodes && (b.root == d.root && (b.bindings == d.bindings &&
    b.templates == d.templates))) = true ↔ _
  simp

instance : PartialEquivBEq Body where
  symm h := by
    obtain ⟨hnodes, hroot, hbindings, htemplates⟩ := Body.beq_iff.1 h
    exact Body.beq_iff.2
      ⟨PartialEquivBEq.symm hnodes, hroot.symm, hbindings.symm, htemplates.symm⟩
  trans h h' := by
    obtain ⟨hnodes, hrest⟩ := Body.beq_iff.1 h
    obtain ⟨hnodes', hrest'⟩ := Body.beq_iff.1 h'
    refine Body.beq_iff.2 ⟨PartialEquivBEq.trans hnodes hnodes', ?_⟩
    exact ⟨hrest.1.trans hrest'.1, hrest.2.1.trans hrest'.2.1, hrest.2.2.trans hrest'.2.2⟩

/-- No node of the body, in use or not, is a literal that is not a number. -/
def Body.NaNFree (b : Body) : Prop :=
  ∀ node ∈ b.nodes, node.expr.NaNFree

theorem Body.beq_self_iff {b : Body} : (b == b) = true ↔ b.NaNFree := by
  simp only [beq_iff, list_beq_self_iff, Node.beq_iff, Expr.beq_self_iff, and_true]
  rfl

/-- A type has no numbers in it, and a body no literals that are not numbers. -/
def Place.NaNFree : Place → Prop
  | .type _ => True
  | .body b => b.NaNFree

theorem Place.naNFree_types (ts : List Ty) : ∀ place ∈ ts.map Place.type, place.NaNFree := by
  intro place hplace
  obtain ⟨t, _, rfl⟩ := List.mem_map.1 hplace
  trivial

theorem Place.naNFree_body? {b? : Option Body} :
    (∀ place ∈ b?.toList.map Place.body, place.NaNFree) ↔ (b? == b?) = true := by
  cases b? with
  | none => simp
  | some b => simp [Place.NaNFree, Body.beq_self_iff]

theorem Function.beq_iff {f g : Function} :
    (f == g) = true ↔ f.generics = g.generics ∧ f.args = g.args ∧ f.result = g.result ∧
      (f.body? == g.body?) = true := by
  show (f.generics == g.generics && (f.args == g.args && (f.result == g.result &&
    f.body? == g.body?))) = true ↔ _
  simp

instance : PartialEquivBEq Function where
  symm h := by
    obtain ⟨hgenerics, hargs, hresult, hbody⟩ := Function.beq_iff.1 h
    exact Function.beq_iff.2
      ⟨hgenerics.symm, hargs.symm, hresult.symm, PartialEquivBEq.symm hbody⟩
  trans h h' := by
    obtain ⟨hgenerics, hargs, hresult, hbody⟩ := Function.beq_iff.1 h
    obtain ⟨hgenerics', hargs', hresult', hbody'⟩ := Function.beq_iff.1 h'
    exact Function.beq_iff.2 ⟨hgenerics.trans hgenerics', hargs.trans hargs',
      hresult.trans hresult', PartialEquivBEq.trans hbody hbody'⟩

theorem Function.beq_self_iff {f : Function} :
    (f == f) = true ↔ ∀ place ∈ f.places, place.NaNFree := by
  rw [beq_iff, places, List.forall_mem_append, Place.naNFree_body?]
  exact ⟨fun h => ⟨Place.naNFree_types f.parts, h.2.2.2⟩, fun h => ⟨rfl, rfl, rfl, h.2⟩⟩

theorem Static.beq_iff {s r : Static} :
    (s == r) = true ↔ s.type = r.type ∧ (s.body? == r.body?) = true := by
  show (s.type == r.type && s.body? == r.body?) = true ↔ _
  simp

instance : PartialEquivBEq Static where
  symm h := by
    obtain ⟨htype, hbody⟩ := Static.beq_iff.1 h
    exact Static.beq_iff.2 ⟨htype.symm, PartialEquivBEq.symm hbody⟩
  trans h h' := by
    obtain ⟨htype, hbody⟩ := Static.beq_iff.1 h
    obtain ⟨htype', hbody'⟩ := Static.beq_iff.1 h'
    exact Static.beq_iff.2 ⟨htype.trans htype', PartialEquivBEq.trans hbody hbody'⟩

theorem Static.beq_self_iff {s : Static} :
    (s == s) = true ↔ ∀ place ∈ s.places, place.NaNFree := by
  rw [beq_iff, places, List.forall_mem_cons, Place.naNFree_body?]
  simp [Place.NaNFree]

end Unerase
