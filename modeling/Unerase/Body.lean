import Unerase.Float64
import Unerase.Run
import Unerase.Ty.Equality

/-!
Bodies of functions and statics. The expressions of a body are the nodes of one
list and refer to each other by position, so that two expressions may share a
part. Each node carries the type that was inferred for it.

Two bodies are compared with `==`. It differs from `=` in floating-point
literals only, which are compared as numbers.
-/

namespace Unerase

/-- A name with its type: an argument, a field or a constant parameter. -/
structure TypedName where
  name : String
  type : Ty
deriving DecidableEq

/-- A literal in an expression. -/
inductive Literal where
  | int (value : Nat)
  | float (value : Float64)
  | bool (value : Bool)
  | str (value : String)
deriving BEq

/-- A position in the list of nodes of a body. -/
abbrev NodeId := Nat

/-- An expression, whose parts are given by their positions. -/
inductive Expr where
  | block (stmts : List NodeId) (tail : Option NodeId)
  /-- A declaration of local variable number `binding`. -/
  | letIn (binding : Nat) (type : Ty) (value : Option NodeId)
  | ret (value : Option NodeId)
  | ite (cond yes : NodeId) (no : Option NodeId)
  | lit (value : Literal)
  | var (name : String) (binding : Nat)
  /-- A function used as a value. -/
  | pathValue (path : Path)
  | callPath (path : Path) (args : List NodeId)
  /-- A method call; `path` is the method that was found for it. -/
  | callMethod (receiver : NodeId) (method : String) (args : List NodeId)
      (path : Path)
  | field (value : NodeId) (name : String)
  | tuple (elems : List NodeId)
  | struct (target : ItemRef) (fields : List (String × NodeId))
  | cast (value : NodeId) (type : Ty)
  | closure (args : List TypedName) (result : Ty) (body : NodeId)
deriving BEq

/-- The parts of an expression in the order of their evaluation. -/
def Expr.children : Expr → List NodeId
  | block stmts tail => stmts ++ tail.toList
  | letIn _ _ value => value.toList
  | ret value => value.toList
  | ite cond yes no => cond :: yes :: no.toList
  | lit _ | var _ _ | pathValue _ => []
  | callPath _ args => args
  | callMethod receiver _ args _ => receiver :: args
  | field value _ => [value]
  | tuple elems => elems
  | struct _ fields => fields.map Prod.snd
  | cast value _ => [value]
  | closure _ _ body => [body]

/-- An expression with the type that was inferred for it. -/
structure Node where
  expr : Expr
  type : Ty
deriving BEq

/-- The node at a position, which may lie beyond the end of the list. -/
def Node.at {ε : Type} (nodes : List Node) (id : NodeId) :
    Except (Fault ε) Node :=
  match nodes[id]? with
  | some node => .ok node
  | none => .error (.outOfBounds nodes.length id)

/-- Position `id` has position `child` among its parts. -/
def Node.Refers (nodes : List Node) (id child : NodeId) : Prop :=
  ∃ node, nodes[id]? = some node ∧ child ∈ node.expr.children

/-- A body: its nodes, the position of the outermost one, the types of its
local variables by number, and the templates behind the placeholders in the
signature of its function. -/
structure Body where
  nodes : List Node
  root : NodeId
  bindings : List Ty
  templates : List Ty
deriving BEq

namespace Body

/-- The type of the outermost expression. -/
def type {ε : Type} (b : Body) : Except (Fault ε) Ty :=
  Node.type <$> Node.at b.nodes b.root

/-- The positions in use: the root, and the parts of positions in use. -/
inductive Reachable (b : Body) : NodeId → Prop where
  | root : Reachable b b.root
  | part {id child : NodeId} :
      Reachable b id → Node.Refers b.nodes id child → Reachable b child

/-- Every position in use exists, and following parts always comes to an end.
Bodies of typed programs have this form. -/
structure WellFormed (b : Body) : Prop where
  inBounds : ∀ id, b.Reachable id → id < b.nodes.length
  acyclic : ∀ id, b.Reachable id → Acc (fun child id => Node.Refers b.nodes id child) id

end Body

end Unerase
