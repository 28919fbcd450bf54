import Unerase.Visitor.Body
import Unerase.Visitor.Crate

/-!
A visitor that writes down what it is told. It can also replace types, stop at a
type, and leave out what lies below parts of a chosen kind.

A type alias is no part that a visitor is told of. It is logged as an item, and its
parameters and its type are logged like those of any other item.
-/

namespace Unerase

/-- The kinds of parts that a log tells apart. -/
inductive PartKind where
  | type | path | itemRef | args
  | crate | module | item | function | struct | enum | static | trait
  | inherentImpl | traitImpl | generics
  | body | node
deriving DecidableEq

namespace PartKind

def text : PartKind → String
  | type => "type"
  | path => "path"
  | itemRef => "generic_path"
  | args => "params"
  | crate => "crate"
  | module => "module"
  | item => "item"
  | function => "function"
  | struct => "struct"
  | enum => "enum"
  | static => "static"
  | trait => "trait"
  | inherentImpl => "type_impl"
  | traitImpl => "trait_impl"
  | generics => "generics"
  | body => "root"
  | node => "node"

end PartKind

namespace Site

def kind : Site → PartKind
  | path _ => .path
  | itemRef _ => .itemRef
  | args _ => .args
  | crate _ => .crate
  | module _ => .module
  | item _ => .item
  | function _ => .function
  | struct _ => .struct
  | enum _ => .enum
  | static _ => .static
  | trait _ => .trait
  | inherentImpl _ => .inherentImpl
  | traitImpl .. => .traitImpl
  | generics _ => .generics
  | body _ => .body
  | node _ => .node

/-- What a log says about the part. Generic parameters are counted: types,
constants and conditions. -/
def text : Site → String
  | path p => p.text
  | itemRef r => r.text
  | args a => a.text
  | crate name => name
  | module name | item name | struct name | enum name | static name | trait name =>
      name.text
  | function site => site.text
  | inherentImpl self => self.text
  | traitImpl target self => target.text ++ " for " ++ self.text
  | generics g =>
      "/".intercalate
        [toString g.types.length, toString g.consts.length, toString g.bounds.length]
  | body root => toString root
  | node id => toString id

end Site

/-- A line of a log. -/
inductive LogEntry where
  | type (t : Ty)
  | site (s : Site)
  /-- The walk over items has come to a body with the given root. -/
  | bodyReached (root : NodeId)
deriving DecidableEq

/-- The kind of the part and what identifies it. -/
def LogEntry.text : LogEntry → String
  | type t => PartKind.type.text ++ " " ++ t.text
  | site s => s.kind.text ++ " " ++ s.text
  | bodyReached root => "expr " ++ toString root

/-- How much is logged. -/
inductive LogLevel where
  /-- Types, and no bodies that the walk over items comes to. -/
  | types
  | few
  | all
deriving DecidableEq

/-- Parts of this kind are logged. -/
def LogLevel.covers : LogLevel → PartKind → Bool
  | types, kind => kind = .type
  | few, kind => kind = .type || kind = .function
  | all, _ => true

/-- What a logging visitor does besides logging. -/
structure LogSettings where
  level : LogLevel
  /-- Whether to walk the bodies that the walk over items comes to. -/
  bodies : Bool
  /-- What takes the place of a type. -/
  replacement? : Ty → Option Ty
  /-- Whether to stop at a type. -/
  stopsAt : Ty → Bool
  /-- The kinds of parts not to walk, among those that are logged. -/
  prunes : PartKind → Bool

namespace LogSettings

/-- Adds an entry to the log. -/
def log (entry : LogEntry) : Run (Fault Ty) (Array LogEntry) Unit :=
  Run.update (·.push entry)

/-- Logs a part, and tells whether to walk it. -/
def enter (l : LogSettings) (site : Site) :
    Run (Fault Ty) (Array LogEntry) Bool :=
  if l.level.covers site.kind then do
    log (.site site)
    pure (!l.prunes site.kind)
  else pure true

/-- Logs a type, and stops if it is one at which to stop. -/
def announce (l : LogSettings) (t : Ty) : Run (Fault Ty) (Array LogEntry) Unit := do
  log (.type t)
  if l.stopsAt t then Run.stop (.error t)

/-- What is to be left of a type without walking it. A type that takes the place of
another is not walked. -/
def answer (l : LogSettings) (t : Ty) : Option Ty :=
  (l.replacement? t).or (if l.prunes .type then some t else none)

/-- Logs a body that the walk over items has come to, and has it walked by the visitor
if the settings say so. -/
def body (l : LogSettings) (v : Visitor Ty (Array LogEntry)) (b : Body) :
    Run (Fault Ty) (Array LogEntry) Body := do
  if l.level = .all then log (.bodyReached b.root)
  if l.bodies && l.level ≠ .types then b.visit v else pure b

section Visitors

variable (l : LogSettings) (type : Ty → Run (Fault Ty) (Array LogEntry) (Option Ty))

/-- The visitor of bodies that treats types in the given way. -/
def bodyVisitorBy : Visitor Ty (Array LogEntry) where
  enter := l.enter
  type

/-- The visitor of items that treats types in the given way, also in bodies. -/
def visitorBy : Visitor Ty (Array LogEntry) where
  enter := l.enter
  type
  body := l.body (l.bodyVisitorBy type)

end Visitors

/-- Logs a type and leaves it as the settings say. -/
def type (l : LogSettings) (t : Ty) : Run (Fault Ty) (Array LogEntry) (Option Ty) := do
  l.announce t
  pure (l.answer t)

/-- The visitor of bodies that walks no type that it has replaced. -/
def bodyVisitor (l : LogSettings) : Visitor Ty (Array LogEntry) :=
  l.bodyVisitorBy l.type

/-- The visitor of items that walks no type that it has replaced. -/
def visitor (l : LogSettings) : Visitor Ty (Array LogEntry) :=
  l.visitorBy l.type

/-- Announces a type, and has the visitor walk what is put in its place. -/
def rewrite (l : LogSettings) (v : Visitor Ty (Array LogEntry)) (t : Ty) :
    Run (Fault Ty) (Array LogEntry) (Option Ty) := do
  l.announce t
  let t := (l.replacement? t).getD t
  if l.prunes .type then pure (some t) else some <$> t.walk v

/-- Goes on into what is put in the place of a type. The type may occur there again, so
this goes no deeper than `depth` types. A walk that ends before is the same for every
larger depth (`rewriter_continues`). -/
def rewriteWithin (l : LogSettings) :
    (depth : Nat) → Ty → Run (Fault Ty) (Array LogEntry) (Option Ty)
  | 0, _ => .stop .endless
  | depth + 1, t => l.rewrite (l.bodyVisitorBy (l.rewriteWithin depth)) t

/-- The visitor of bodies that goes on into what it puts in the place of types. -/
def bodyRewriter (l : LogSettings) (depth : Nat) : Visitor Ty (Array LogEntry) :=
  l.bodyVisitorBy (l.rewriteWithin depth)

/-- The visitor of items that goes on into what it puts in the place of types. -/
def rewriter (l : LogSettings) (depth : Nat) : Visitor Ty (Array LogEntry) :=
  l.visitorBy (l.rewriteWithin depth)

end LogSettings

end Unerase
