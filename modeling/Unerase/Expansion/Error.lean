import Unerase.Ty.Text
import Unerase.Ty.Equality

/-!
Why a placeholder cannot be replaced. Each cause has a message for the reader, a
code that names it, and a hint at what is wrong with the program.
-/

namespace Unerase

/-- What a placeholder stands for: a template of the function at `origin`, given
by its position in the list of templates. -/
structure TemplateKey where
  origin : Path
  index : Nat
deriving DecidableEq

def TemplateKey.text (k : TemplateKey) : String :=
  k.origin.text ++ "#" ++ toString k.index

/-- What an origin was supposed to name. -/
inductive Sought where
  | function | inherentMethod
deriving DecidableEq

def Sought.text : Sought → String
  | function => "function"
  | inherentMethod => "inherent method"

/-- A form of origin that is not supported. -/
inductive Feature where
  /-- The origin is a method of a trait. -/
  | traitMethod
  /-- A parameter that is not one of the block's own type parameters occurs in the
  self type of an impl block. -/
  | paramInSelf (p : Param)
  /-- A constant parameter occurs in the self type of an impl block, where the
  receiver has the constant `c`. -/
  | constParamInSelf (p : Param) (c : Const)
  /-- An impl block has constant parameters. -/
  | implConsts
deriving DecidableEq

def Feature.text : Feature → String
  | traitMethod => "erased type through a trait method"
  | paramInSelf p => "generic " ++ p.text ++ " in an impl self type"
  | constParamInSelf p c =>
      "value generic " ++ p.text ++ " matched against " ++ c.text
  | implConsts => "value parameters on an inherent impl"

/-- Why an expansion has stopped, with what the reader needs to find the cause. -/
inductive ExpansionError where
  /-- The origin goes through a trait that has not been found yet. -/
  | unresolved (origin : Path)
  /-- The origin names nothing of the kind that it should name. -/
  | notFound (origin : Path) (sought : Sought)
  /-- The function at the origin has only `size` templates. -/
  | outOfRange (key : TemplateKey) (size : Nat)
  | unsupported (origin : Path) (feature : Feature)
  /-- Parameter `index` of the impl block does not occur in its self type. -/
  | unconstrained (origin : Path) (name : String) (index : Nat)
  /-- The self type of an impl block does not have the shape of the receiver. -/
  | shapeMismatch (pattern concrete : Ty)
  /-- A parameter in a template has no value. -/
  | uncovered (p : Param) (template : Ty)
  /-- The template is needed in order to expand itself. -/
  | cycle (key : TemplateKey)
  /-- More than `limit` expansions are nested in each other. -/
  | tooDeep (key : TemplateKey) (limit : Nat)
deriving DecidableEq

namespace ExpansionError

/-- The message for the reader. -/
def message : ExpansionError → String
  | unresolved origin =>
      "Unresolved path reached erased type expansion: " ++ origin.text
  | notFound origin sought =>
      "Failed to locate " ++ sought.text ++ " for " ++ origin.text
  | outOfRange key size =>
      "Erased type index out of range for " ++ key.origin.text ++ " - " ++
        toString key.index ++ " >= " ++ toString size
  | unsupported origin feature =>
      "Unsupported erased type origin " ++ origin.text ++ ": " ++ feature.text
  | unconstrained origin name index =>
      "Impl parameter " ++ name ++ " (#" ++ toString index ++
        ") is not constrained by the self type of " ++ origin.text
  | shapeMismatch pattern concrete =>
      "Impl self type " ++ pattern.text ++ " does not match " ++ concrete.text
  | uncovered p template =>
      "Generic " ++ p.text ++ " in " ++ template.text ++ " has no binding"
  | cycle key => "Erased type " ++ key.text ++ " expands to itself"
  | tooDeep key limit =>
      "Erased type expansion exceeded depth " ++ toString limit ++ " at " ++ key.text

/-- The name of the cause within the codes of the expansion. -/
def code : ExpansionError → String
  | unresolved _ => "opal::expand::stale_state"
  | notFound .. => "opal::expand::lookup_failure"
  | outOfRange .. => "opal::expand::index_out_of_range"
  | unsupported .. => "opal::expand::unsupported_shape"
  | unconstrained .. => "opal::expand::unbound_generic_slot"
  | shapeMismatch .. => "opal::expand::structural_mismatch"
  | uncovered .. => "opal::expand::uncovered_generic"
  | cycle _ => "opal::expand::cycle_detected"
  | tooDeep .. => "opal::expand::depth_limit"

/-- What is wrong with the program in which the cause arises. -/
def help : ExpansionError → String
  | unresolved _ =>
      "UfcsUnknown paths must be resolved to a trait before this pass runs"
  | notFound .. =>
      "The origin of an erased type must name a function defined in this crate"
  | outOfRange _ size =>
      "The origin function only declares " ++ toString size ++ " erased types"
  | unsupported .. => "This form of opaque type is not implemented yet"
  | unconstrained .. =>
      "Impl parameters that only appear in bounds cannot be bound by direct matching"
  | shapeMismatch .. =>
      "The impl was selected for this receiver, so its self type must match structurally"
  | uncovered .. =>
      "Every generic in an erased type template must be bound by its origin path"
  | cycle _ => "An opaque type cannot be defined in terms of itself"
  | tooDeep .. =>
      "The opaque type is likely defined through polymorphic recursion"

end ExpansionError

end Unerase
