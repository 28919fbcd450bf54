import Unerase.Ty.Basic

/-!
How types, paths and their parts are written out for a reader. Parts of one
list are separated by commas and traits by plus signs. An argument list is
written only if it has an argument, and a tuple of one element keeps its comma.
-/

namespace Unerase

def Prim.text : Prim → String
  | bool => "bool" | char => "char" | str => "str"
  | u8 => "u8" | u16 => "u16" | u32 => "u32" | u64 => "u64" | usize => "usize"
  | i8 => "i8" | i16 => "i16" | i32 => "i32" | i64 => "i64" | isize => "isize"
  | f32 => "f32" | f64 => "f64"

/-- A parameter is written by its name alone. -/
def Param.text (p : Param) : String :=
  p.name

def Const.text : Const → String
  | lit value => toString value
  | param p => p.text

mutual

/-- The text of a type. A placeholder shows its bounds, and the template that it stands for. -/
def Ty.text : Ty → String
  | .never => "!"
  | .prim p => p.text
  | .path p => p.text
  | .param p => p.text
  | .dyn trait markers =>
      "dyn " ++ " + ".intercalate (trait.text :: ItemRef.texts markers)
  | .erased origin index bounds =>
      "impl " ++
        (if bounds.isEmpty then "?" else " + ".intercalate (ItemRef.texts bounds)) ++
        " @ " ++ origin.text ++ "#" ++ toString index
  | .array elem size => "[" ++ elem.text ++ "; " ++ size.text ++ "]"
  | .slice elem => "[" ++ elem.text ++ "]"
  | .tuple elems =>
      "(" ++ ", ".intercalate (Ty.texts elems) ++
        (if elems.length = 1 then ",)" else ")")
  | .ref .shared target => "&" ++ target.text
  | .ref .unique target => "&mut " ++ target.text
  | .ptr false target => "*const " ++ target.text
  | .ptr true target => "*mut " ++ target.text
  | .fn args result =>
      "fn(" ++ ", ".intercalate (Ty.texts args) ++ ") -> " ++ result.text
termination_by structural t => t

/-- The text of a path. A trait that has not been found yet is written as an underscore. -/
def Path.text : Path → String
  | .item target => target.text
  | .inherent self name args => "<" ++ self.text ++ ">::" ++ name ++ args.text
  | .known self trait name args =>
      "<" ++ self.text ++ " as " ++ trait.text ++ ">::" ++ name ++ args.text
  | .unknown self name args =>
      "<" ++ self.text ++ " as _>::" ++ name ++ args.text
termination_by structural p => p

def ItemRef.text : ItemRef → String
  | ⟨name, args⟩ => name.text ++ args.text
termination_by structural r => r

/-- The text of an argument list, which is empty if there are no arguments. -/
def Args.text : Args → String
  | ⟨types, consts⟩ =>
      if types.isEmpty && consts.isEmpty then ""
      else "<" ++ ", ".intercalate (Ty.texts types ++ consts.map Const.text) ++ ">"
termination_by structural a => a

def Ty.texts : List Ty → List String
  | [] => []
  | t :: ts => t.text :: Ty.texts ts
termination_by structural ts => ts

def ItemRef.texts : List ItemRef → List String
  | [] => []
  | r :: rs => r.text :: ItemRef.texts rs
termination_by structural rs => rs

end

end Unerase
