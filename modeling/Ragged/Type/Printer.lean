import Ragged.Type.Basic

/-!
# The written form of array types

Each dimension is followed by a comma and a blank, then comes the leaf; the fields of a struct stand
in braces, separated by semicolons. A string type leaves out what is the default, so `string` alone
is a UTF-8 string of any length. What is printed here reads back to the same type, provided every
struct has fields and their names are distinct identifiers.
-/

set_option autoImplicit false

namespace Ragged

def Dimension.render : Dimension → String
  | .fixed n => toString n
  | .strided => "strided"
  | .var => "var"

/-- The written form of a string type; a UTF-8 encoding goes without saying. -/
def StringType.render (t : StringType) : String :=
  match t.width, t.encoding with
  | none, .utf8 => "string"
  | none, e => "string(\"" ++ e.name ++ "\")"
  | some w, .utf8 => "string(" ++ toString w ++ ")"
  | some w, e => "string(" ++ toString w ++ ", \"" ++ e.name ++ "\")"

mutual

def ArrayType.render : ArrayType → String
  | ⟨dims, leaf⟩ => String.join (dims.map (·.render ++ ", ")) ++ leaf.render

def LeafType.render : LeafType → String
  | .scalar kind => kind.name
  | .string type => type.render
  | .struct fields => "\x7b" ++ "; ".intercalate (Field.renderEach fields) ++ "\x7d"

/-- The written forms of the fields, each as `name: type`. -/
def Field.renderEach : List Field → List String
  | [] => []
  | ⟨name, type⟩ :: rest => (name ++ ": " ++ type.render) :: Field.renderEach rest

end

def Struct.render (fields : Struct) : String := (LeafType.struct fields).render

end Ragged
