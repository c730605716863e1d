import Ragged.Document.Json
import Ragged.Type.Basic

/-!
# Array types as JSON documents

A type is an object with its `dims` and its `leaf`; each choice among alternatives is an object
whose one member is named for the alternative, or just that name where nothing goes with it:
`{"dims":[{"Fixed":3},"Var"],"leaf":{"Scalar":"Int32"}}`.

Reading is lenient where it does no harm: members of other names are passed over, a record may also
be given as the array of its members' values, and an alternative without content may be written as
an object with `null`. Nothing is checked that the document form does not say, so struct types read
here may have no fields or repeated names.
-/

set_option autoImplicit false

namespace Ragged

namespace TypeDocument

/-- An alternative with content. -/
def tagged (name : String) (content : Json) : Json := .object [(name, content)]

def ofDimension : Dimension → Json
  | .fixed n => tagged "Fixed" (.ofNat n)
  | .strided => .string "Strided"
  | .var => .string "Var"

def kindName : ScalarKind → String
  | .bool => "Bool"
  | .int8 => "Int8"
  | .int16 => "Int16"
  | .int32 => "Int32"
  | .int64 => "Int64"
  | .uint8 => "UInt8"
  | .uint16 => "UInt16"
  | .uint32 => "UInt32"
  | .uint64 => "UInt64"
  | .float16 => "Float16"
  | .float32 => "Float32"
  | .float64 => "Float64"
  | .cfloat32 => "ComplexFloat32"
  | .cfloat64 => "ComplexFloat64"

def kinds : List ScalarKind :=
  [.bool, .int8, .int16, .int32, .int64, .uint8, .uint16, .uint32, .uint64,
    .float16, .float32, .float64, .cfloat32, .cfloat64]

def encodingName : Encoding → String
  | .ascii => "Ascii"
  | .utf8 => "Utf8"
  | .utf16 => "Utf16"
  | .utf32 => "Utf32"

def encodings : List Encoding := [.ascii, .utf8, .utf16, .utf32]

mutual

def ofType : ArrayType → Json
  | ⟨dims, leaf⟩ => .object [("dims", .array (dims.map ofDimension)), ("leaf", ofLeaf leaf)]

def ofLeaf : LeafType → Json
  | .scalar kind => tagged "Scalar" (.string (kindName kind))
  | .string type =>
    tagged "String" (.object
      [("encoding", .string (encodingName type.encoding)),
        ("fixed_width", match type.width with | none => .null | some w => .ofNat w)])
  | .struct fields => tagged "Struct" (.object [("fields", .array (ofFields fields))])

def ofFields : List Field → List Json
  | [] => []
  | ⟨name, type⟩ :: rest => .object [("name", .string name), ("ty", ofType type)] :: ofFields rest

end

/-! ## Reading -/

/-- A size: an integer of 64 bits without sign. -/
def size? : Json → Option Nat
  | .number n =>
    match n.int? with
    | some (.ofNat m) => if m < 0x10000000000000000 ∧ ¬ (n.negative ∧ m = 0) then some m else none
    | _ => none
  | _ => none

/-- A choice: the name of the alternative and its content, if any is given. -/
def choice? : Json → Option (String × Option Json)
  | .string name => some (name, none)
  | .object [(name, content)] => some (name, some content)
  | _ => none

/-- The name chosen among alternatives without content. -/
def bareChoice? (doc : Json) : Option String :=
  match choice? doc with
  | some (name, none) | some (name, some .null) => some name
  | _ => none

/-- The values of a record's members, in the order of `names`, each present or not. A record given
as an array has them all. -/
def record? (names : List String) : Json → Option (List (Option Json))
  | .object members => some (names.map (members.lookup ·))
  | .array items => if items.length = names.length then some (items.map some) else none
  | _ => none

def dimension? (doc : Json) : Option Dimension :=
  match choice? doc with
  | some ("Fixed", some n) => (size? n).map .fixed
  | _ =>
    match bareChoice? doc with
    | some "Strided" => some .strided
    | some "Var" => some .var
    | _ => none

def kind? (doc : Json) : Option ScalarKind := do
  let name ← bareChoice? doc
  kinds.find? (kindName · == name)

def encoding? (doc : Json) : Option Encoding := do
  let name ← bareChoice? doc
  encodings.find? (encodingName · == name)

def stringType? (doc : Json) : Option StringType :=
  match record? ["encoding", "fixed_width"] doc with
  | some [some e, width] => do
    let encoding ← encoding? e
    match width with
    | none | some .null => return ⟨encoding, none⟩
    | some w => return ⟨encoding, some (← size? w)⟩
  | _ => none

mutual

/-- Reads a type whose document nests no deeper than the first argument says. -/
def type? : Nat → Json → Option ArrayType
  | 0, _ => none
  | n + 1, doc =>
    match record? ["dims", "leaf"] doc with
    | some [some (.array dims), some leaf] => do
      return ⟨← dims.mapM dimension?, ← leaf? n leaf⟩
    | _ => none

def leaf? : Nat → Json → Option LeafType
  | 0, _ => none
  | n + 1, doc =>
    match choice? doc with
    | some ("Scalar", some kind) => (kind? kind).map .scalar
    | some ("String", some type) => (stringType? type).map .string
    | some ("Struct", some struct) => (struct? n struct).map .struct
    | _ => none

/-- Reads a struct type, given as a record with its `fields`. -/
def struct? : Nat → Json → Option (List Field)
  | 0, _ => none
  | n + 1, doc =>
    match record? ["fields"] doc with
    | some [some (.array fields)] => fields.mapM (field? n)
    | _ => none

def field? : Nat → Json → Option Field
  | 0, _ => none
  | n + 1, doc =>
    match record? ["name", "ty"] doc with
    | some [some (.string name), some type] => do return ⟨name, ← type? n type⟩
    | _ => none

end

end TypeDocument

mutual

/-- How deep arrays and objects nest in a document. -/
def Json.depth : Json → Nat
  | .array items => Json.depthItems items + 1
  | .object members => Json.depthMembers members + 1
  | _ => 1

def Json.depthItems : List Json → Nat
  | [] => 0
  | item :: rest => max item.depth (Json.depthItems rest)

def Json.depthMembers : List (String × Json) → Nat
  | [] => 0
  | (_, value) :: rest => max value.depth (Json.depthMembers rest)

end

def ArrayType.toJson (t : ArrayType) : Json := TypeDocument.ofType t

def ArrayType.ofJson? (doc : Json) : Option ArrayType := TypeDocument.type? doc.depth doc

def LeafType.ofJson? (doc : Json) : Option LeafType := TypeDocument.leaf? doc.depth doc

def Struct.ofJson? (doc : Json) : Option Struct := TypeDocument.struct? doc.depth doc

end Ragged
