import CelTyping.Registry.Basic

/-! Protobuf descriptors as a registry sees them. Where they are kept and how they get there is
left open: a reflection is the list of questions that can be asked about them, and the registry
follows from the answers. -/
namespace CelTyping

inductive Reflection.Kind (Message Enum : Type) where
  | double | float | int32 | int64 | uint32 | uint64 | sint32 | sint64 | fixed32 | fixed64
  | sfixed32 | sfixed64 | bool | string | bytes
  | message (m : Message)
  | enum (e : Enum)

structure Reflection (Message Field Enum : Type) where
  message? : String → Option Message
  messageName : Message → String
  fields : Message → List Field
  field? : Message → String → Option Field
  fieldName : Field → String
  kind : Field → Reflection.Kind Message Enum
  isList : Field → Bool
  isMap : Field → Bool
  enum? : String → Option Enum
  enumName : Enum → String
  /-- The number of a value of the enum. -/
  number? : Enum → String → Option Int32

namespace Reflection

variable {M F E : Type} (r : Reflection M F E)

def kindType : Kind M E → Ty
  | .bool => .bool
  | .int32 | .sint32 | .sfixed32 | .int64 | .sint64 | .sfixed64 => .int
  | .uint32 | .fixed32 | .uint64 | .fixed64 => .uint
  | .float | .double => .double
  | .string => .string
  | .bytes => .bytes
  | .message m => Ty.ofMessage (r.messageName m)
  | .enum e => if r.enumName e = "google.protobuf.NullValue" then .null else .int

def entryPart (entry : M) (name : String) : Ty :=
  match r.field? entry name with
  | some f => r.kindType (r.kind f)
  | none => .dyn

/-- A map is kept as repeated entries, each a message with a key and a value. -/
def typeOf (f : F) : Ty :=
  if r.isMap f then
    match r.kind f with
    | .message entry => .map (r.entryPart entry "key") (r.entryPart entry "value")
    | _ => .map .dyn .dyn
  else
    let base := r.kindType (r.kind f)
    if r.isList f then .list base else base

def registry : Registry where
  message? name := (r.message? name).map fun m =>
    { name := r.messageName m
      fields := Table.ofList ((r.fields m).map fun f => (r.fieldName f, r.typeOf f)) }
  enumValue? enum value := (r.enum? enum).bind (r.number? · value)
  fieldType? message field := (r.message? message).bind fun m => (r.field? m field).map r.typeOf

end Reflection

end CelTyping
