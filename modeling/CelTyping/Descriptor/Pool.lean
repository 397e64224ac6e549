import CelTyping.Descriptor.Names
import CelTyping.Registry.Reflection

/-! A pool of protobuf descriptors, and what it answers about them. -/
namespace CelTyping.Descriptor

structure Field where
  name : String
  /-- Messages and enums are given by their full names. -/
  kind : Reflection.Kind String String
  repeated : Bool

structure MessageDef where
  /-- In the order declared. -/
  fields : List Field
  isMapEntry : Bool

structure Pool where
  /-- Each file, with the files whose declarations it passes on. -/
  files : Table String (List String) := ∅
  names : Names := ∅
  enums : Table String (List (String × Int32)) := ∅
  /-- The numbers that each message leaves to its extensions. -/
  extensionRanges : Table String (List NumberRange) := ∅
  messages : Table String MessageDef := ∅

instance : Inhabited Pool := ⟨{}⟩

def fullName (name : String) : String := (Name.rooted? name).getD name

namespace Pool

def fields (pool : Pool) (message : String) : List Field :=
  ((pool.messages.get? message).map (·.fields)).getD []

/-- Repeated map entries are a map, and other repeated values a list. -/
def isMap (pool : Pool) (field : Field) : Bool :=
  field.repeated &&
    match field.kind with
    | .message name => (pool.messages.get? name).any (·.isMapEntry)
    | _ => false

def reflection (pool : Pool) : Reflection String Field String where
  message? name := if pool.messages.contains (fullName name) then some (fullName name) else none
  messageName name := name
  fields := pool.fields
  field? message name := (pool.fields message).find? (·.name == name)
  fieldName := Field.name
  kind := Field.kind
  isList field := field.repeated && !pool.isMap field
  isMap := pool.isMap
  enum? name := if pool.enums.contains (fullName name) then some (fullName name) else none
  enumName name := name
  number? enum value := (pool.enums.get? enum).bind (·.lookup value)

def registry (pool : Pool) : Registry := pool.reflection.registry

end Pool

end CelTyping.Descriptor
