import CelTyping.Registry.Basic

/-! A registry of messages and enums declared one by one. -/
namespace CelTyping

abbrev EnumValues := Table String Int32

structure Catalogue where
  messages : Table String Message := ∅
  enums : Table String EnumValues := ∅
deriving Inhabited

namespace Catalogue

/-- A message of the same name is replaced as a whole. -/
def addMessage (c : Catalogue) (m : Message) : Catalogue :=
  { c with messages := c.messages.insert m.name m }

def addEnum (c : Catalogue) (name : String) (values : EnumValues) : Catalogue :=
  { c with enums := c.enums.insert name values }

def message? (c : Catalogue) (name : String) : Option Message := c.messages.get? name

def enumValue? (c : Catalogue) (enum value : String) : Option Int32 :=
  (c.enums.get? enum).bind (·.get? value)

def fieldType? (c : Catalogue) (message field : String) : Option Ty :=
  (c.messages.get? message).bind (·.field? field)

def registry (c : Catalogue) : Registry where
  message? := c.message?
  enumValue? := c.enumValue?
  fieldType? := c.fieldType?

def messageRegistry (c : Catalogue) : Registry where
  message? := c.message?
  enumValue? := c.enumValue?

def wellKnownMessages : List (String × List (String × Ty)) :=
  [("google.protobuf.BoolValue", [("value", .bool)]),
   ("google.protobuf.BytesValue", [("value", .bytes)]),
   ("google.protobuf.DoubleValue", [("value", .double)]),
   ("google.protobuf.FloatValue", [("value", .double)]),
   ("google.protobuf.Int32Value", [("value", .int)]),
   ("google.protobuf.Int64Value", [("value", .int)]),
   ("google.protobuf.StringValue", [("value", .string)]),
   ("google.protobuf.UInt32Value", [("value", .uint)]),
   ("google.protobuf.UInt64Value", [("value", .uint)]),
   ("google.protobuf.Timestamp", [("seconds", .int), ("nanos", .int)]),
   ("google.protobuf.Duration", [("seconds", .int), ("nanos", .int)]),
   ("google.protobuf.Any", [("type_url", .string), ("value", .bytes)]),
   ("google.protobuf.Struct", [("fields", .map .string .dyn)]),
   ("google.protobuf.ListValue", [("values", .list .dyn)]),
   ("google.protobuf.Value",
     [("null_value", .null), ("number_value", .double), ("string_value", .string),
      ("bool_value", .bool), ("struct_value", .map .string .dyn), ("list_value", .list .dyn)])]

def wellKnown : Catalogue where
  messages := Table.ofList
    (wellKnownMessages.map fun (name, fields) => (name, ⟨name, Table.ofList fields⟩))
  enums := Table.ofList [("google.protobuf.NullValue", Table.ofList [("NULL_VALUE", 0)])]

end Catalogue

end CelTyping
