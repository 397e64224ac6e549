import CelTyping.Descriptor.Link

/-! The protobuf files that every pool of a program can start from. -/
namespace CelTyping.Descriptor

def numbered (fields : List FieldSpec) : List FieldSpec :=
  fields.mapIdx fun i f => { f with number := i + 1 }

def plain (name : String) (kind : FieldKind) : FieldSpec :=
  { name, number := 0, kind }

def named (name : String) (kind : FieldKind) (type : String) : FieldSpec :=
  { plain name kind with typeName := some (".google.protobuf." ++ type) }

def plainMessage (name : String) (fields : List FieldSpec) : MessageSpec :=
  { name, fields := numbered fields }

def wrapper (name : String) (kind : FieldKind) : MessageSpec :=
  plainMessage name [plain "value" kind]

def moment (name : String) : MessageSpec :=
  plainMessage name [plain "seconds" .int64, plain "nanos" .int32]

def wellKnownFile (name : String) (messages : List MessageSpec) (enums : List EnumSpec) :
    FileSpec where
  name := "google/protobuf/" ++ name ++ ".proto"
  edition := some .proto3
  package := "google.protobuf"
  messages := messages
  enums := enums

def mapEntryOption : OptionSet := { given := [("map_entry", .flag true)] }

def wellKnownFiles : List FileSpec :=
  [wellKnownFile "any" [plainMessage "Any" [plain "type_url" .string, plain "value" .bytes]] [],
   wellKnownFile "duration" [moment "Duration"] [],
   wellKnownFile "timestamp" [moment "Timestamp"] [],
   wellKnownFile "empty" [plainMessage "Empty" []] [],
   wellKnownFile "wrappers"
     [wrapper "DoubleValue" .double, wrapper "FloatValue" .float, wrapper "Int64Value" .int64,
      wrapper "UInt64Value" .uint64, wrapper "Int32Value" .int32, wrapper "UInt32Value" .uint32,
      wrapper "BoolValue" .bool, wrapper "StringValue" .string, wrapper "BytesValue" .bytes] [],
   wellKnownFile "struct"
     [{ plainMessage "Struct"
          [{ named "fields" .message "Struct.FieldsEntry" with repeated := true }] with
        messages :=
          [{ plainMessage "FieldsEntry" [plain "key" .string, named "value" .message "Value"] with
             options := mapEntryOption }] },
      { plainMessage "Value"
          [named "null_value" .enum "NullValue", plain "number_value" .double,
           plain "string_value" .string, plain "bool_value" .bool,
           named "struct_value" .message "Struct", named "list_value" .message "ListValue"] with
        oneofs := [{ name := "kind" }] },
      plainMessage "ListValue" [{ named "values" .message "Value" with repeated := true }]]
     [{ name := "NullValue", values := [{ name := "NULL_VALUE", number := 0 }] }]]

def Pool.wellKnown : Pool := (Pool.add? {} wellKnownFiles).getD {}

end CelTyping.Descriptor
