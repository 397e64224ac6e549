import CelTyping.Table
import CelTyping.Ty.Basic

/-! The message and enum types that expressions can name. -/
namespace CelTyping

structure Message where
  name : String
  fields : Table String Ty := ∅

def Message.field? (m : Message) (name : String) : Option Ty := m.fields.get? name

structure Registry where
  message? : String → Option Message
  enumValue? : (enum value : String) → Option Int32
  fieldType? : (message field : String) → Option Ty :=
    fun message field => (message? message).bind (·.field? field)

/-- The type of values of a message. The well-known messages stand for the types
they wrap; any other stands for itself. -/
def Ty.ofMessage : String → Ty
  | "google.protobuf.BoolValue" => .wrapper .bool
  | "google.protobuf.BytesValue" => .wrapper .bytes
  | "google.protobuf.DoubleValue" => .wrapper .double
  | "google.protobuf.FloatValue" => .wrapper .double
  | "google.protobuf.Int32Value" => .wrapper .int
  | "google.protobuf.Int64Value" => .wrapper .int
  | "google.protobuf.StringValue" => .wrapper .string
  | "google.protobuf.UInt32Value" => .wrapper .uint
  | "google.protobuf.UInt64Value" => .wrapper .uint
  | "google.protobuf.Value" => .dyn
  | "google.protobuf.ListValue" => .list .dyn
  | "google.protobuf.Struct" => .map .string .dyn
  | "google.protobuf.NullValue" => .null
  | name => .message name

end CelTyping
