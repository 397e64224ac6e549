import CelTyping.Ty.Basic

/-! The written form of types and the wording of diagnostics. -/
namespace CelTyping

def Scalar.text : Scalar → String
  | .bool => "bool"
  | .int => "int"
  | .uint => "uint"
  | .double => "double"
  | .string => "string"
  | .bytes => "bytes"
  | .null => "null_type"
  | .dyn => "dyn"

mutual

/-- Parameters are written after the name they belong to. Every error type is
written alike, whatever its reason. -/
def Ty.text : Ty → String
  | .scalar s => s.text
  | .list t => "list(" ++ t.text ++ ")"
  | .map k v => "map(" ++ k.text ++ ", " ++ v.text ++ ")"
  | .message name => name
  | .wrapper t => "wrapper(" ++ t.text ++ ")"
  | .type t => "type(" ++ t.text ++ ")"
  | .abstract name [] => name
  | .abstract name (p :: ps) => name ++ "(" ++ ", ".intercalate (p.text :: Ty.texts ps) ++ ")"
  | .optional t => "optional_type(" ++ t.text ++ ")"
  | .function result params =>
    "function(" ++ ", ".intercalate (result.text :: Ty.texts params) ++ ")"
  | .param name => name
  | .error _ => "*error*"

def Ty.texts : List Ty → List String
  | [] => []
  | t :: ts => t.text :: Ty.texts ts

end

def Ty.joinText (ts : List Ty) : String := ", ".intercalate (Ty.texts ts)

def Cause.message : Cause → String
  | .undeclaredReference container name =>
    "undeclared reference to '" ++ name ++ "' (in container '" ++ container ++ "')"
  | .undefinedField field => "undefined field '" ++ field ++ "'"
  | .unresolvedType name => "unexpected failed resolution of '" ++ name ++ "'"
  | .notAType t => "'" ++ t.text ++ "' is not a type"
  | .notAMessageType t => "'" ++ t.text ++ "' is not a message type"
  | .noMatchingOverload function args =>
    "found no matching overload for '" ++ function ++ "' applied to '(" ++ Ty.joinText args ++ ")'"
  | .typeMismatch expected actual =>
    "expected type '" ++ expected.text ++ "' but got '" ++ actual.text ++ "'"
  | .fieldSelectionUnsupported t => "type '" ++ t.text ++ "' does not support field selection"
  | .invalidComprehensionRange t =>
    "expression of type '" ++ t.text ++
      "' cannot be range of a comprehension (must be list, map, or dynamic)"
  | .incompatibleType existing new =>
    "incompatible type already exists for expression: existing '" ++ existing.text ++
      "', new '" ++ new.text ++ "'"
  | .conflictingReference existing new =>
    "reference already exists for expression: existing '" ++ existing ++ "', new '" ++ new ++ "'"
  | .recursionLimit depth =>
    "expression nesting exceeds maximum depth of " ++ Nat.repr depth
  | .internal message => "internal error: " ++ message

def Diagnostic.message (d : Diagnostic) : String := d.cause.message

def Diagnostic.isFatal (d : Diagnostic) : Bool :=
  match d.cause with
  | .internal _ => true
  | _ => false

end CelTyping
