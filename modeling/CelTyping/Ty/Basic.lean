/-! The types of the Common Expression Language as its checker sees them, and
the diagnostics that the error type carries. Types and diagnostics refer to each
other: a failed check is itself a type, so that it can stand in for the type
that could not be found. -/
namespace CelTyping

abbrev NodeId := Int

inductive Scalar where
  | bool | int | uint | double | string | bytes | null | dyn
deriving DecidableEq

def Scalar.isPrimitive (s : Scalar) : Bool := s != .null && s != .dyn

mutual

inductive Ty where
  | scalar (s : Scalar)
  | list (element : Ty)
  | map (key value : Ty)
  /-- A message type by its full name. -/
  | message (name : String)
  /-- A primitive that may also be null. -/
  | wrapper (inner : Ty)
  /-- The type of a type used as a value. -/
  | type (inner : Ty)
  /-- A type of the application, compared by name and parameters. -/
  | abstract (name : String) (params : List Ty)
  | optional (inner : Ty)
  | function (result : Ty) (params : List Ty)
  | param (name : String)
  | error (reason : Diagnostic)

structure Diagnostic where
  node : Int
  cause : Cause

inductive Cause where
  | undeclaredReference (container name : String)
  | undefinedField (field : String)
  | unresolvedType (name : String)
  | notAType (type : Ty)
  | notAMessageType (type : Ty)
  | noMatchingOverload (function : String) (args : List Ty)
  | typeMismatch (expected actual : Ty)
  | fieldSelectionUnsupported (type : Ty)
  | invalidComprehensionRange (type : Ty)
  | incompatibleType (existing new : Ty)
  | conflictingReference (existing new : String)
  | recursionLimit (depth : Nat)
  /-- The tree itself is malformed. -/
  | internal (message : String)

end

namespace Ty

@[match_pattern] abbrev bool : Ty := .scalar .bool
@[match_pattern] abbrev int : Ty := .scalar .int
@[match_pattern] abbrev uint : Ty := .scalar .uint
@[match_pattern] abbrev double : Ty := .scalar .double
@[match_pattern] abbrev string : Ty := .scalar .string
@[match_pattern] abbrev bytes : Ty := .scalar .bytes
@[match_pattern] abbrev null : Ty := .scalar .null
@[match_pattern] abbrev dyn : Ty := .scalar .dyn

instance : Inhabited Ty := ⟨.dyn⟩

abbrev timestamp : Ty := .message "google.protobuf.Timestamp"
abbrev duration : Ty := .message "google.protobuf.Duration"

/-- The coarse shape of a type. All scalars share one. -/
inductive Kind where
  | scalar | list | map | message | wrapper | type | abstract | optional | function | param | error
deriving DecidableEq

def kind : Ty → Kind
  | .scalar _ => .scalar
  | .list _ => .list
  | .map _ _ => .map
  | .message _ => .message
  | .wrapper _ => .wrapper
  | .type _ => .type
  | .abstract _ _ => .abstract
  | .optional _ => .optional
  | .function _ _ => .function
  | .param _ => .param
  | .error _ => .error

def isPrimitive : Ty → Bool
  | .scalar s => s.isPrimitive
  | _ => false

def isDyn : Ty → Bool
  | .dyn => true
  | _ => false

def isError : Ty → Bool
  | .error _ => true
  | _ => false

def isDynOrError (t : Ty) : Bool := t.isDyn || t.isError

def isOptional : Ty → Bool
  | .optional _ => true
  | _ => false

def unwrapOptional : Ty → Ty
  | .optional inner => inner
  | t => t

def messageName? : Ty → Option String
  | .message name => some name
  | _ => none

end Ty

end CelTyping
