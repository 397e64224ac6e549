import CelTyping.Descriptor.Options
import CelTyping.Name

/-! Protobuf files as they are declared, before names are resolved. A name that
a declaration lacks is the empty one, which counts like any other, and a number
that it lacks is zero. -/
namespace CelTyping.Descriptor

inductive FieldKind where
  | double | float | int64 | uint64 | int32 | fixed64 | fixed32 | bool | string | group | message
  | bytes | uint32 | enum | sfixed32 | sfixed64 | sint32 | sint64
deriving DecidableEq

/-- The numbers from `start` up to `stop`, which is the first one after them. -/
structure NumberRange where
  start : Int
  stop : Int

def NumberRange.contains (r : NumberRange) (n : Int) : Bool := r.start ≤ n && n < r.stop

structure FieldSpec where
  name : String
  number : Int
  kind : FieldKind
  repeated : Bool := false
  /-- The name of the message or enum, which decides the kind if it is there. -/
  typeName : Option String := none
  /-- The message that an extension extends. -/
  extendee : Option String := none
  defaultText : Option String := none
  /-- The position of the field's oneof among those of its message. -/
  oneof : Option Int := none
  jsonName : Option String := none
  options : OptionSet := {}

structure OneofSpec where
  name : String
  options : OptionSet := {}

structure EnumValueSpec where
  name : String
  number : Int32
  options : OptionSet := {}

structure EnumSpec where
  name : String
  values : List EnumValueSpec
  reserved : List NumberRange := []
  options : OptionSet := {}

structure ExtensionRange where
  range : NumberRange
  options : OptionSet := {}

structure MessageSpec where
  name : String
  fields : List FieldSpec := []
  oneofs : List OneofSpec := []
  messages : List MessageSpec := []
  enums : List EnumSpec := []
  extensions : List FieldSpec := []
  extensionRanges : List ExtensionRange := []
  reserved : List NumberRange := []
  options : OptionSet := {}

structure MethodSpec where
  name : String
  input : String
  output : String
  options : OptionSet := {}

structure ServiceSpec where
  name : String
  methods : List MethodSpec
  options : OptionSet := {}

inductive Edition where
  | proto2 | proto3
deriving DecidableEq

structure FileSpec where
  name : String
  /-- None if the file names one that is not known. -/
  edition : Option Edition
  package : String := ""
  dependencies : List String := []
  /-- The positions of the dependencies that the file passes on. -/
  publicDependencies : List Int := []
  weakDependencies : List Int := []
  messages : List MessageSpec := []
  enums : List EnumSpec := []
  services : List ServiceSpec := []
  extensions : List FieldSpec := []
  options : OptionSet := {}

def qualify (scope name : String) : String := if scope = "" then name else Name.extend scope name

def at? {α : Type} (xs : List α) (position : Int) : Option α :=
  if position < 0 then none else xs[position.toNat]?

def FileSpec.passedOn (file : FileSpec) : List String :=
  file.publicDependencies.filterMap (at? file.dependencies)

section Flattening

mutual

def MessageSpec.withNested (scope : String) : MessageSpec → List (String × MessageSpec)
  | spec@{ name, messages, .. } =>
    let full := qualify scope name
    (full, spec) :: nested full messages

def nested (scope : String) : List MessageSpec → List (String × MessageSpec)
  | [] => []
  | spec :: specs => spec.withNested scope ++ nested scope specs

end

namespace FileSpec

def allMessages (file : FileSpec) : List (String × MessageSpec) := nested file.package file.messages

def allEnums (file : FileSpec) : List (String × EnumSpec) :=
  file.enums.map (fun e => (file.package, e)) ++
    file.allMessages.flatMap fun (name, m) => m.enums.map fun e => (name, e)

def allExtensions (file : FileSpec) : List (String × FieldSpec) :=
  file.extensions.map (fun f => (file.package, f)) ++
    file.allMessages.flatMap fun (name, m) => m.extensions.map fun f => (name, f)

end FileSpec

end Flattening

end CelTyping.Descriptor
