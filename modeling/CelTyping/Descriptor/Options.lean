/-! Options of protobuf declarations. An option has a value of its kind, or is
still written out by name; the second is read by the options known where it
stands. -/
namespace CelTyping.Descriptor

inductive OptionSite where
  | file | message | field | oneof | enum | enumValue | service | method | extensionRange

inductive OptionKind where
  | flag
  | text
  | choice (names : List String)

structure OptionDecl where
  /-- The number of the option's field in an encoding. -/
  number : Nat
  name : String
  kind : OptionKind

def OptionSite.known : OptionSite → List OptionDecl
  | .file =>
    [⟨1, "java_package", .text⟩, ⟨8, "java_outer_classname", .text⟩,
     ⟨9, "optimize_for", .choice ["SPEED", "CODE_SIZE", "LITE_RUNTIME"]⟩,
     ⟨10, "java_multiple_files", .flag⟩, ⟨11, "go_package", .text⟩,
     ⟨16, "cc_generic_services", .flag⟩, ⟨17, "java_generic_services", .flag⟩,
     ⟨18, "py_generic_services", .flag⟩, ⟨20, "java_generate_equals_and_hash", .flag⟩,
     ⟨23, "deprecated", .flag⟩, ⟨27, "java_string_check_utf8", .flag⟩,
     ⟨31, "cc_enable_arenas", .flag⟩, ⟨36, "objc_class_prefix", .text⟩,
     ⟨37, "csharp_namespace", .text⟩, ⟨39, "swift_prefix", .text⟩,
     ⟨40, "php_class_prefix", .text⟩, ⟨41, "php_namespace", .text⟩,
     ⟨42, "php_generic_services", .flag⟩, ⟨44, "php_metadata_namespace", .text⟩,
     ⟨45, "ruby_package", .text⟩]
  | .message =>
    [⟨1, "message_set_wire_format", .flag⟩, ⟨2, "no_standard_descriptor_accessor", .flag⟩,
     ⟨3, "deprecated", .flag⟩, ⟨7, "map_entry", .flag⟩]
  | .field =>
    [⟨1, "ctype", .choice ["STRING", "CORD", "STRING_PIECE"]⟩, ⟨2, "packed", .flag⟩,
     ⟨3, "deprecated", .flag⟩, ⟨5, "lazy", .flag⟩,
     ⟨6, "jstype", .choice ["JS_NORMAL", "JS_STRING", "JS_NUMBER"]⟩, ⟨10, "weak", .flag⟩]
  | .enum => [⟨2, "allow_alias", .flag⟩, ⟨3, "deprecated", .flag⟩]
  | .enumValue => [⟨1, "deprecated", .flag⟩]
  | .service => [⟨33, "deprecated", .flag⟩]
  | .method =>
    [⟨33, "deprecated", .flag⟩,
     ⟨34, "idempotency_level",
      .choice ["IDEMPOTENCY_UNKNOWN", "NO_SIDE_EFFECTS", "IDEMPOTENT"]⟩]
  | .oneof | .extensionRange => []

inductive OptionValue where
  | flag (on : Bool)
  | other
deriving DecidableEq

/-- One part of a written name. In parentheses it is the name of an extension. -/
structure NamePart where
  name : String
  isExtension : Bool := false

structure WrittenOption where
  name : List NamePart
  identifier : Option String := none
  text : Option (List UInt8) := none

structure OptionSet where
  given : List (String × OptionValue) := []
  written : List WrittenOption := []

def OptionKind.read? : OptionKind → WrittenOption → Option OptionValue
  | .flag, o =>
    match o.identifier with
    | some "true" => some (.flag true)
    | some "false" => some (.flag false)
    | _ => none
  | .text, o => o.text.bind fun b => (String.fromUTF8? ⟨b.toArray⟩).map fun _ => .other
  | .choice names, o =>
    o.identifier.bind fun name => if names.contains name then some .other else none

namespace OptionSet

/-- Reads a written option. It has to be known and without a value so far; a name
without parts stands for nothing. -/
def read? (site : OptionSite) (given : List (String × OptionValue)) (o : WrittenOption) :
    Option (List (String × OptionValue)) :=
  match o.name with
  | [] => some given
  | [⟨name, false⟩] => do
    let decl ← site.known.find? (·.name == name)
    if (given.lookup name).isSome then none
    else return (name, ← decl.kind.read? o) :: given
  | _ => none

def values? (options : OptionSet) (site : OptionSite) : Option (List (String × OptionValue)) :=
  options.written.foldlM (read? site) options.given

def isReadable (options : OptionSet) (site : OptionSite) : Bool := (options.values? site).isSome

def hasFlag (options : OptionSet) (site : OptionSite) (name : String) : Bool :=
  ((options.values? site).getD []).lookup name == some (.flag true)

end OptionSet

end CelTyping.Descriptor
