import CelTyping.Descriptor.Spec
import CelTyping.Table

/-! The full names that files declare, and what a reference means in a scope. -/
namespace CelTyping.Descriptor

inductive Definition where
  | package
  | message
  | enum
  | service
  /-- A field, an extension, a oneof, an enum value or a method. -/
  | member
deriving DecidableEq

structure Declared where
  definition : Definition
  /-- The file that declares it. A package has no file of its own. -/
  file : String

abbrev Names := Table String Declared

/-- Takes a name that is free. Packages may share theirs. -/
def Names.declare? (names : Names) (name : String) (declared : Declared) : Option Names :=
  match names.get? name with
  | none => some (names.insert name declared)
  | some existing =>
    if declared.definition = .package && existing.definition = .package then some names else none

def scopesAround (scope : String) : List String :=
  if scope = "" then [] else Name.enclosing scope

section Declarations

def EnumSpec.names (spec : EnumSpec) (scope : String) : List (String × Definition) :=
  (qualify scope spec.name, .enum) :: spec.values.map fun v => (qualify scope v.name, .member)

def MessageSpec.names (spec : MessageSpec) (name : String) : List (String × Definition) :=
  (name, .message) ::
    spec.fields.map (fun f => (qualify name f.name, .member)) ++
    spec.oneofs.map (fun o => (qualify name o.name, .member))

def ServiceSpec.names (spec : ServiceSpec) (scope : String) : List (String × Definition) :=
  let name := qualify scope spec.name
  (name, .service) :: spec.methods.map fun m => (qualify name m.name, .member)

def FileSpec.names (file : FileSpec) : List (String × Definition) :=
  (scopesAround file.package).map (fun name => (name, .package)) ++
    file.allMessages.flatMap (fun (name, m) => m.names name) ++
    file.allEnums.flatMap (fun (scope, e) => e.names scope) ++
    file.services.flatMap (·.names file.package) ++
    file.allExtensions.map fun (scope, f) => (qualify scope f.name, .member)

end Declarations

structure View where
  names : Names
  files : List String

namespace View

def get? (view : View) (name : String) : Option Definition :=
  (view.names.get? name).bind fun d =>
    if d.definition = .package || view.files.contains d.file then some d.definition else none

def wanted? (view : View) (wanted : List Definition) (name : String) :
    Option (String × Definition) :=
  (view.get? name).bind fun d => if wanted.contains d then some (name, d) else none

/-- Looks a relative name up in one scope after the other. The first scope where
its first part holds names decides about the parts that follow. -/
def search (view : View) (wanted : List Definition) (first : String) (rest : List String) :
    List String → Option (String × Definition)
  | [] => none
  | scope :: outer =>
    let start := qualify scope first
    if rest = [] then
      match view.wanted? wanted start with
      | some found => some found
      | none => view.search wanted first rest outer
    else
      match view.get? start with
      | none | some .member => view.search wanted first rest outer
      | some _ => view.wanted? wanted (".".intercalate (start :: rest))

/-- What a reference from within a scope means. A leading dot marks a full name. -/
def find? (view : View) (wanted : List Definition) (scope name : String) :
    Option (String × Definition) :=
  match Name.rooted? name with
  | some full => view.wanted? wanted full
  | none =>
    let segments := Name.segments name
    view.search wanted (segments.headD "") segments.tail (scopesAround scope ++ [""])

def message? (view : View) (scope name : String) : Option String :=
  (view.find? [.message] scope name).map (·.1)

end View

end CelTyping.Descriptor
