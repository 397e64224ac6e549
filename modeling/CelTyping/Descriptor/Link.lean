import CelTyping.Descriptor.DefaultText
import CelTyping.Descriptor.Pool

/-! Adding files to a pool. A set of files is taken whole or not at all: the
declarations have to be sound by themselves, full names unique in the pool, and
every reference has to mean something that its file sees. -/
namespace CelTyping.Descriptor

section Soundness

def isFieldNumber (n : Int) : Bool := 1 ≤ n && n ≤ 536870911 && !(19000 ≤ n && n ≤ 19999)

def camelCase : (capital : Bool) → List Char → List Char
  | _, [] => []
  | capital, c :: cs =>
    if c = '_' then camelCase true cs
    else (if capital then c.toUpper else c) :: camelCase false cs

namespace FieldSpec

/-- The name in JSON. If none is given, each underscore goes and the letter after
it becomes a capital. -/
def jsonText (f : FieldSpec) : String :=
  f.jsonName.getD (String.ofList (camelCase false f.name.toList))

def foldedName (f : FieldSpec) : String :=
  String.ofList ((f.name.toList.filter (· != '_')).map Char.toLower)

def isSound (f : FieldSpec) : Bool := isFieldNumber f.number && f.options.isReadable .field

end FieldSpec

namespace MessageSpec

def admits (m : MessageSpec) (f : FieldSpec) : Bool :=
  f.isSound && f.extendee.isNone && f.oneof.all (fun i => (at? m.oneofs i).isSome) &&
    m.reserved.all (fun r => !r.contains f.number) &&
    m.extensionRanges.all fun r => !r.range.contains f.number

/-- The names of fields differ also when they are written in JSON and, in the
later edition, when underscores and capitals do not count. -/
def isSound (m : MessageSpec) (edition : Edition) : Bool :=
  m.options.isReadable .message && m.fields.all m.admits &&
    m.oneofs.all (fun o => o.options.isReadable .oneof) &&
    m.extensionRanges.all (fun r => r.options.isReadable .extensionRange) &&
    decide (m.fields.map (·.number)).Nodup && decide (m.fields.map (·.jsonText)).Nodup &&
    (edition = .proto2 || decide (m.fields.map (·.foldedName)).Nodup)

end MessageSpec

namespace EnumSpec

/-- An enum has values, the first of them zero in the later edition, and two of
one number only if it says so. -/
def isSound (e : EnumSpec) (edition : Edition) : Bool :=
  e.options.isReadable .enum &&
    e.values.all (fun v => v.options.isReadable .enumValue &&
      e.reserved.all fun r => !r.contains v.number.toInt) &&
    (e.values.head?).any (fun v => edition = .proto2 || v.number = 0) &&
    (e.options.hasFlag .enum "allow_alias" || decide (e.values.map (·.number)).Nodup)

def numbers (e : EnumSpec) : List (String × Int32) :=
  e.values.map fun v => (v.name, v.number)

end EnumSpec

def FileSpec.isSound (file : FileSpec) : Bool :=
  match file.edition with
  | none => false
  | some edition =>
    file.options.isReadable .file &&
      (file.publicDependencies ++ file.weakDependencies).all
        (fun i => (at? file.dependencies i).isSome) &&
      file.allMessages.all (fun (_, m) => m.isSound edition) &&
      file.allEnums.all (fun (_, e) => e.isSound edition) &&
      file.allExtensions.all (fun (_, f) => f.isSound) &&
      file.services.all fun s => s.options.isReadable .service &&
        s.methods.all fun m => m.options.isReadable .method

end Soundness

def FieldKind.scalar? : FieldKind → Option (Reflection.Kind String String)
  | .double => some .double
  | .float => some .float
  | .int32 => some .int32
  | .int64 => some .int64
  | .uint32 => some .uint32
  | .uint64 => some .uint64
  | .sint32 => some .sint32
  | .sint64 => some .sint64
  | .fixed32 => some .fixed32
  | .fixed64 => some .fixed64
  | .sfixed32 => some .sfixed32
  | .sfixed64 => some .sfixed64
  | .bool => some .bool
  | .string => some .string
  | .bytes => some .bytes
  | .message | .group | .enum => none

/-- The kind of a field's values. A named type decides it, whatever else is said. -/
def FieldSpec.kind? (f : FieldSpec) (view : View) (scope : String) :
    Option (Reflection.Kind String String) :=
  match f.typeName with
  | none => f.kind.scalar?
  | some name =>
    match view.find? [.message, .enum] (qualify scope f.name) name with
    | some (full, .message) => some (.message full)
    | some (full, .enum) => some (.enum full)
    | _ => none

namespace Pool

def declareFile? (pool : Pool) (file : FileSpec) : Option Pool := do
  if pool.files.contains file.name || !file.isSound then none
  else
    let names ← file.names.foldlM
      (fun names (name, definition) => Names.declare? names name ⟨definition, file.name⟩)
      pool.names
    return { pool with
      names
      files := pool.files.insert file.name file.passedOn
      enums := file.allEnums.foldl
        (fun enums (scope, e) => enums.insert (qualify scope e.name) e.numbers) pool.enums
      extensionRanges := file.allMessages.foldl
        (fun ranges (name, m) => ranges.insert name (m.extensionRanges.map (·.range)))
        pool.extensionRanges }

/-- Adds the files that a file passes on to those seen so far. What such a file
passes on in turn is added when it is met again, not when it is met first. The
fuel bounds the length of a path from file to file. -/
def seePassedOn (pool : Pool) : (fuel : Nat) → (name : String) → (seen : List String) → List String
  | 0, _, seen => seen
  | fuel + 1, name, seen =>
    ((pool.files.get? name).getD []).foldl
      (fun seen next =>
        if seen.contains next then pool.seePassedOn fuel next seen else next :: seen)
      seen

def seeDependency (pool : Pool) (seen : List String) (name : String) : List String :=
  pool.seePassedOn pool.files.size name (if seen.contains name then seen else name :: seen)

/-- A file sees itself, the files that it depends on and what they pass on. -/
def viewOf (pool : Pool) (file : FileSpec) : View where
  names := pool.names
  files := file.name :: file.dependencies.foldl pool.seeDependency []

def admitsDefault (pool : Pool) (f : FieldSpec) (kind : Reflection.Kind String String)
    (text : String) : Bool :=
  match kind with
  | .message _ => false
  | .enum name => ((pool.enums.get? name).getD []).any (·.1 == text)
  | _ => f.kind.admitsDefault text

def field? (pool : Pool) (view : View) (scope : String) (f : FieldSpec) : Option Field := do
  let kind ← f.kind? view scope
  if f.defaultText.all (pool.admitsDefault f kind) then
    return ⟨f.name, kind, f.repeated⟩
  else none

def isExtension (pool : Pool) (view : View) (scope : String) (f : FieldSpec) : Bool :=
  (pool.field? view scope f).isSome &&
    match view.message? (qualify scope f.name) (f.extendee.getD "") with
    | none => false
    | some message => ((pool.extensionRanges.get? message).getD []).any (·.contains f.number)

def isMethod (view : View) (scope : String) (m : MethodSpec) : Bool :=
  let isMessage (name : String) := (view.message? (qualify scope m.name) name).isSome
  isMessage m.input && isMessage m.output

def linkMessage? (view : View) (pool : Pool) (name : String) (m : MessageSpec) : Option Pool := do
  let fields ← m.fields.mapM (pool.field? view name)
  return { pool with
    messages := pool.messages.insert name ⟨fields, m.options.hasFlag .message "map_entry"⟩ }

def linkFile? (pool : Pool) (file : FileSpec) : Option Pool :=
  let view := pool.viewOf file
  if file.dependencies.all pool.files.contains &&
      file.allExtensions.all (fun (scope, f) => pool.isExtension view scope f) &&
      file.services.all (fun s =>
        s.methods.all (isMethod view (qualify file.package s.name))) then
    file.allMessages.foldlM (fun pool (name, m) => pool.linkMessage? view name m) pool
  else none

/-- Adds a set of files. A file whose name is in the pool already is left out. -/
def add? (pool : Pool) (files : List FileSpec) : Option Pool := do
  let new := files.filter fun file => !pool.files.contains file.name
  let declared ← new.foldlM declareFile? pool
  new.foldlM linkFile? declared

end Pool

end CelTyping.Descriptor
