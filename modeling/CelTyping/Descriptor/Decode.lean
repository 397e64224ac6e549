import CelTyping.Descriptor.Layout
import CelTyping.Descriptor.Link

/-! Reading a set of file descriptors from its protobuf encoding. The encoding is
first held against the layout of descriptors, all parts included, and then read
for what a pool needs. -/
namespace CelTyping.Descriptor

open Wire (Bytes)

section Fields

def parts (b : Bytes) : List Wire.Field := (Wire.message? b).getD []

def allBytes (fields : List Wire.Field) (number : Nat) : List Bytes :=
  fields.filterMap fun f =>
    match f.payload with
    | .bytes b => if f.number = number then some b else none
    | _ => none

def allParts (fields : List Wire.Field) (number : Nat) : List (List Wire.Field) :=
  (allBytes fields number).map parts

/-- The fields of a part that is there once. If it is encoded in pieces, they add up. -/
def onePart (fields : List Wire.Field) (number : Nat) : List Wire.Field :=
  (allParts fields number).flatten

def allTexts (fields : List Wire.Field) (number : Nat) : List String :=
  (allBytes fields number).filterMap text?

def lastText? (fields : List Wire.Field) (number : Nat) : Option String :=
  (allTexts fields number).getLast?

def textOf (fields : List Wire.Field) (number : Nat) : String := (lastText? fields number).getD ""

/-- Numbers can be packed together or stand one by one. -/
def allNumbers (fields : List Wire.Field) (number : Nat) : List Nat :=
  fields.flatMap fun f =>
    if f.number = number then
      match f.payload with
      | .varint n => [n]
      | .bytes b => (Wire.numbers? b.length b).getD []
      | _ => []
    else []

def lastNumber? (fields : List Wire.Field) (number : Nat) : Option Nat :=
  (allNumbers fields number).getLast?

def signed (n : Nat) : Int32 := Int32.ofNat n

def lastSigned? (fields : List Wire.Field) (number : Nat) : Option Int32 :=
  (lastNumber? fields number).map signed

def lastInt? (fields : List Wire.Field) (number : Nat) : Option Int :=
  (lastSigned? fields number).map Int32.toInt

def intOf (fields : List Wire.Field) (number : Nat) : Int := (lastInt? fields number).getD 0

def lastFlag (fields : List Wire.Field) (number : Nat) : Bool :=
  (lastNumber? fields number).any (· != 0)

end Fields

section Declarations

def NamePart.decode (fields : List Wire.Field) : NamePart where
  name := textOf fields 1
  isExtension := lastFlag fields 2

def WrittenOption.decode (fields : List Wire.Field) : WrittenOption where
  name := (allParts fields 2).map NamePart.decode
  identifier := lastText? fields 3
  text := (allBytes fields 7).getLast?

def OptionDecl.decode? (decl : OptionDecl) (fields : List Wire.Field) :
    Option (String × OptionValue) :=
  match decl.kind with
  | .flag => (lastNumber? fields decl.number).map fun n => (decl.name, .flag (n != 0))
  | .choice _ => (lastNumber? fields decl.number).map fun _ => (decl.name, .other)
  | .text => (lastText? fields decl.number).map fun _ => (decl.name, .other)

def OptionSet.decode (site : OptionSite) (fields : List Wire.Field) : OptionSet where
  given := site.known.filterMap (·.decode? fields)
  written := (allParts fields writtenOptionNumber).map WrittenOption.decode

def FieldKind.ofCode : Int → FieldKind
  | 2 => .float
  | 3 => .int64
  | 4 => .uint64
  | 5 => .int32
  | 6 => .fixed64
  | 7 => .fixed32
  | 8 => .bool
  | 9 => .string
  | 10 => .group
  | 11 => .message
  | 12 => .bytes
  | 13 => .uint32
  | 14 => .enum
  | 15 => .sfixed32
  | 16 => .sfixed64
  | 17 => .sint32
  | 18 => .sint64
  | _ => .double

def FieldSpec.decode (fields : List Wire.Field) : FieldSpec where
  name := textOf fields 1
  number := intOf fields 3
  kind := FieldKind.ofCode ((lastInt? fields 5).getD 1)
  repeated := intOf fields 4 == 3
  typeName := (lastText? fields 6).filter (· != "")
  extendee := lastText? fields 2
  defaultText := lastText? fields 7
  oneof := lastInt? fields 9
  jsonName := lastText? fields 10
  options := .decode .field (onePart fields 8)

def OneofSpec.decode (fields : List Wire.Field) : OneofSpec where
  name := textOf fields 1
  options := .decode .oneof (onePart fields 2)

def NumberRange.decode (fields : List Wire.Field) : NumberRange where
  start := intOf fields 1
  stop := intOf fields 2

def NumberRange.decodeClosed (fields : List Wire.Field) : NumberRange :=
  let range := NumberRange.decode fields
  { range with stop := range.stop + 1 }

def EnumValueSpec.decode (fields : List Wire.Field) : EnumValueSpec where
  name := textOf fields 1
  number := (lastSigned? fields 2).getD 0
  options := .decode .enumValue (onePart fields 3)

def EnumSpec.decode (fields : List Wire.Field) : EnumSpec where
  name := textOf fields 1
  values := (allParts fields 2).map EnumValueSpec.decode
  reserved := (allParts fields 4).map NumberRange.decodeClosed
  options := .decode .enum (onePart fields 3)

def ExtensionRange.decode (fields : List Wire.Field) : ExtensionRange where
  range := .decode fields
  options := .decode .extensionRange (onePart fields 3)

def MessageSpec.decode : (levels : Nat) → List Wire.Field → MessageSpec
  | 0, _ => { name := "" }
  | levels + 1, fields =>
    { name := textOf fields 1
      fields := (allParts fields 2).map FieldSpec.decode
      oneofs := (allParts fields 8).map OneofSpec.decode
      messages := (allParts fields 3).map (MessageSpec.decode levels)
      enums := (allParts fields 4).map EnumSpec.decode
      extensions := (allParts fields 6).map FieldSpec.decode
      extensionRanges := (allParts fields 5).map ExtensionRange.decode
      reserved := (allParts fields 9).map NumberRange.decode
      options := .decode .message (onePart fields 7) }

def MethodSpec.decode (fields : List Wire.Field) : MethodSpec where
  name := textOf fields 1
  input := textOf fields 2
  output := textOf fields 3
  options := .decode .method (onePart fields 4)

def ServiceSpec.decode (fields : List Wire.Field) : ServiceSpec where
  name := textOf fields 1
  methods := (allParts fields 2).map MethodSpec.decode
  options := .decode .service (onePart fields 3)

/-- A file that names no edition is of the first. -/
def Edition.ofText? : Option String → Option Edition
  | none | some "proto2" => some .proto2
  | some "proto3" => some .proto3
  | some _ => none

/-- Parts and groups are nested at most this deep. -/
def maxLevels : Nat := 100

def FileSpec.decode (fields : List Wire.Field) : FileSpec where
  name := textOf fields 1
  edition := Edition.ofText? (lastText? fields 12)
  package := textOf fields 2
  dependencies := allTexts fields 3
  publicDependencies := (allNumbers fields 10).map fun n => (signed n).toInt
  weakDependencies := (allNumbers fields 11).map fun n => (signed n).toInt
  messages := (allParts fields 4).map (MessageSpec.decode maxLevels)
  enums := (allParts fields 5).map EnumSpec.decode
  services := (allParts fields 6).map ServiceSpec.decode
  extensions := (allParts fields 7).map FieldSpec.decode
  options := .decode .file (onePart fields 8)

end Declarations

def decodeFiles? (b : Bytes) : Option (List FileSpec) :=
  if Layout.admits maxLevels .fileSet b then some ((allParts (parts b) 1).map FileSpec.decode)
  else none

inductive LoadError where
  /-- The bytes are no encoding of a set. -/
  | decode
  /-- The files do not go together, or not with the pool. -/
  | descriptor

def Pool.load (pool : Pool) (files : List FileSpec) : Except LoadError Pool :=
  match pool.add? files with
  | some pool => .ok pool
  | none => .error .descriptor

def Pool.loadBytes (pool : Pool) (b : Bytes) : Except LoadError Pool :=
  match decodeFiles? b with
  | some files => pool.load files
  | none => .error .decode

end CelTyping.Descriptor
