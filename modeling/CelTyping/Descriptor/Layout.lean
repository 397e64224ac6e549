import CelTyping.Descriptor.Options
import CelTyping.Descriptor.Wire

/-! The layout of encoded descriptors: which fields each part of a set of files
has, and what they hold. -/
namespace CelTyping.Descriptor

open Wire (Bytes Payload)

inductive Layout where
  | fileSet | file | message | field | oneof | enum | enumValue | service | method
  | extensionRange | range | options (site : OptionSite) | writtenOption | namePart
  | sourceInfo | location

inductive Content where
  | number
  | numbers
  | text
  | bytes
  | fixed64
  | part (layout : Layout)

def OptionKind.content : OptionKind → Content
  | .flag | .choice _ => .number
  | .text => .text

def writtenOptionNumber : Nat := 999

/-- The content of each field by number; other fields hold anything. -/
def Layout.content? : Layout → Nat → Option Content
  | .fileSet, 1 => some (.part .file)
  | .file, n =>
    match n with
    | 1 | 2 | 3 | 12 => some .text
    | 4 => some (.part .message)
    | 5 => some (.part .enum)
    | 6 => some (.part .service)
    | 7 => some (.part .field)
    | 8 => some (.part (.options .file))
    | 9 => some (.part .sourceInfo)
    | 10 | 11 => some .numbers
    | _ => none
  | .message, n =>
    match n with
    | 1 | 10 => some .text
    | 2 | 6 => some (.part .field)
    | 3 => some (.part .message)
    | 4 => some (.part .enum)
    | 5 => some (.part .extensionRange)
    | 7 => some (.part (.options .message))
    | 8 => some (.part .oneof)
    | 9 => some (.part .range)
    | _ => none
  | .field, n =>
    match n with
    | 1 | 2 | 6 | 7 | 10 => some .text
    | 3 | 4 | 5 | 9 | 17 => some .number
    | 8 => some (.part (.options .field))
    | _ => none
  | .oneof, n =>
    match n with
    | 1 => some .text
    | 2 => some (.part (.options .oneof))
    | _ => none
  | .enum, n =>
    match n with
    | 1 | 5 => some .text
    | 2 => some (.part .enumValue)
    | 3 => some (.part (.options .enum))
    | 4 => some (.part .range)
    | _ => none
  | .enumValue, n =>
    match n with
    | 1 => some .text
    | 2 => some .number
    | 3 => some (.part (.options .enumValue))
    | _ => none
  | .service, n =>
    match n with
    | 1 => some .text
    | 2 => some (.part .method)
    | 3 => some (.part (.options .service))
    | _ => none
  | .method, n =>
    match n with
    | 1 | 2 | 3 => some .text
    | 4 => some (.part (.options .method))
    | 5 | 6 => some .number
    | _ => none
  | .extensionRange, n =>
    match n with
    | 1 | 2 => some .number
    | 3 => some (.part (.options .extensionRange))
    | _ => none
  | .range, n => if n = 1 || n = 2 then some .number else none
  | .options site, n =>
    if n = writtenOptionNumber then some (.part .writtenOption)
    else (site.known.find? (·.number == n)).map (·.kind.content)
  | .writtenOption, n =>
    match n with
    | 2 => some (.part .namePart)
    | 3 | 8 => some .text
    | 4 | 5 => some .number
    | 6 => some .fixed64
    | 7 => some .bytes
    | _ => none
  | .namePart, n =>
    match n with
    | 1 => some .text
    | 2 => some .number
    | _ => none
  | .sourceInfo, 1 => some (.part .location)
  | .location, n =>
    match n with
    | 1 | 2 => some .numbers
    | 3 | 4 | 6 => some .text
    | _ => none
  | _, _ => none

def text? (b : Bytes) : Option String := String.fromUTF8? ⟨b.toArray⟩

/-- What a field holds is of its content. Passing over a field that the layout
does not have takes levels as well. -/
def Layout.admitsField (admitsPart : Layout → Bytes → Bool) (levels : Nat) (layout : Layout)
    (field : Wire.Field) : Bool :=
  match layout.content? field.number, field.payload with
  | none, payload => payload.levels ≤ levels
  | some .number, .varint _ => true
  | some .numbers, .varint _ => true
  | some .numbers, .bytes b => (Wire.numbers? b.length b).isSome
  | some .text, .bytes b => (text? b).isSome
  | some .bytes, .bytes _ => true
  | some .fixed64, .fixed64 => true
  | some (.part part), .bytes b => admitsPart part b
  | _, _ => false

def Layout.admits : (levels : Nat) → Layout → Bytes → Bool
  | 0, layout, bytes =>
    (Wire.message? bytes).any (·.all (layout.admitsField (fun _ _ => false) 0))
  | levels + 1, layout, bytes =>
    (Wire.message? bytes).any (·.all (layout.admitsField (Layout.admits levels) (levels + 1)))

end CelTyping.Descriptor
