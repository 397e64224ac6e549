/-! The protobuf wire format: a message is a sequence of fields, each a key with
the field's number and the shape of what follows. -/
namespace CelTyping.Descriptor.Wire

abbrev Bytes := List UInt8

inductive Payload where
  | varint (n : Nat)
  | fixed64
  | fixed32
  | bytes (b : Bytes)
  /-- Fields between two group marks. All that counts of them is how many levels
  they take. -/
  | group (levels : Nat)

def Payload.levels : Payload → Nat
  | .group levels => levels
  | _ => 1

structure Field where
  number : Nat
  payload : Payload

/-- Reads a number of at most ten bytes, seven bits each, the lowest first. It has
to fit into 64 bits. -/
def varint? : (left shift : Nat) → Bytes → Option (Nat × Bytes)
  | 0, _, _ => none
  | _, _, [] => none
  | left + 1, shift, b :: rest =>
    if left = 0 && 1 < b then none
    else
      let low := (b &&& 0x7F).toNat <<< shift
      if b < 0x80 then some (low, rest)
      else (varint? left (shift + 7) rest).map fun (high, rest) => (low + high, rest)

def number? (bytes : Bytes) : Option (Nat × Bytes) := varint? 10 0 bytes

def take? (n : Nat) (bytes : Bytes) : Option (Bytes × Bytes) :=
  if n ≤ bytes.length then some (bytes.splitAt n) else none

def key? (bytes : Bytes) : Option ((Nat × Nat) × Bytes) := do
  let (key, rest) ← number? bytes
  if key < Nat.pow 2 32 && 8 ≤ key then return ((key / 8, key % 8), rest) else none

/-- What a key of that shape is followed by. A group is read to the mark of the
same number that ends it. -/
def payload? : (fuel : Nat) → (number shape : Nat) → Bytes → Option (Payload × Bytes)
  | _, _, 0, bytes => (number? bytes).map fun (n, rest) => (.varint n, rest)
  | _, _, 1, bytes => (take? 8 bytes).map fun (_, rest) => (.fixed64, rest)
  | _, _, 2, bytes => do
    let (n, rest) ← number? bytes
    let (b, rest) ← take? n rest
    return (.bytes b, rest)
  | fuel + 1, number, 3, bytes => do
    let ((inner, shape), rest) ← key? bytes
    if shape = 4 then
      if inner = number then return (.group 1, rest) else none
    else
      let (first, rest) ← payload? fuel inner shape rest
      let (others, rest) ← payload? fuel number 3 rest
      return (.group (max (first.levels + 1) others.levels), rest)
  | _, _, 5, bytes => (take? 4 bytes).map fun (_, rest) => (.fixed32, rest)
  | _, _, _, _ => none

/-- The fields of a message. Each takes at least one byte, so `fuel` is the length. -/
def fields? : (fuel : Nat) → Bytes → Option (List Field)
  | _, [] => some []
  | 0, _ => none
  | fuel + 1, bytes => do
    let ((number, shape), rest) ← key? bytes
    let (payload, rest) ← payload? bytes.length number shape rest
    return ⟨number, payload⟩ :: (← fields? fuel rest)

def message? (bytes : Bytes) : Option (List Field) := fields? bytes.length bytes

def numbers? : (fuel : Nat) → Bytes → Option (List Nat)
  | _, [] => some []
  | 0, _ => none
  | fuel + 1, bytes => do
    let (n, rest) ← number? bytes
    return n :: (← numbers? fuel rest)

end CelTyping.Descriptor.Wire
