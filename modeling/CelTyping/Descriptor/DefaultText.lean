import CelTyping.Descriptor.Spec

/-! The text of a field's default value, and which texts each kind of field
admits. -/
namespace CelTyping.Descriptor

def isDigits (cs : List Char) : Bool := !cs.isEmpty && cs.all Char.isDigit

def digitsValue (cs : List Char) : Nat := cs.foldl (fun n c => 10 * n + (c.toNat - '0'.toNat)) 0

def wholeNumber? : List Char → Option Int
  | '-' :: cs => if isDigits cs then some (-(digitsValue cs)) else none
  | '+' :: cs => if isDigits cs then some (digitsValue cs) else none
  | cs => if isDigits cs then some (digitsValue cs) else none

def admitsSigned (bits : Nat) (cs : List Char) : Bool :=
  match wholeNumber? cs with
  | some n =>
    let bound := Int.ofNat (Nat.pow 2 (bits - 1))
    n < bound && -bound ≤ n
  | none => false

def admitsUnsigned (bits : Nat) (cs : List Char) : Bool :=
  cs.head? != some '-' && (wholeNumber? cs).any (· < Int.ofNat (Nat.pow 2 bits))

def withoutSign : List Char → List Char
  | '+' :: cs => cs
  | '-' :: cs => cs
  | cs => cs

def isExponent : List Char → Bool
  | [] => true
  | c :: cs => (c = 'e' || c = 'E') && isDigits (withoutSign cs)

def isDecimal (cs : List Char) : Bool :=
  let whole := cs.takeWhile Char.isDigit
  match cs.dropWhile Char.isDigit with
  | '.' :: rest =>
    let fraction := rest.takeWhile Char.isDigit
    !(whole.isEmpty && fraction.isEmpty) && isExponent (rest.dropWhile Char.isDigit)
  | rest => !whole.isEmpty && isExponent rest

def admitsFloat (cs : List Char) : Bool :=
  let cs := withoutSign cs
  isDecimal cs || ["inf", "infinity", "nan"].contains (String.ofList (cs.map Char.toLower))

def isHexDigit (c : Char) : Bool :=
  c.isDigit || ('a' ≤ c && c ≤ 'f') || ('A' ≤ c && c ≤ 'F')

/-- What may follow a backslash, codes in octal or hexadecimal digits aside. -/
def escapeMarks : List Char := ['a', 'b', 'f', 'n', 'r', 't', 'v', '\\', '?', '\'', '"']

def admitsEscaped : List Char → Bool
  | [] => true
  | '\\' :: 'x' :: a :: b :: cs => isHexDigit a && isHexDigit b && admitsEscaped cs
  | '\\' :: 'X' :: a :: b :: cs => isHexDigit a && isHexDigit b && admitsEscaped cs
  | '\\' :: c :: cs =>
    (escapeMarks.contains c || ('0' ≤ c && c ≤ '7')) && admitsEscaped cs
  | '\\' :: [] => false
  | _ :: cs => admitsEscaped cs

def FieldKind.admitsDefault (kind : FieldKind) (text : String) : Bool :=
  match kind with
  | .int32 | .sint32 | .sfixed32 => admitsSigned 32 text.toList
  | .int64 | .sint64 | .sfixed64 => admitsSigned 64 text.toList
  | .uint32 | .fixed32 => admitsUnsigned 32 text.toList
  | .uint64 | .fixed64 => admitsUnsigned 64 text.toList
  | .float | .double => admitsFloat text.toList
  | .bool => text = "true" || text = "false"
  | .string => true
  | .bytes => admitsEscaped text.toList
  | .group | .message | .enum => false

end CelTyping.Descriptor
