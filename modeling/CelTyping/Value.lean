import CelTyping.Decimal.Shortest
import CelTyping.Text
import CelTyping.Ty.Basic

/-! Constants: the values that literals and named constants have before anything
is evaluated. -/
namespace CelTyping

structure Double where
  bits : UInt64
deriving DecidableEq

namespace Double

def isNegative (d : Double) : Bool := d.bits >>> 63 == 1

def exponentField (d : Double) : Nat := ((d.bits >>> 52) &&& 0x7FF).toNat

def fraction (d : Double) : Nat := (d.bits &&& 0xFFFFFFFFFFFFF).toNat

def isZero (d : Double) : Bool := d.exponentField == 0 && d.fraction == 0

def isNaN (d : Double) : Bool := d.exponentField == 0x7FF && d.fraction != 0

def isInfinite (d : Double) : Bool := d.exponentField == 0x7FF && d.fraction == 0

/-- Equality of numbers: both zeros are one number, and no NaN equals anything. -/
def equals (a b : Double) : Bool :=
  !a.isNaN && !b.isNaN && (a == b || (a.isZero && b.isZero))

def magnitude (d : Double) : Decimal.Binary :=
  if d.exponentField == 0 then ⟨d.fraction, -1074, false⟩
  else ⟨d.fraction + Nat.pow 2 52, d.exponentField - 1075, d.fraction == 0 && d.exponentField != 1⟩

/-- The fewest digits that read back, without an exponent, and no fraction on
whole numbers. -/
def text (d : Double) : String :=
  if d.isNaN then "NaN"
  else
    let sign := if d.isNegative then "-" else ""
    if d.isInfinite then sign ++ "inf"
    else if d.isZero then sign ++ "0"
    else sign ++ d.magnitude.shortest.positional

end Double

inductive Value where
  | null
  | bool (b : Bool)
  | int (n : Int64)
  | uint (n : UInt64)
  | double (d : Double)
  | string (s : String)
  | bytes (b : List UInt8)
deriving DecidableEq

namespace Value

def type : Value → Ty
  | .null => .null
  | .bool _ => .bool
  | .int _ => .int
  | .uint _ => .uint
  | .double _ => .double
  | .string _ => .string
  | .bytes _ => .bytes

def equals : Value → Value → Bool
  | .double a, .double b => a.equals b
  | a, b => a == b

def text : Value → String
  | .null => "null"
  | .bool true => "true"
  | .bool false => "false"
  | .int n => Int.repr n.toInt
  | .uint n => Nat.repr n.toNat ++ "u"
  | .double d => d.text
  | .string s => Text.quoted s
  | .bytes b => "b\"" ++ Text.decodeLossy b ++ "\""

end Value

end CelTyping
