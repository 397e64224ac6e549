/-! The shortest decimal that reads back as a given binary number. The number is
`m * 2 ^ q`; every decimal strictly between the midpoints to its neighbours reads
back as it, and the midpoints themselves do when `m` is even. -/
namespace CelTyping.Decimal

/-- A positive number `mantissa * 2 ^ exponent` of a binary format. `narrow` says
that the neighbour below is at half the distance of the one above. -/
structure Binary where
  mantissa : Nat
  exponent : Int
  narrow : Bool

structure Digits where
  coefficient : Nat
  exponent : Int

def pow (base : Nat) (e : Int) : Nat := Nat.pow base e.toNat

/-- Four times the number over a common denominator: the number itself and the
two midpoints are whole multiples of a quarter of its last place. -/
structure Scaled where
  value : Nat
  low : Nat
  high : Nat
  denominator : Nat
  closed : Bool

def Binary.scaled (b : Binary) : Scaled :=
  let unit := pow 2 b.exponent
  let four := 4 * b.mantissa
  { value := four * unit
    low := (four - if b.narrow then 1 else 2) * unit
    high := (four + 2) * unit
    denominator := 4 * pow 2 (-b.exponent)
    closed := b.mantissa % 2 == 0 }

def Scaled.magnitude (s : Scaled) : Int :=
  if s.denominator ≤ s.value then (Nat.toDigits 10 (s.value / s.denominator)).length
  else 1 - (Nat.toDigits 10 (s.denominator / s.value)).length

def Scaled.admits (s : Scaled) (d : Digits) : Bool :=
  let x := d.coefficient * pow 10 d.exponent * s.denominator
  let low := s.low * pow 10 (-d.exponent)
  let high := s.high * pow 10 (-d.exponent)
  if s.closed then low ≤ x && x ≤ high else low < x && x < high

/-- The number's neighbours among the multiples of `10 ^ e`; of two that read back
the nearer, and the upper one when both are as near. -/
def Scaled.onGrid (s : Scaled) (e : Int) : Option Digits :=
  let numerator := s.value * pow 10 (-e)
  let denominator := s.denominator * pow 10 e
  let below := numerator / denominator
  let rest := numerator % denominator
  let down : Digits := ⟨below, e⟩
  let up : Digits := ⟨below + 1, e⟩
  if s.admits up && (denominator ≤ 2 * rest || !s.admits down) then some up
  else if s.admits down then some down
  else none

def Scaled.search (s : Scaled) (magnitude : Int) : Nat → Nat → Digits
  | 0, n => (s.onGrid (magnitude - n)).getD ⟨s.value / s.denominator, 0⟩
  | tries + 1, n =>
    match s.onGrid (magnitude - n) with
    | some d => d
    | none => s.search magnitude tries (n + 1)

/-- The shortest decimal, nearest of those. Seventeen digits always suffice for a
mantissa of 53 bits. -/
def Binary.shortest (b : Binary) : Digits :=
  let s := b.scaled
  s.search s.magnitude 17 1

def Digits.positional (d : Digits) : String :=
  let cs := Nat.toDigits 10 d.coefficient
  if 0 ≤ d.exponent then String.ofList (cs ++ List.replicate d.exponent.toNat '0')
  else
    let places := (-d.exponent).toNat
    let padded := List.replicate (places + 1 - cs.length) '0' ++ cs
    let whole := padded.take (padded.length - places)
    let fraction := ((padded.drop (padded.length - places)).reverse.dropWhile (· == '0')).reverse
    if fraction.isEmpty then String.ofList whole
    else String.ofList (whole ++ '.' :: fraction)

end CelTyping.Decimal
