import JavaSource.Number.Shortest

namespace JavaSource.Decimal

/-- The exponent of the leading digit. -/
def magnitude (d : Decimal) : Int :=
  d.exponent + (Nat.toDigits 10 d.coefficient).length - 1

/-- The digits around a decimal point, with at least one digit on either side. -/
def positional (d : Decimal) : List Char :=
  let digits := Nat.toDigits 10 d.coefficient
  if 0 ≤ d.exponent then
    digits ++ List.replicate d.exponent.toNat '0' ++ ['.', '0']
  else if 0 ≤ d.magnitude then
    digits.take (d.magnitude + 1).toNat ++ '.' :: digits.drop (d.magnitude + 1).toNat
  else
    ['0', '.'] ++ List.replicate (-d.magnitude - 1).toNat '0' ++ digits

/-- One digit before the decimal point and the power of ten after the rest. A single
    digit has no point. -/
def scientific (d : Decimal) : List Char :=
  let power := 'e' :: (toString d.magnitude).toList
  match Nat.toDigits 10 d.coefficient with
  | [] => power
  | [digit] => digit :: power
  | digit :: rest => digit :: '.' :: rest ++ power

/-- Numbers from a ten-thousandth up to ten to the sixteenth are written positionally,
    all others with a power of ten. -/
def text (d : Decimal) : List Char :=
  if -4 ≤ d.magnitude ∧ d.magnitude < 16 then d.positional else d.scientific

end JavaSource.Decimal

namespace JavaSource

/-- A double-precision number, given by its sixty-four bits. -/
structure Double where
  bits : UInt64

namespace Double

def isNegative (d : Double) : Bool :=
  Nat.pow 2 63 ≤ d.bits.toNat

/-- The eleven bits of the exponent. -/
def exponentField (d : Double) : Nat :=
  d.bits.toNat / Nat.pow 2 52 % Nat.pow 2 11

/-- The fifty-two bits of the fraction. -/
def fraction (d : Double) : Nat :=
  d.bits.toNat % Nat.pow 2 52

def isNaN (d : Double) : Bool :=
  d.exponentField == 2047 && d.fraction != 0

def isInfinite (d : Double) : Bool :=
  d.exponentField == 2047 && d.fraction == 0

def isZero (d : Double) : Bool :=
  d.exponentField == 0 && d.fraction == 0

/-- Equality of numbers: the two zeros are one number, and so are all that are not
    numbers. -/
def sameNumber (a b : Double) : Bool :=
  (a.isNaN && b.isNaN) || (a.isZero && b.isZero) || (!a.isNaN && !b.isNaN && a.bits == b.bits)

instance : BEq Double := ⟨sameNumber⟩

/-- The size of a finite number that is not zero. Subnormal numbers lack the leading bit
    and share the exponent of the least normal ones. -/
def toBinary (d : Double) : Binary :=
  if d.exponentField = 0 then ⟨d.fraction, -1074⟩
  else ⟨Nat.pow 2 52 + d.fraction, d.exponentField - 1075⟩

/-- The number as source text: the fewest digits that read back as the number, or the
    constant for a value that has no digits. The sign of zero is kept. -/
def literal (d : Double) : String :=
  if d.isNaN then "Double.NaN"
  else if d.isInfinite then
    if d.isNegative then "Double.NEGATIVE_INFINITY" else "Double.POSITIVE_INFINITY"
  else
    let magnitude := if d.isZero then ['0', '.', '0'] else d.toBinary.shortest.text
    String.ofList (if d.isNegative then '-' :: magnitude else magnitude)

end Double

end JavaSource
