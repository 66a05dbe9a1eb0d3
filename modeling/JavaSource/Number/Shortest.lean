namespace JavaSource

/-- A decimal number: a whole coefficient times a power of ten. -/
structure Decimal where
  coefficient : Nat
  exponent : Int

/-- A positive number as binary floating point holds it: a whole mantissa times a power
    of two. -/
structure Binary where
  mantissa : Nat
  exponent : Int

namespace Binary

/-- The two factors of the fraction that a unit of the mantissa is of a power of ten. -/
def unit (b : Binary) (place : Int) : Nat × Nat :=
  (Nat.pow 2 b.exponent.toNat * Nat.pow 10 (-place).toNat,
    Nat.pow 2 (-b.exponent).toNat * Nat.pow 10 place.toNat)

/-- A quarter unit of the mantissa is the finest step that the ends of the rounding
    interval need. The lower neighbour is half as far away where the mantissa is the
    least of its binade, so the lower end is a quarter unit below the number and not a
    half. -/
def lowEnd (b : Binary) : Nat :=
  if b.mantissa = Nat.pow 2 52 then 4 * b.mantissa - 1 else 4 * b.mantissa - 2

/-- The upper end of the rounding interval, half a unit above the number, in quarters. -/
def highEnd (b : Binary) : Nat :=
  4 * b.mantissa + 2

/-- Whether a multiple of a power of ten rounds to the number. The ends of the interval
    do so only for an even mantissa, to which ties are rounded. -/
def readsBack (b : Binary) (place : Int) (multiple : Nat) : Bool :=
  let (numerator, denominator) := b.unit place
  let point := 4 * multiple * denominator
  if b.mantissa % 2 = 0 then
    b.lowEnd * numerator ≤ point && point ≤ b.highEnd * numerator
  else
    b.lowEnd * numerator < point && point < b.highEnd * numerator

/-- The multiple of a power of ten that stands for the number: of the two neighbours
    that round to it the nearer one, and the upper one of two that are equally near. -/
def onGrid (b : Binary) (place : Int) : Option Nat :=
  let (numerator, denominator) := b.unit place
  let below := b.mantissa * numerator / denominator
  let excess := b.mantissa * numerator % denominator
  match b.readsBack place below, b.readsBack place (below + 1) with
  | true, true => if 2 * excess < denominator then some below else some (below + 1)
  | true, false => some below
  | false, true => some (below + 1)
  | false, false => none

/-- The decimal on the first grid that has one, where each grid is ten times finer than
    the one before. -/
def shortestFrom (b : Binary) : Nat → Int → Decimal
  | 0, place => ⟨0, place⟩
  | finer + 1, place =>
    match b.onGrid place with
    | some multiple => ⟨multiple, place⟩
    | none => b.shortestFrom finer (place - 1)

/-- The decimal with the fewest digits that rounds to the number. The coarsest grid lies
    above the largest double, and the finest below half the smallest one. -/
def shortest (b : Binary) : Decimal :=
  b.shortestFrom 640 309

end Binary

end JavaSource
