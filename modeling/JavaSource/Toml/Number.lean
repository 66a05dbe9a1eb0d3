import JavaSource.Text.Pieces
import JavaSource.Toml.Quoted

namespace JavaSource.Toml

/-- A whole number in some base. Single underscores may stand between digits. -/
def naturalIn (base : Nat) (text : List Char) : Option Nat := do
  let groups := Text.pieces '_' text
  if groups.any List.isEmpty then none
  let digits ← groups.flatten.mapM digitValue
  if digits.any (base ≤ ·) then none
  return digits.foldl (fun value digit => base * value + digit) 0

/-- A whole number in base ten, which has no zeros in front. -/
def decimalNatural : List Char → Option Nat
  | '0' :: _ :: _ => none
  | text => naturalIn 10 text

/-- An integer. Only one in base ten has a sign. -/
def integer : List Char → Option Int
  | '0' :: 'x' :: digits => (naturalIn 16 digits).map Int.ofNat
  | '0' :: 'o' :: digits => (naturalIn 8 digits).map Int.ofNat
  | '0' :: 'b' :: digits => (naturalIn 2 digits).map Int.ofNat
  | '+' :: digits => (decimalNatural digits).map Int.ofNat
  | '-' :: digits => (decimalNatural digits).map fun value => -(value : Int)
  | digits => (decimalNatural digits).map Int.ofNat

end JavaSource.Toml
