import TinyLisp.Number.Shortest

/-!
# Numbers as text

A number is written as its shortest decimal.  A `Layout` decides the rest: where the
exponent form starts and whether a whole number keeps a point.

* `Layout.plain` never uses an exponent and writes a whole number without a point.
* `Layout.detailed` uses an exponent from `10 ^ 16` on and below `10 ^ -4`, and writes
  a whole number with `.0`.

Negative zero keeps its sign, and `NaN`, `inf` and `-inf` stand for what is no finite
number.
-/

namespace TinyLisp.Number

/-- How numbers are laid out. -/
structure Layout where
  /-- Whether a number is written without an exponent, given the power of ten of its
  first digit. -/
  positional : Int → Bool
  /-- Whether a whole number written without an exponent ends in `.0`. -/
  keepsPoint : Bool

/-- Never an exponent, and no point in a whole number. -/
def Layout.plain : Layout where
  positional := fun _ => true
  keepsPoint := false

/-- An exponent for large and small numbers, and a point in every other number. -/
def Layout.detailed : Layout where
  positional := fun power => -4 ≤ power ∧ power < 16
  keepsPoint := true

/-- `count` zeros. -/
def zeros (count : Nat) : List Char :=
  List.replicate count '0'

/-- The digits of `d` with a point in place. -/
def Decimal.positional (keepsPoint : Bool) (d : Decimal) : List Char :=
  let digits := Nat.toDigits 10 d.digits
  if 0 ≤ d.exponent then
    digits ++ zeros d.exponent.toNat ++ (if keepsPoint then ['.', '0'] else [])
  else
    let places := (-d.exponent).toNat
    if places < digits.length then
      let whole := digits.length - places
      digits.take whole ++ '.' :: digits.drop whole
    else '0' :: '.' :: (zeros (places - digits.length) ++ digits)

/-- The power of ten of the first digit of `d`. -/
def Decimal.leadingPower (d : Decimal) : Int :=
  d.exponent + Int.ofNat (countDigits d.digits) - 1

/-- The first digit of `d`, a point and the others, and the power of ten after `e`. -/
def Decimal.scientific (d : Decimal) : List Char :=
  let mantissa :=
    match Nat.toDigits 10 d.digits with
    | first :: next :: rest => first :: '.' :: next :: rest
    | digits => digits
  mantissa ++ 'e' :: (toString d.leadingPower).toList

/-- A decimal that is not negative, as text. -/
def Decimal.render (layout : Layout) (d : Decimal) : List Char :=
  if d.digits = 0 || layout.positional d.leadingPower then d.positional layout.keepsPoint
  else d.scientific

/-- A number as text. -/
def render (layout : Layout) (x : Float) : String :=
  match Binary.ofFloat x with
  | .undefined => "NaN"
  | .infinite negative => if negative then "-inf" else "inf"
  | .finite negative mantissa exponent =>
    let digits := (shortest mantissa exponent).render layout
    String.ofList (if negative then '-' :: digits else digits)

end TinyLisp.Number
