import TinyLisp.Number.Binary

/-!
# Whole parts and remainders

The remainder of two numbers is taken between their whole parts, cut off toward zero
and held between `-2 ^ 63` and `2 ^ 63 - 1`.  It has the sign of the dividend.
-/

namespace TinyLisp.Number

/-- The whole part of `mantissa * 2 ^ exponent`. -/
def wholePart (mantissa : Nat) (exponent : Int) : Nat :=
  (mantissa <<< exponent.toNat) >>> (-exponent).toNat

/-- The least whole part, `-2 ^ 63`. -/
def leastWhole : Int := -9223372036854775808

/-- The greatest whole part, `2 ^ 63 - 1`. -/
def greatestWhole : Int := 9223372036854775807

/-- The whole part of a number, held within the bounds, unless it is not a number. -/
def truncate? (x : Float) : Option Int :=
  match Binary.ofFloat x with
  | .undefined => none
  | .infinite negative => some (if negative then leastWhole else greatestWhole)
  | .finite negative mantissa exponent =>
    let whole := Int.ofNat (wholePart mantissa exponent)
    some (if negative then max leastWhole (-whole) else min greatestWhole whole)

/-- `n / 2 ^ shift` rounded to the nearest whole number, a half to the even one. -/
def roundShift (n shift : Nat) : Nat :=
  let unit := 1 <<< shift
  let quotient := n / unit
  let twice := 2 * (n % unit)
  if unit < twice || (twice = unit && quotient % 2 = 1) then quotient + 1 else quotient

/-- The float nearest to a natural number below `2 ^ 1023`.

The bits are the exponent field followed by the fraction.  The leading bit of the
mantissa adds one to the field, and so does a mantissa that rounds up to `2 ^ 53`. -/
def ofNat (n : Nat) : Float :=
  if n = 0 then 0
  else
    let power := n.log2
    let mantissa := if power ≤ 52 then n <<< (52 - power) else roundShift n (power - 52)
    Float.ofBits (UInt64.ofNat ((power + 1022) * hiddenBit + mantissa))

/-- The float nearest to an integer. -/
def ofInt (n : Int) : Float :=
  if n < 0 then -ofNat n.natAbs else ofNat n.natAbs

/-- The remainder of two numbers: `none` when the whole part of the divisor is zero. -/
def remainder? (left right : Float) : Option Float :=
  match truncate? left, truncate? right with
  | some dividend, some divisor =>
    if divisor = 0 then none else some (ofInt (dividend.tmod divisor))
  | _, _ => some (0 / 0)

end TinyLisp.Number
