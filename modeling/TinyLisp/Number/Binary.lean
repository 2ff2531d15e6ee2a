/-!
# The exact value of a number

A number of the language is a binary64 float.  `Binary.ofFloat` reads off its bits
what it is: not a number, an infinity, or a whole mantissa times a power of two.
All that the library says about the digits, the whole part or the remainder of a
number is computed from this exact form.
-/

namespace TinyLisp.Number

/-- What a float stands for. -/
inductive Binary where
  /-- Not a number. -/
  | undefined
  /-- An infinity. -/
  | infinite (negative : Bool)
  /-- `mantissa * 2 ^ exponent`, with a minus in front if `negative`. -/
  | finite (negative : Bool) (mantissa : Nat) (exponent : Int)
  deriving DecidableEq, Repr

/-- The mantissa of a normal float has its leading bit here. -/
def hiddenBit : Nat := 1 <<< 52

/-- The least exponent of a finite float. -/
def leastExponent : Int := -1074

/-- Reads the sign, the exponent field and the fraction field of a float. -/
def Binary.ofFloat (x : Float) : Binary :=
  let bits := x.toBits.toNat
  let negative := (bits >>> 63) % 2 = 1
  let field := (bits >>> 52) % 2048
  let fraction := bits % hiddenBit
  if field = 2047 then
    if fraction = 0 then .infinite negative else .undefined
  else if field = 0 then .finite negative fraction leastExponent
  else .finite negative (hiddenBit + fraction) (Int.ofNat field - 1075)

end TinyLisp.Number
