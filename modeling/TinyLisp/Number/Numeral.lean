/-!
# Numerals

The atoms that stand for numbers.  A numeral is an optional sign followed by

* `inf`, `infinity` or `nan`, in any case; or
* decimal digits with at most one point and at least one digit, and then, if there is
  an exponent, `e` or `E`, an optional sign and at least one digit.

Its value is the float nearest to what is written.
-/

namespace TinyLisp.Number

/-- The digits at the front of a list, and what follows them. -/
def takeDigits (chars : List Char) : List Char × List Char :=
  (chars.takeWhile Char.isDigit, chars.dropWhile Char.isDigit)

/-- The number that a list of decimal digits spells. -/
def valueOf (digits : List Char) : Nat :=
  digits.foldl (fun n c => 10 * n + (c.toNat - '0'.toNat)) 0

/-- An optional sign at the front: whether it is a minus, and what follows it. -/
def takeSign : List Char → Bool × List Char
  | '+' :: rest => (false, rest)
  | '-' :: rest => (true, rest)
  | chars => (false, chars)

/-- The part of a numeral after its digits: nothing, or an exponent. -/
def readExponent : List Char → Option Int
  | [] => some 0
  | c :: rest =>
    if c = 'e' || c = 'E' then
      let (negative, digits) := takeSign rest
      if digits.isEmpty || !digits.all Char.isDigit then none
      else if negative then some (-Int.ofNat (valueOf digits))
      else some (Int.ofNat (valueOf digits))
    else none

/-- A decimal exponent past which every numeral is infinite or zero. -/
def exponentBound : Int := 400

/-- The float nearest to `digits * 10 ^ exponent`.  Numbers far outside the range of the
floats are decided by their order of magnitude. -/
def nearest (digits : Nat) (exponent : Int) : Float :=
  let magnitude := exponent + Int.ofNat (Nat.toDigits 10 digits).length
  if digits = 0 || magnitude < -exponentBound then 0
  else if exponentBound < magnitude then 1 / 0
  else if 0 ≤ exponent then Float.ofScientific digits false exponent.toNat
  else Float.ofScientific digits true (-exponent).toNat

/-- The value of a numeral without its sign that is written in digits. -/
def readDecimal (chars : List Char) : Option Float :=
  let (whole, rest) := takeDigits chars
  let (places, rest) :=
    match rest with
    | '.' :: rest => takeDigits rest
    | rest => ([], rest)
  if whole.isEmpty && places.isEmpty then none
  else (readExponent rest).map fun exponent =>
    nearest (valueOf (whole ++ places)) (exponent - Int.ofNat places.length)

/-- The value of a numeral without its sign. -/
def readUnsigned (chars : List Char) : Option Float :=
  let word := chars.map Char.toLower
  if word = "inf".toList || word = "infinity".toList then some (1 / 0)
  else if word = "nan".toList then some (0 / 0)
  else readDecimal chars

/-- The number that a text stands for, unless it is no numeral. -/
def parse? (text : String) : Option Float :=
  let (negative, chars) := takeSign text.toList
  (readUnsigned chars).map fun x => if negative then -x else x

end TinyLisp.Number
