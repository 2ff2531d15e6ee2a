import TinyLisp.Number.Binary

/-!
# The shortest decimal

The shortest decimal of a positive float is the one with the fewest digits that
reads back as that float.  Of two such decimals the nearer to the float is taken,
and of two equally near ones the larger.

The search tries the grids of 1, 2, … 17 digits.  If any point of a grid reads back,
then so does one of the two points next to the float, so only those are tested.
All comparisons are between natural numbers.
-/

namespace TinyLisp.Number

/-- `digits * 10 ^ exponent`. -/
structure Decimal where
  digits : Nat
  exponent : Int
  deriving DecidableEq, Repr

/-- How many decimal digits `n` has. -/
def countDigits (n : Nat) : Nat :=
  (Nat.toDigits 10 n).length

/-- Moves the zeros at the end of the digits into the exponent, at most `limit` of them. -/
def Decimal.dropZeros : Nat → Decimal → Decimal
  | 0, d => d
  | limit + 1, d =>
    if d.digits % 10 = 0 then dropZeros limit ⟨d.digits / 10, d.exponent + 1⟩ else d

/-- A positive float and the decimals that read back as it, in units of `1 / scale`:
those between `low` and `high`, the two ends included only if `closed`. -/
structure Target where
  value : Nat
  low : Nat
  high : Nat
  closed : Bool
  scale : Nat

/-- The decimals that round to `mantissa * 2 ^ exponent` reach half-way to the floats
on both sides.  Below a power of two the floats lie twice as close. -/
def Target.ofBinary (mantissa : Nat) (exponent : Int) : Target :=
  let below := if mantissa = hiddenBit ∧ leastExponent < exponent then 1 else 2
  let unit := 1 <<< (exponent - 2).toNat
  { value := 4 * mantissa * unit
    low := (4 * mantissa - below) * unit
    high := (4 * mantissa + 2) * unit
    closed := mantissa % 2 = 0
    scale := 1 <<< (2 - exponent).toNat }

/-- The power of ten of the first digit of the target. -/
def Target.leadingPower (t : Target) : Int :=
  if t.scale ≤ t.value then Int.ofNat (countDigits (t.value / t.scale)) - 1
  else
    -- the least `j` with `scale ≤ value * 10 ^ j`
    let least := (t.scale + t.value - 1) / t.value
    Int.negOfNat (countDigits (least - 1))

/-- The target in units of `10 ^ power / scale`. -/
def Target.onGrid (t : Target) (power : Int) : Target :=
  let factor := Nat.pow 10 (-power).toNat
  { value := t.value * factor
    low := t.low * factor
    high := t.high * factor
    closed := t.closed
    scale := t.scale * Nat.pow 10 power.toNat }

/-- Whether the grid point `n` lies above the low end. -/
def Target.aboveLow (t : Target) (n : Nat) : Bool :=
  if t.closed then t.low ≤ n * t.scale else t.low < n * t.scale

/-- Whether the grid point `n` lies below the high end. -/
def Target.belowHigh (t : Target) (n : Nat) : Bool :=
  if t.closed then n * t.scale ≤ t.high else n * t.scale < t.high

/-- The whole number next to the target that reads back as it, if one does. -/
def Target.neighbour? (t : Target) : Option Nat :=
  let lower := t.value / t.scale
  let upper := lower + 1
  match t.aboveLow lower, t.belowHigh upper with
  | true, true =>
    if t.value - lower * t.scale < upper * t.scale - t.value then some lower else some upper
  | true, false => some lower
  | false, true => some upper
  | false, false => none

/-- The neighbour on the grid that gives the target `count` digits. -/
def Target.withDigits? (t : Target) (count : Nat) : Option Decimal :=
  let power := t.leadingPower + 1 - Int.ofNat count
  ((t.onGrid power).neighbour?).map fun digits => ⟨digits, power⟩

/-- Seventeen digits are enough to tell any two floats apart. -/
def enoughDigits : Nat := 17

/-- The shortest decimal of `mantissa * 2 ^ exponent`, and zero for zero. -/
def shortest (mantissa : Nat) (exponent : Int) : Decimal :=
  if mantissa = 0 then ⟨0, 0⟩
  else
    let target := Target.ofBinary mantissa exponent
    match (List.range enoughDigits).findSome? fun n => target.withDigits? (n + 1) with
    | some decimal => decimal.dropZeros enoughDigits
    | none => ⟨0, 0⟩

end TinyLisp.Number
