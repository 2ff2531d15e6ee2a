import TinyLisp.Operation
import TinyLisp.Proofs.Builtins
import TinyLisp.Proofs.Exact

/-!
# Remainders

The remainder of two numbers is that of their whole parts, which are cut off toward zero.  The
whole parts are held within 64 bits, so this is right only as long as the dividend is.

* `cutOff` and `truncate?_eq`: the whole part of a number, from its exact value.
* `InBounds.tmod`: the remainder of two numbers within the bounds is within them too.
* `Fits.tmod_hold`: which dividends and divisors may be held.
* `Builtin.call_remainder`: what `%` gives for every two numbers.
-/

namespace TinyLisp

namespace Number

/-! ## Whole parts -/

/-- The whole part of a rational, cut off toward zero. -/
def cutOff (q : ℚ) : ℤ :=
  if 0 ≤ q then ⌊q⌋ else ⌈q⌉

/-- An integer, held within the bounds. -/
def hold (n : Int) : Int :=
  max leastWhole (min greatestWhole n)

variable {x : Float} {q : ℚ}

theorem wholePart_of_nonneg (mantissa shift : Nat) :
    wholePart mantissa shift = mantissa * 2 ^ shift := by
  simp [wholePart, Nat.shiftLeft_eq]

theorem wholePart_of_neg (mantissa shift : Nat) :
    wholePart mantissa (-shift) = mantissa / 2 ^ shift := by
  simp [wholePart, Nat.shiftRight_eq_div_pow]

theorem floor_eq_wholePart (mantissa : Nat) (exponent : Int) :
    ⌊(mantissa : ℚ) * 2 ^ exponent⌋ = wholePart mantissa exponent := by
  obtain ⟨shift, rfl | rfl⟩ := exponent.eq_nat_or_neg
  · rw [wholePart_of_nonneg, zpow_natCast]
    exact_mod_cast Int.floor_natCast (mantissa * 2 ^ shift)
  · rw [wholePart_of_neg, zpow_neg, zpow_natCast, ← div_eq_mul_inv]
    exact_mod_cast Rat.floor_natCast_div_natCast mantissa (2 ^ shift)

theorem cutOff_neg (q : ℚ) (h : 0 ≤ q) : cutOff (-q) = -⌊q⌋ := by
  rcases h.eq_or_lt with rfl | hpos
  · simp [cutOff]
  · have hneg : ¬ 0 ≤ -q := by linarith
    rw [cutOff, if_neg hneg, Int.ceil_neg]

/-- The whole part is that of the mantissa, with its sign. -/
theorem cutOff_signed (negative : Bool) (mantissa : Nat) (exponent : Int) :
    cutOff (signed negative mantissa * 2 ^ exponent) =
      signed negative (wholePart mantissa exponent) := by
  have hpos : (0 : ℚ) ≤ mantissa * 2 ^ exponent :=
    mul_nonneg mantissa.cast_nonneg (zpow_nonneg two_pos.le exponent)
  cases negative with
  | false =>
    have hvalue : ((signed false mantissa : ℤ) : ℚ) = mantissa := by simp [signed]
    rw [hvalue, cutOff, if_pos hpos, floor_eq_wholePart]
    rfl
  | true =>
    have hvalue : ((signed true mantissa : ℤ) : ℚ) = -mantissa := by simp [signed]
    rw [hvalue, neg_mul, cutOff_neg _ hpos, floor_eq_wholePart]
    rfl

theorem mantissa_lt {negative : Bool} {mantissa : Nat} {exponent : Int}
    (h : Binary.ofFloat x = .finite negative mantissa exponent) : mantissa < 2 * hiddenBit := by
  have hfraction : x.toBits.toNat % hiddenBit < hiddenBit := Nat.mod_lt _ (by decide)
  rw [Binary.ofFloat] at h
  split at h
  · split at h <;> cases h
  · split at h
    · cases h
      omega
    · cases h
      omega

/-- A number with an exact value is a mantissa of 53 bits and an exponent. -/
theorem exists_finite (h : exactValue? x = some q) :
    ∃ negative mantissa exponent, Binary.ofFloat x = .finite negative mantissa exponent ∧
      mantissa < 2 * hiddenBit ∧ cutOff q = signed negative (wholePart mantissa exponent) := by
  rw [exactValue?] at h
  cases hx : Binary.ofFloat x with
  | undefined => simp [hx, Binary.value?] at h
  | infinite => simp [hx, Binary.value?] at h
  | finite negative mantissa exponent =>
    rw [hx] at h
    cases h
    exact ⟨negative, mantissa, exponent, rfl, mantissa_lt hx, cutOff_signed _ _ _⟩

/-- The whole part of a number comes from its exact value. -/
theorem truncate?_eq (h : exactValue? x = some q) : truncate? x = some (hold (cutOff q)) := by
  obtain ⟨negative, mantissa, exponent, hx, -, hcut⟩ := exists_finite h
  rw [truncate?, hx, hcut]
  cases negative <;> simp [signed, hold, leastWhole, greatestWhole]

/-- The whole part of a number is a mantissa with zeros behind it. -/
theorem short_cutOff (h : exactValue? x = some q) : Short (cutOff q).natAbs := by
  obtain ⟨negative, mantissa, exponent, -, hlt, hcut⟩ := exists_finite h
  have habs : (cutOff q).natAbs = wholePart mantissa exponent := by
    rw [hcut]
    cases negative <;> simp [signed]
  rw [habs]
  obtain ⟨shift, rfl | rfl⟩ := exponent.eq_nat_or_neg
  · exact ⟨mantissa, shift, hlt, wholePart_of_nonneg mantissa shift⟩
  · rw [wholePart_of_neg]
    exact short_of_lt (Nat.lt_of_le_of_lt (Nat.div_le_self _ _) hlt)

/-! ## The bounds -/

/-- The integer fits into 64 bits with a sign. -/
def InBounds (n : Int) : Prop :=
  leastWhole ≤ n ∧ n ≤ greatestWhole

instance (n : Int) : Decidable (InBounds n) :=
  inferInstanceAs (Decidable (_ ∧ _))

variable {m n : Int}

theorem hold_of_inBounds (h : InBounds n) : hold n = n := by
  simp only [InBounds, hold, leastWhole, greatestWhole] at *
  omega

theorem hold_eq_zero_iff : hold n = 0 ↔ n = 0 := by
  simp only [hold, leastWhole, greatestWhole]
  omega

/-- The whole part of a number is within the bounds. -/
theorem inBounds_truncate? (h : truncate? x = some n) : InBounds n := by
  rw [truncate?] at h
  split at h
  · cases h
  · cases h
    split <;> decide
  · cases h
    simp only [InBounds, leastWhole, greatestWhole]
    split <;> simp only [Int.ofNat_eq_natCast] <;> omega

/-- No remainder is greater than the bounds, not even that of the least integer by `-1`. -/
theorem InBounds.tmod (hn : InBounds n) (hne : n ≠ 0) (m : Int) : InBounds (m.tmod n) := by
  have habs := Int.natAbs_tmod m n
  have hlt := Nat.mod_lt m.natAbs (Int.natAbs_pos.mpr hne)
  simp only [InBounds, leastWhole, greatestWhole] at *
  omega

theorem tmod_of_natAbs_lt (h : m.natAbs < n.natAbs) : m.tmod n = m := by
  have hzero : m.tdiv n = 0 :=
    Int.natAbs_eq_zero.mp ((Int.natAbs_tdiv m n).trans (Nat.div_eq_of_lt h))
  rw [Int.tmod_def, hzero]
  simp

/-- The greatest integer within the bounds has too many bits. -/
theorem not_short_greatestWhole : ¬ Short greatestWhole.natAbs := by
  rintro ⟨mantissa, shift, hlt, heq⟩
  cases shift with
  | zero =>
    simp only [greatestWhole, hiddenBit] at *
    omega
  | succ shift =>
    rw [Nat.pow_succ, ← Nat.mul_assoc] at heq
    simp only [greatestWhole] at heq
    omega

/-- The dividend is within the bounds, and if it is the least integer, then the divisor is so as
well. -/
def Fits (m n : Int) : Prop :=
  InBounds m ∧ (m = leastWhole → InBounds n)

instance (m n : Int) : Decidable (Fits m n) :=
  inferInstanceAs (Decidable (_ ∧ (_ → _)))

/-- To hold the dividend and the divisor makes no difference then. -/
theorem Fits.tmod_hold (h : Fits m n) (hshort : Short m.natAbs) :
    (hold m).tmod (hold n) = m.tmod n := by
  obtain ⟨hm, hleast⟩ := h
  rw [hold_of_inBounds hm]
  by_cases hn : InBounds n
  · rw [hold_of_inBounds hn]
  · -- The divisor is further from zero than the dividend, and so is the bound in its place.
    have hne : m.natAbs ≠ greatestWhole.natAbs := fun heq => not_short_greatestWhole (heq ▸ hshort)
    have hnot : m ≠ leastWhole := fun heq => hn (hleast heq)
    have hbelow : m.natAbs < (hold n).natAbs ∧ m.natAbs < n.natAbs := by
      simp only [InBounds, hold, leastWhole, greatestWhole] at *
      omega
    rw [tmod_of_natAbs_lt hbelow.1, tmod_of_natAbs_lt hbelow.2]

end Number

namespace Builtin

open Number

/-- `%` gives the remainder, and fails if there is none. -/
theorem call_remainder_eq (left right : Float) :
    Builtin.remainder.call [.number left, .number right] =
      match remainder? left right with
      | none => .error (.divisionByZero .remainder)
      | some x => .ok (.number x) := by
  have hcount : Builtin.remainder.arity.Admits [Value.number left, Value.number right].length := rfl
  rw [call_of_admits hcount, operate, twoNumbers_pair]
  simp only [bind, Except.bind]
  cases remainder? left right <;> rfl

/-- What `%` gives for two numbers with these whole parts. -/
theorem call_remainder_of_truncate {left right : Float} {m n : Int}
    (hleft : truncate? left = some m) (hright : truncate? right = some n) :
    Builtin.remainder.call [.number left, .number right] =
      if n = 0 then .error (.divisionByZero .remainder) else .ok (.number (ofInt (m.tmod n))) := by
  rw [call_remainder_eq, remainder?, hleft, hright]
  by_cases h : n = 0 <;> simp [h]

/-- A pair of floats has a remainder, or it is a division by zero. -/
theorem call_remainder_total (left right : Float) :
    (∃ x, Builtin.remainder.call [.number left, .number right] = .ok (.number x)) ∨
      Builtin.remainder.call [.number left, .number right] =
        .error (.divisionByZero .remainder) := by
  rw [call_remainder_eq]
  cases remainder? left right with
  | none => exact .inr rfl
  | some x => exact .inl ⟨x, rfl⟩

/-- What is not a number makes the remainder none. -/
theorem call_remainder_of_truncate?_eq_none {left right : Float}
    (h : truncate? left = none ∨ truncate? right = none) :
    Builtin.remainder.call [.number left, .number right] = .ok (.number (0 / 0)) := by
  have hremainder : remainder? left right = some (0 / 0) := by
    unfold remainder?
    rcases h with h | h <;> rw [h]
    cases truncate? left <;> rfl
  rw [call_remainder_eq, hremainder]

section Finite

variable {left right : Float} {p q : ℚ} (hp : exactValue? left = some p)
  (hq : exactValue? right = some q)

include hp hq

/-- The divisor is zero if its whole part is. -/
theorem call_remainder_eq_divisionByZero_iff :
    Builtin.remainder.call [.number left, .number right] = .error (.divisionByZero .remainder) ↔
      cutOff q = 0 := by
  rw [call_remainder_of_truncate (truncate?_eq hp) (truncate?_eq hq)]
  refine Iff.trans ?_ hold_eq_zero_iff
  split
  · rename_i hzero
    exact iff_of_true rfl hzero
  · rename_i hne
    exact iff_of_false nofun hne

/-- Otherwise there is the remainder of the whole parts, held within the bounds. -/
theorem call_remainder_of_cutOff_ne_zero (hne : cutOff q ≠ 0) :
    Builtin.remainder.call [.number left, .number right] =
      .ok (.number (ofInt ((hold (cutOff p)).tmod (hold (cutOff q))))) := by
  rw [call_remainder_of_truncate (truncate?_eq hp) (truncate?_eq hq),
    if_neg (mt hold_eq_zero_iff.mp hne)]

/-- The remainder of whole parts that fit has a float. -/
theorem exactValue?_tmod (hfits : Fits (cutOff p) (cutOff q)) :
    exactValue? (ofInt ((hold (cutOff p)).tmod (hold (cutOff q)))) =
      some ((cutOff p - cutOff q * (cutOff p).tdiv (cutOff q) : ℤ) : ℚ) := by
  have habs := Int.natAbs_tmod (cutOff p) (cutOff q)
  have hshort : Short ((cutOff p).tmod (cutOff q)).natAbs :=
    habs ▸ (short_cutOff hp).mod (short_cutOff hq)
  have hlt : ((cutOff p).tmod (cutOff q)).natAbs < 2 ^ 64 := by
    have hle := Nat.mod_le (cutOff p).natAbs (cutOff q).natAbs
    have hbounds := hfits.1
    simp only [InBounds, leastWhole, greatestWhole] at hbounds
    omega
  rw [hfits.tmod_hold (short_cutOff hp), exactValue?_ofInt hshort hlt, Int.tmod_def]

end Finite

/-- Number or not, each pair of floats has a remainder or is a division by zero, and no remainder
leaves the bounds.  The divisor of finite numbers is zero exactly if its whole part is.  Otherwise
what is given is the remainder of the whole parts, held within the bounds, and that is the exact
remainder if they fit. -/
theorem call_remainder (left right : Float) :
    ((∃ x, Builtin.remainder.call [.number left, .number right] = .ok (.number x)) ∨
      Builtin.remainder.call [.number left, .number right] =
        .error (.divisionByZero .remainder)) ∧
    (∀ m n, truncate? left = some m → truncate? right = some n →
      InBounds m ∧ InBounds n ∧ (n ≠ 0 → InBounds (m.tmod n))) ∧
    (truncate? left = none ∨ truncate? right = none →
      Builtin.remainder.call [.number left, .number right] = .ok (.number (0 / 0))) ∧
    ∀ p q, exactValue? left = some p → exactValue? right = some q →
      (Builtin.remainder.call [.number left, .number right] = .error (.divisionByZero .remainder) ↔
        cutOff q = 0) ∧
      (cutOff q ≠ 0 → Builtin.remainder.call [.number left, .number right] =
        .ok (.number (ofInt ((hold (cutOff p)).tmod (hold (cutOff q)))))) ∧
      (cutOff q ≠ 0 → Fits (cutOff p) (cutOff q) →
        ∃ x, Builtin.remainder.call [.number left, .number right] = .ok (.number x) ∧
          exactValue? x =
            some ((cutOff p - cutOff q * (cutOff p).tdiv (cutOff q) : ℤ) : ℚ)) := by
  refine ⟨call_remainder_total left right, ?_, call_remainder_of_truncate?_eq_none, ?_⟩
  · intro m n hm hn
    have hbounds := inBounds_truncate? hn
    exact ⟨inBounds_truncate? hm, hbounds, fun hne => hbounds.tmod hne m⟩
  · intro p q hp hq
    exact ⟨call_remainder_eq_divisionByZero_iff hp hq, call_remainder_of_cutOff_ne_zero hp hq,
      fun hne hfits =>
        ⟨_, call_remainder_of_cutOff_ne_zero hp hq hne, exactValue?_tmod hp hq hfits⟩⟩

/-- The least integer and `-1` fit, and nothing remains: the one pair whose quotient has no room
in 64 bits. -/
theorem call_remainder_least :
    exactValue? (-9223372036854775808) = some (-9223372036854775808) ∧
      exactValue? (-1) = some (-1) ∧ cutOff (-1) ≠ 0 ∧
      Fits (cutOff (-9223372036854775808)) (cutOff (-1)) ∧
      ∃ x, Builtin.remainder.call [.number (-9223372036854775808), .number (-1)] = .ok (.number x) ∧
        exactValue? x = some 0 := by
  have hleft : exactValue? (-9223372036854775808) = some (-9223372036854775808) := by
    have hx : Binary.ofFloat (-9223372036854775808) = .finite true 4503599627370496 11 := by rfl
    norm_num [exactValue?_of_finite hx, signed]
  have hright : exactValue? (-1) = some (-1) := by
    have hx : Binary.ofFloat (-1) = .finite true 4503599627370496 (-52) := by rfl
    norm_num [exactValue?_of_finite hx, signed]
  have hdividend : cutOff (-9223372036854775808) = -9223372036854775808 := by norm_num [cutOff]
  have hdivisor : cutOff (-1) = -1 := by norm_num [cutOff]
  have hne : cutOff (-1) ≠ 0 := by
    rw [hdivisor]
    decide
  have hfits : Fits (cutOff (-9223372036854775808)) (cutOff (-1)) := by
    rw [hdividend, hdivisor]
    decide
  obtain ⟨x, hcall, hvalue⟩ := ((call_remainder _ _).2.2.2 _ _ hleft hright).2.2 hne hfits
  refine ⟨hleft, hright, hne, hfits, x, hcall, hvalue.trans ?_⟩
  rw [hdividend, hdivisor]
  norm_num

/-- The whole part of `2 ^ 63` is not within the bounds, and its remainder by two is that of the
greatest integer, which is odd. -/
theorem call_remainder_ne_exact :
    ¬ ∀ left right p q, exactValue? left = some p → exactValue? right = some q → cutOff q ≠ 0 →
      ∃ x, Builtin.remainder.call [.number left, .number right] = .ok (.number x) ∧
        exactValue? x = some ((cutOff p - cutOff q * (cutOff p).tdiv (cutOff q) : ℤ) : ℚ) := by
  intro hall
  have hleft : exactValue? 9223372036854775808 = some 9223372036854775808 := by
    have hx : Binary.ofFloat 9223372036854775808 = .finite false 4503599627370496 11 := by rfl
    norm_num [exactValue?_of_finite hx, signed]
  have hright : exactValue? 2 = some 2 := by
    have hx : Binary.ofFloat 2 = .finite false 4503599627370496 (-51) := by rfl
    norm_num [exactValue?_of_finite hx, signed]
  have hdividend : cutOff 9223372036854775808 = 9223372036854775808 := by norm_num [cutOff]
  have hdivisor : cutOff 2 = 2 := by norm_num [cutOff]
  have hne : cutOff 2 ≠ 0 := by
    rw [hdivisor]
    decide
  obtain ⟨x, hcall, hvalue⟩ := hall _ _ _ _ hleft hright hne
  rw [call_remainder_of_cutOff_ne_zero hleft hright hne, hdividend, hdivisor] at hcall
  have hone : exactValue? x = some 1 := by
    cases hcall
    exact exactValue?_ofInt (short_of_lt (by decide)) (by decide)
  have hquotient : (9223372036854775808 : ℤ).tdiv 2 = 4611686018427387904 := by decide
  rw [hone, hdividend, hdivisor, hquotient] at hvalue
  norm_num at hvalue

end Builtin

end TinyLisp
