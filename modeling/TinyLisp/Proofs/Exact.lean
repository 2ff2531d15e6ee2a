import Mathlib
import TinyLisp.Number.Whole

/-!
# The exact value of a number

`exactValue?` is the rational that a finite float stands for.  The library reads it off the bits,
and the logical model of floats that comes with the language has a reading of its own; the two
agree, and from that model it is known what a float made from bits and a negated float are.

* `Binary.value?_ofBits`: the two readings agree.
* `unpack_pack_unpack`: a float that was read off bits is the same after it is packed.
* `exactValue?_ofBits` and `exactValue?_neg`: the exact value of a float made from bits, and of a
  negated one.
* `Short` and `exactValue?_ofNat`: the whole numbers that are floats, and their floats.
-/

namespace TinyLisp.Number

open Float.Model (Format UnpackedFloat)
open Float.Model.UnpackedFloat

/-! ## Two readings -/

/-- A mantissa with its sign. -/
def signed (negative : Bool) (mantissa : Nat) : Int :=
  if negative then -mantissa else mantissa

/-- The rational that a float stands for, if it is finite. -/
def Binary.value? : Binary → Option ℚ
  | .finite negative mantissa exponent => some (signed negative mantissa * 2 ^ exponent)
  | _ => none

/-- The exact value of a number, if it is finite. -/
def exactValue? (x : Float) : Option ℚ :=
  (Binary.ofFloat x).value?

/-- Reads the three fields of the bits of a float. -/
def Binary.ofBits (bits : Nat) : Binary :=
  let negative := (bits >>> 63) % 2 = 1
  let field := (bits >>> 52) % 2048
  let fraction := bits % hiddenBit
  if field = 2047 then
    if fraction = 0 then .infinite negative else .undefined
  else if field = 0 then .finite negative fraction leastExponent
  else .finite negative (hiddenBit + fraction) (Int.ofNat field - 1075)

theorem exactValue?_of_finite {x : Float} {negative : Bool} {mantissa : Nat} {exponent : Int}
    (h : Binary.ofFloat x = .finite negative mantissa exponent) :
    exactValue? x = some ((signed negative mantissa : ℚ) * 2 ^ exponent) := by
  rw [exactValue?, h, Binary.value?]

theorem Binary.ofFloat_eq (x : Float) : Binary.ofFloat x = Binary.ofBits x.toBits.toNat := rfl

/-- The rational that an unpacked float stands for, if it is finite. -/
def unpackedValue? : UnpackedFloat → Option ℚ
  | .zero _ => some 0
  | .finite sign mantissa exponent _ => some (sign.apply mantissa * 2 ^ exponent)
  | _ => none

theorem toNat_unpackMantissa (bits : BitVec 64) :
    (unpackMantissa bits : BitVec Format.binary64.mantissaBitsWithoutImplicit).toNat =
      bits.toNat % hiddenBit := by
  simp [unpackMantissa, hiddenBit, BitVec.extractLsb_toNat]

theorem toNat_unpackExponent (bits : BitVec 64) :
    (unpackExponent bits : BitVec Format.binary64.exponentBits).toNat =
      (bits.toNat >>> 52) % 2048 := by
  simp [unpackExponent, BitVec.extractLsb_toNat]

theorem ofBitVec_unpackSign (bits : BitVec 64) :
    Sign.ofBitVec (@unpackSign Format.binary64 bits) =
      if (bits.toNat >>> 63) % 2 = 1 then .negative else .positive := by
  have hsign : (@unpackSign Format.binary64 bits).toNat = (bits.toNat >>> 63) % 2 := by
    simp [unpackSign, BitVec.extractLsb_toNat]
  rw [Sign.ofBitVec, ← hsign]
  generalize @unpackSign Format.binary64 bits = sign
  rcases BitVec.eq_zero_or_eq_one sign with rfl | rfl <;> rfl

theorem signed_cast (negative : Prop) [Decidable negative] (mantissa : Nat) :
    (if negative then Sign.negative else .positive).apply mantissa =
      signed (decide negative) mantissa := by
  by_cases h : negative <;> simp [h, signed, Sign.apply]

/-- The leading bit stands in front of the fraction. -/
theorem toNat_one_append (fraction : BitVec 52) :
    (1#1 ++ fraction).toNat = hiddenBit + fraction.toNat := by
  rw [BitVec.toNat_append, ← Nat.shiftLeft_add_eq_or_of_lt fraction.isLt]
  rfl

/-- What is read off the bits is what the model of floats has. -/
theorem Binary.value?_ofBits (bits : BitVec 64) :
    (Binary.ofBits bits.toNat).value? = unpackedValue? (unpack Format.binary64 bits) := by
  have hmantissa := toNat_unpackMantissa bits
  have hexponent := toNat_unpackExponent bits
  have hones : @unpackExponent Format.binary64 bits = -1#_ ↔
      (bits.toNat >>> 52) % 2048 = 2047 := by
    rw [← BitVec.toNat_inj, hexponent]
    exact Iff.rfl
  have hzeros : @unpackExponent Format.binary64 bits = 0#_ ↔
      (bits.toNat >>> 52) % 2048 = 0 := by
    rw [← BitVec.toNat_inj, hexponent]
    exact Iff.rfl
  have hfraction : @unpackMantissa Format.binary64 bits = 0#_ ↔
      bits.toNat % hiddenBit = 0 := by
    rw [← BitVec.toNat_inj, hmantissa]
    exact Iff.rfl
  have hbias : (Format.binary64.exponentBias : Int) = 1023 := rfl
  simp only [Binary.ofBits, unpack, hones, hzeros, hfraction, ofBitVec_unpackSign, hexponent]
  split
  · split <;> rfl
  · split
    · rename_i hfield
      split
      · rename_i hzero
        simp [value?, unpackedValue?, hzero, signed]
      · simp only [value?, unpackedValue?, signed_cast, hmantissa, hfield, hbias]
        rfl
    · simp only [value?, unpackedValue?, signed_cast, toNat_one_append, hmantissa, hbias]
      rfl

/-! ## Packing -/

/-- To pack what was read off bits, and to read it again, changes nothing. -/
theorem unpack_pack_unpack (bits : BitVec 64) :
    unpack Format.binary64 (pack Format.binary64 (unpack Format.binary64 bits)) =
      unpack Format.binary64 bits := by
  rw [pack_unpack]
  split
  · rename_i hnan
    obtain ⟨hones, hfraction⟩ := of_decide_eq_true hnan
    rw [unpack_packedNaN, unpack]
    simp only [hones, hfraction, if_true, if_false]
  · rfl

/-- A negated float has bits of its own: those with the other sign. -/
theorem exists_unpack_eq_neg (bits : BitVec 64) :
    ∃ other, unpack Format.binary64 other = (unpack Format.binary64 bits).neg := by
  refine ⟨packComponents Format.binary64 (-Sign.ofBitVec (@unpackSign Format.binary64 bits))
    (unpackExponent bits) (unpackMantissa bits), ?_⟩
  simp only [unpack, unpackSign_packComponents, unpackExponent_packComponents,
    unpackMantissa_packComponents, Sign.ofBitVec_toBitVec]
  split
  · split <;> rfl
  · split
    · split <;> rfl
    · rfl

theorem exactValue?_ofModel (bits : BitVec 64) :
    exactValue? (.ofModel (.pack (unpack Format.binary64 bits))) =
      unpackedValue? (unpack Format.binary64 bits) := by
  have hbits : (Float.ofModel (.pack (unpack Format.binary64 bits))).toBits.toNat =
    (pack Format.binary64 (unpack Format.binary64 bits)).toNat := rfl
  rw [exactValue?, Binary.ofFloat_eq, hbits, Binary.value?_ofBits, unpack_pack_unpack]

/-- The exact value of a float that is made from bits. -/
theorem exactValue?_ofBits (bits : UInt64) :
    exactValue? (Float.ofBits bits) = (Binary.ofBits bits.toNat).value? :=
  (exactValue?_ofModel bits.toBitVec).trans (Binary.value?_ofBits bits.toBitVec).symm

theorem apply_neg (sign : Sign) (n : Int) : (-sign).apply n = -sign.apply n := by
  cases sign
  · exact (neg_neg n).symm
  · rfl

theorem unpackedValue?_neg (x : UnpackedFloat) :
    unpackedValue? x.neg = (unpackedValue? x).map (- ·) := by
  cases x with
  | infinity | notANumber => rfl
  | zero => simp [UnpackedFloat.neg, unpackedValue?]
  | finite => simp [UnpackedFloat.neg, unpackedValue?, apply_neg]

/-- The exact value of a negated float. -/
theorem exactValue?_neg (x : Float) : exactValue? (-x) = (exactValue? x).map (- ·) := by
  obtain ⟨other, hother⟩ := exists_unpack_eq_neg x.toModel.toBits.toBitVec
  calc exactValue? (-x)
      = exactValue? (.ofModel (.pack (unpack Format.binary64 x.toModel.toBits.toBitVec).neg)) := rfl
    _ = unpackedValue? (unpack Format.binary64 x.toModel.toBits.toBitVec).neg := by
        rw [← hother, exactValue?_ofModel]
    _ = (unpackedValue? (unpack Format.binary64 x.toModel.toBits.toBitVec)).map (- ·) :=
        unpackedValue?_neg _
    _ = (exactValue? x).map (- ·) := by
        rw [← Binary.value?_ofBits]
        rfl

/-! ## Whole numbers that are floats -/

/-- The number is a mantissa with zeros behind it. -/
def Short (n : Nat) : Prop :=
  ∃ mantissa shift, mantissa < 2 * hiddenBit ∧ n = mantissa * 2 ^ shift

theorem short_of_lt {n : Nat} (h : n < 2 * hiddenBit) : Short n :=
  ⟨n, 0, h, by simp⟩

theorem mod_mul_two_pow_of_le {a b i j : Nat} (h : i ≤ j) :
    (a * 2 ^ i) % (b * 2 ^ j) = (a % (b * 2 ^ (j - i))) * 2 ^ i := by
  have hsplit : b * 2 ^ j = (b * 2 ^ (j - i)) * 2 ^ i := by
    rw [Nat.mul_assoc, ← Nat.pow_add, Nat.sub_add_cancel h]
  rw [hsplit, Nat.mul_mod_mul_right]

/-- The remainder of two such numbers is one. -/
theorem Short.mod {a b : Nat} (ha : Short a) (hb : Short b) : Short (a % b) := by
  obtain ⟨m, i, hm, rfl⟩ := ha
  obtain ⟨n, j, hn, rfl⟩ := hb
  rcases Nat.le_total i j with hle | hle
  · exact ⟨_, i, Nat.lt_of_le_of_lt (Nat.mod_le _ _) hm, mod_mul_two_pow_of_le hle⟩
  · by_cases hzero : n = 0
    · subst hzero
      exact ⟨m, i, hm, by simp⟩
    · have hsplit : m * 2 ^ i = (m * 2 ^ (i - j)) * 2 ^ j := by
        rw [Nat.mul_assoc, ← Nat.pow_add, Nat.sub_add_cancel hle]
      have hlt := Nat.mod_lt (m * 2 ^ (i - j)) (Nat.pos_of_ne_zero hzero)
      refine ⟨(m * 2 ^ (i - j)) % n, j, Nat.lt_trans hlt hn, ?_⟩
      rw [hsplit, Nat.mul_mod_mul_right]

/-- A number that is not zero has all its bits in 53 from its leading one on. -/
theorem Short.dvd {n : Nat} (h : Short n) (hne : n ≠ 0) : 2 ^ (n.log2 - 52) ∣ n := by
  obtain ⟨mantissa, shift, hlt, hn⟩ := h
  have hlog : n.log2 < 53 + shift := by
    rw [Nat.log2_lt hne, hn, Nat.pow_add]
    exact Nat.mul_lt_mul_of_pos_right hlt (Nat.two_pow_pos shift)
  exact (Nat.pow_dvd_pow 2 (by omega)).trans (hn ▸ Nat.dvd_mul_left _ _)

theorem roundShift_of_dvd {n shift : Nat} (h : 2 ^ shift ∣ n) :
    roundShift n shift = n / 2 ^ shift := by
  have hpos := Nat.two_pow_pos shift
  have hzero : n % 2 ^ shift = 0 := Nat.mod_eq_zero_of_dvd h
  simp [roundShift, Nat.shiftLeft_eq, hzero, hpos.ne]

/-- The mantissa has 53 bits, and the number has those bits from its leading one on. -/
structure IsMantissa (n mantissa : Nat) : Prop where
  le : hiddenBit ≤ mantissa
  lt : mantissa < 2 * hiddenBit
  value : (n : ℚ) = mantissa * 2 ^ ((n.log2 : Int) - 52)

/-- A small number is moved up. -/
theorem isMantissa_mul {n : Nat} (hne : n ≠ 0) (hpower : n.log2 ≤ 52) :
    IsMantissa n (n * 2 ^ (52 - n.log2)) where
  le := calc
    hiddenBit = 2 ^ n.log2 * 2 ^ (52 - n.log2) := by
      rw [← Nat.pow_add, Nat.add_sub_cancel' hpower]
      rfl
    _ ≤ n * 2 ^ (52 - n.log2) := Nat.mul_le_mul_right _ (Nat.log2_self_le hne)
  lt := calc
    n * 2 ^ (52 - n.log2) < 2 ^ (n.log2 + 1) * 2 ^ (52 - n.log2) :=
      Nat.mul_lt_mul_of_pos_right Nat.lt_log2_self (Nat.two_pow_pos _)
    _ = 2 * 2 ^ (n.log2 + (52 - n.log2)) := by
      rw [Nat.pow_succ', Nat.mul_assoc, ← Nat.pow_add]
    _ = 2 * hiddenBit := by
      rw [Nat.add_sub_cancel' hpower]
      rfl
  value := by
    have hzpow : (2 : ℚ) ^ (52 - n.log2) * 2 ^ ((n.log2 : Int) - 52) = 1 := by
      rw [← zpow_natCast, ← zpow_add₀ two_ne_zero, Nat.cast_sub hpower]
      simp
    push_cast
    rw [mul_assoc, hzpow, mul_one]

/-- The zeros behind a great number are cut off. -/
theorem isMantissa_div {n : Nat} (h : Short n) (hne : n ≠ 0) (hpower : 52 < n.log2) :
    IsMantissa n (n / 2 ^ (n.log2 - 52)) := by
  obtain ⟨quotient, hquotient⟩ := h.dvd hne
  have hpos := Nat.two_pow_pos (n.log2 - 52)
  have hpow : 2 ^ n.log2 = 2 ^ (n.log2 - 52) * hiddenBit := by
    have hsplit : n.log2 = n.log2 - 52 + 52 := by omega
    exact (congrArg (2 ^ ·) hsplit).trans (Nat.pow_add 2 _ 52)
  have hle : 2 ^ (n.log2 - 52) * hiddenBit ≤ 2 ^ (n.log2 - 52) * quotient := by
    rw [← hpow, ← hquotient]
    exact Nat.log2_self_le hne
  have hlt : 2 ^ (n.log2 - 52) * quotient < 2 ^ (n.log2 - 52) * (2 * hiddenBit) := by
    rw [← hquotient, Nat.mul_left_comm, ← hpow, ← Nat.pow_succ']
    exact Nat.lt_log2_self
  have hexponent : (n.log2 : Int) - 52 = (n.log2 - 52 : Nat) := by omega
  rw [Nat.div_eq_of_eq_mul_right hpos hquotient]
  refine ⟨Nat.le_of_mul_le_mul_left hle hpos, Nat.lt_of_mul_lt_mul_left hlt, ?_⟩
  rw [hexponent, zpow_natCast, mul_comm]
  exact_mod_cast hquotient

/-- The mantissa of a number that fits, behind its leading bit. -/
theorem exists_fraction {n : Nat} (h : Short n) (hne : n ≠ 0) :
    ∃ fraction < hiddenBit,
      (if n.log2 ≤ 52 then n <<< (52 - n.log2) else roundShift n (n.log2 - 52)) =
        hiddenBit + fraction ∧
      IsMantissa n (hiddenBit + fraction) := by
  have hmantissa : IsMantissa n
      (if n.log2 ≤ 52 then n <<< (52 - n.log2) else roundShift n (n.log2 - 52)) := by
    split
    · rename_i hpower
      rw [Nat.shiftLeft_eq]
      exact isMantissa_mul hne hpower
    · rename_i hpower
      rw [roundShift_of_dvd (h.dvd hne)]
      exact isMantissa_div h hne (Nat.lt_of_not_le hpower)
  obtain ⟨fraction, heq⟩ := Nat.exists_eq_add_of_le hmantissa.le
  have hlt := hmantissa.lt
  rw [heq] at hmantissa hlt
  exact ⟨fraction, by omega, heq, hmantissa⟩

theorem Binary.ofBits_field {field fraction : Nat} (hfield : 0 < field ∧ field < 2047)
    (hfraction : fraction < hiddenBit) :
    Binary.ofBits (field * hiddenBit + fraction) =
      .finite false (hiddenBit + fraction) (field - 1075) := by
  have hbit : hiddenBit = 4503599627370496 := rfl
  have hnegative : ((field * hiddenBit + fraction) >>> 63) % 2 = 0 := by
    rw [hbit] at hfraction ⊢
    omega
  have hexponent : ((field * hiddenBit + fraction) >>> 52) % 2048 = field := by
    rw [hbit] at hfraction ⊢
    omega
  have hmantissa : (field * hiddenBit + fraction) % hiddenBit = fraction := by
    rw [hbit] at hfraction ⊢
    omega
  simp only [Binary.ofBits, hnegative, hexponent, hmantissa]
  rw [if_neg hfield.2.ne, if_neg hfield.1.ne']
  rfl

/-- A whole number that fits has a float. -/
theorem exactValue?_ofNat {n : Nat} (h : Short n) (hlt : n < 2 ^ 64) :
    exactValue? (ofNat n) = some (n : ℚ) := by
  by_cases hne : n = 0
  · subst hne
    have hzero : Binary.ofFloat (ofNat 0) = .finite false 0 (-1074) := by rfl
    simp [exactValue?_of_finite hzero, signed]
  · obtain ⟨fraction, hfraction, hmantissa, -, -, hvalue⟩ := exists_fraction h hne
    have hpower : n.log2 < 64 := (Nat.log2_lt hne).mpr hlt
    have hbits : (n.log2 + 1022) * hiddenBit + (hiddenBit + fraction) =
        (n.log2 + 1023) * hiddenBit + fraction := by
      rw [← Nat.add_assoc, ← Nat.succ_mul]
    have hfits : (n.log2 + 1023) * hiddenBit + fraction < 2 ^ 64 := by
      have hbit : hiddenBit = 4503599627370496 := rfl
      rw [hbit] at hfraction ⊢
      omega
    have hfloat : ofNat n =
        Float.ofBits (UInt64.ofNat ((n.log2 + 1023) * hiddenBit + fraction)) := by
      simp only [ofNat, if_neg hne, hmantissa, hbits]
    have hexponent : ((n.log2 + 1023 : Nat) : Int) - 1075 = (n.log2 : Int) - 52 := by omega
    rw [hfloat, exactValue?_ofBits, UInt64.toNat_ofNat', Nat.mod_eq_of_lt hfits,
      Binary.ofBits_field (by omega) hfraction, Binary.value?, hvalue, hexponent]
    rfl

theorem exactValue?_ofInt {n : Int} (h : Short n.natAbs) (hlt : n.natAbs < 2 ^ 64) :
    exactValue? (ofInt n) = some (n : ℚ) := by
  rw [ofInt]
  split
  · rename_i hneg
    obtain ⟨k, rfl⟩ := Int.exists_eq_neg_ofNat hneg.le
    rw [exactValue?_neg, exactValue?_ofNat h hlt]
    simp
  · rename_i hpos
    obtain ⟨k, rfl⟩ := Int.eq_ofNat_of_zero_le (Int.not_lt.mp hpos)
    rw [exactValue?_ofNat h hlt]
    simp

end TinyLisp.Number
