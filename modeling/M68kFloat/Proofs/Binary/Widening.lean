import M68kFloat.Binary.Conversion
import M68kFloat.Proofs.Binary.Rounding

/-!
# Integers and singles as doubles

An integer of at most 53 bits and a finite single are short numbers, and so exact as doubles
(`Layout.units_round`).  The conversions back find the same number and give the pattern that
was there: `toSigned_ofInt` and `toSingle_ofSingle`.

A NaN has no number.  Its sign and its payload are moved between the layouts, and its quiet
bit is set on the way (`toSingle_ofSingle_of_isNaN`).
-/

namespace M68kFloat

namespace Double

theorem exists_one_eq : ∃ k, k ≤ 2045 ∧ one = 2 ^ k := by
  have h : ∃ k, k ≤ 2045 ∧ one = 1 <<< k := ⟨1074, by decide, rfl⟩
  simpa only [Nat.one_shiftLeft] using h

/-- A short number is exact as a double. -/
theorem round_short (sign : Bool) {m k : ℕ} (hm : m < 2 ^ 53) (hk : k ≤ 2045) :
    (round sign (m * 2 ^ k) 1).isInfinite = false ∧
      (round sign (m * 2 ^ k) 1).absUnits = m * 2 ^ k := by
  have hRoom : (k + 2) * Layout.double.lead ≤ Layout.double.infinity := by
    rw [lead_double, infinity_double]
    omega
  have hShort : m < 2 * Layout.double.lead := by
    rw [lead_double]
    omega
  obtain ⟨hFinite, hUnits⟩ := Layout.units_round hShort hRoom
  rw [isInfinite, absUnits, magnitude_round]
  exact ⟨decide_eq_false hFinite.ne, hUnits⟩

/-! ### Integers -/

theorem truncate_ofInt {n : ℤ} (h : n.natAbs < 2 ^ 53) : (ofInt n).truncate = n := by
  obtain ⟨k, hk, hOne⟩ := exists_one_eq
  obtain ⟨-, hUnits⟩ := round_short (n < 0) h hk
  rw [truncate, ofInt, sign_round, hOne, hUnits, Nat.mul_div_cancel _ (Nat.two_pow_pos k)]
  by_cases hSign : n < 0
  · rw [if_pos (decide_eq_true hSign)]
    omega
  · rw [if_neg (by rw [decide_eq_true_iff]; exact hSign)]
    omega

/-- **A signed integer comes back**, extended to the width that it is asked for in. -/
theorem toSigned_ofInt {w width : ℕ} (b : BitVec w) (hw : 0 < width) (hWidth : w ≤ width)
    (hShort : w ≤ 53) : (ofInt b.toInt).toSigned width = b.signExtend width := by
  have hLow : -2 ^ w ≤ 2 * b.toInt := BitVec.le_two_mul_toInt
  have hHigh : 2 * b.toInt < 2 ^ w := BitVec.two_mul_toInt_lt
  have hNatAbs : b.toInt.natAbs < 2 ^ 53 := by
    have hPower : (2 : ℤ) ^ w ≤ 2 ^ 53 := pow_le_pow_right₀ (by decide) hShort
    omega
  have hLimit : (2 : ℤ) ^ w ≤ 2 * ((1 <<< (width - 1) : ℕ) : ℤ) := by
    obtain ⟨k, rfl⟩ : ∃ k, width = k + 1 := ⟨_, (Nat.sub_add_cancel hw).symm⟩
    have hPower : (2 : ℤ) ^ w ≤ 2 ^ (k + 1) := pow_le_pow_right₀ (by decide) hWidth
    rw [Nat.one_shiftLeft, Nat.add_sub_cancel]
    push_cast
    omega
  have hNaN : (ofInt b.toInt).isNaN = false := isNaN_round _ _ _
  rw [toSigned, hNaN, truncate_ofInt hNatAbs]
  generalize ((1 <<< (width - 1) : ℕ) : ℤ) = limit at hLimit
  have hClamped : max (-limit) (min (limit - 1) b.toInt) = b.toInt := by omega
  exact congrArg (BitVec.ofInt width) hClamped

end Double

/-! ### Singles -/

namespace Single

theorem lead_single : Layout.single.lead = 2 ^ 23 := by decide

theorem infinity_single : Layout.single.infinity = 255 * 2 ^ 23 := by decide

theorem exists_unit_eq : ∃ k, k ≤ 1024 ∧ unit = 2 ^ k := by
  have h : ∃ k, k ≤ 1024 ∧ unit = 1 <<< k := ⟨925, by decide, rfl⟩
  simpa only [Nat.one_shiftLeft] using h

/-- A single is its sign and its magnitude word. -/
theorem ofParts_sign_magnitude (s : Single) : ofParts s.sign s.magnitude = s := by
  obtain ⟨bits⟩ := s
  rw [ofParts, sign, magnitude, BitVec.ofNat_toNat, BitVec.setWidth_eq]
  exact congrArg mk (BitVec.cons_msb_setWidth bits)

/-- A finite single is short. -/
theorem exists_absUnits {s : Single} (h : s.magnitude < Layout.single.infinity) :
    ∃ m k, m < 2 ^ 24 ∧ k ≤ 254 ∧ s.absUnits = m * 2 ^ k := by
  obtain ⟨q, k, hNormal, hWord⟩ := Layout.single.exists_normal_word s.magnitude
  have hFits := hNormal.fits
  refine ⟨q, k, ?_, ?_, by rw [absUnits, hWord, hNormal.units]⟩
  · rw [lead_single] at hFits
    omega
  · rw [lead_single, infinity_single] at *
    omega

/-- A finite single is exact as a double. -/
theorem ofSingle_of_finite {s : Single} (h : s.magnitude < Layout.single.infinity) :
    Double.ofSingle s = .round s.sign (s.absUnits * unit) 1 ∧
      (Double.ofSingle s).isInfinite = false ∧
      (Double.ofSingle s).absUnits = s.absUnits * unit := by
  have hNaN : s.isNaN = false := decide_eq_false (Nat.lt_asymm h)
  have hDouble : Double.ofSingle s = .round s.sign (s.absUnits * unit) 1 := by
    rw [Double.ofSingle, hNaN, if_neg Bool.false_ne_true, if_neg h.ne]
  obtain ⟨m, k, hm, hk, hUnits⟩ := exists_absUnits h
  obtain ⟨l, hl, hUnit⟩ := exists_unit_eq
  have hScaled : s.absUnits * unit = m * 2 ^ (k + l) := by
    rw [hUnits, hUnit, Nat.pow_add, Nat.mul_assoc]
  refine ⟨hDouble, ?_⟩
  rw [hDouble, hScaled]
  exact Double.round_short s.sign (by omega) (by omega)

theorem ofSingle_of_infinite {s : Single} (h : s.magnitude = Layout.single.infinity) :
    Double.ofSingle s = .infinity s.sign := by
  have hNaN : s.isNaN = false := decide_eq_false (Nat.not_lt_of_le h.le)
  rw [Double.ofSingle, hNaN, if_neg Bool.false_ne_true, if_pos h]

theorem toSingle_ofSingle_of_finite {s : Single} (h : s.magnitude < Layout.single.infinity) :
    (Double.ofSingle s).toSingle = s := by
  obtain ⟨hDouble, hInfinite, hExact⟩ := ofSingle_of_finite h
  obtain ⟨l, hl, hUnit⟩ := exists_unit_eq
  have hBack : Layout.single.round (s.absUnits * unit) unit = s.magnitude := by
    rw [absUnits, hUnit]
    exact Layout.round_units h.le (Nat.two_pow_pos l)
  have hNaN : (Double.ofSingle s).isNaN = false := by rw [hDouble, Double.isNaN_round]
  have hSign : (Double.ofSingle s).sign = s.sign := by rw [hDouble, Double.sign_round]
  rw [Double.toSingle, hNaN, hInfinite, if_neg Bool.false_ne_true, if_neg Bool.false_ne_true, hSign,
    hExact, hBack, ofParts_sign_magnitude]

theorem toSingle_ofSingle_of_infinite {s : Single} (h : s.magnitude = Layout.single.infinity) :
    (Double.ofSingle s).toSingle = s := by
  have hMagnitude (sign : Bool) : (Double.infinity sign).magnitude = Layout.double.infinity :=
    Double.magnitude_ofParts sign (by decide)
  have hSign (sign : Bool) : (Double.infinity sign).sign = sign := Double.sign_ofParts _ _
  rw [ofSingle_of_infinite h, Double.toSingle, Double.isNaN, Double.isInfinite, hMagnitude, hSign,
    if_neg (by simp), if_pos (by simp), ← h, ofParts_sign_magnitude]

/-- **A single that is not a NaN comes back.** -/
theorem toSingle_ofSingle {s : Single} (h : s.isNaN = false) : (Double.ofSingle s).toSingle = s := by
  have hMagnitude : ¬ Layout.single.infinity < s.magnitude := of_decide_eq_false h
  rcases Nat.lt_or_eq_of_le (Nat.le_of_not_lt hMagnitude) with hFinite | hInfinite
  · exact toSingle_ofSingle_of_finite hFinite
  · exact toSingle_ofSingle_of_infinite hInfinite

/-! ### NaNs -/

/-- A single is its three fields. -/
theorem bits_eq (s : Single) :
    s.bits = BitVec.ofBool s.sign ++ s.bits.extractLsb' 23 8 ++ s.bits.setWidth 23 := by
  apply BitVec.eq_of_getLsbD_eq
  intro k hk
  simp only [BitVec.getLsbD_append, BitVec.getLsbD_setWidth, BitVec.getLsbD_extractLsb',
    BitVec.getLsbD_ofBool, sign, BitVec.msb_eq_getLsbD_last]
  by_cases hFraction : k < 23
  · simp [hFraction]
  · by_cases hExponent : k < 31
    · simp [hFraction, show k - 23 < 8 by omega, show 23 + (k - 23) = k by omega]
    · obtain rfl : k = 31 := by omega
      simp

theorem exponent_of_isNaN {s : Single} (h : s.isNaN = true) : s.bits.extractLsb' 23 8 = 0xFF#8 := by
  have hGreater : Layout.single.infinity < s.magnitude := of_decide_eq_true h
  rw [infinity_single, magnitude, BitVec.toNat_setWidth] at hGreater
  apply BitVec.eq_of_toNat_eq
  rw [BitVec.extractLsb'_toNat, Nat.shiftRight_eq_div_pow]
  show _ = 255
  omega

/-- The pattern of a NaN in the double layout, with the fraction of a single in its upper
part. -/
theorem isNaN_widened (sign : Bool) (fraction : BitVec 23) (h : fraction.getLsbD 22 = true) :
    Double.isNaN ⟨BitVec.ofBool sign ++ 0x7FF#11 ++ fraction ++ 0#29⟩ = true := by
  generalize hd : Double.mk (BitVec.ofBool sign ++ 0x7FF#11 ++ fraction ++ 0#29) = d
  have hExponent : d.exponentField = 2047 := by
    rw [Double.exponentField, ← hd, BitVec.extractLsb'_append_eq_of_le (by decide),
      BitVec.extractLsb'_append_eq_of_le (by decide), BitVec.extractLsb'_append_eq_right]
    rfl
  have hFraction : d.fractionField ≠ 0 := by
    intro hZero
    have hBits : d.bits.extractLsb' 0 52 = 0 := BitVec.eq_of_toNat_eq hZero
    have hBit : (d.bits.extractLsb' 0 52).getLsbD 51 = true := by
      rw [BitVec.getLsbD_extractLsb', ← hd, BitVec.getLsbD_append, if_neg (by decide),
        BitVec.getLsbD_append, if_pos (by decide)]
      exact h
    rw [hBits] at hBit
    cases hBit
  have hLeast := (Double.exponentField_eq_full_iff d).mp hExponent
  have hNot := mt (Double.fractionField_eq_zero_iff hExponent).mpr hFraction
  exact decide_eq_true (Nat.lt_of_le_of_ne hLeast (Ne.symm hNot))

theorem sign_widened (sign : Bool) (fraction : BitVec 23) :
    Double.sign ⟨BitVec.ofBool sign ++ 0x7FF#11 ++ fraction ++ 0#29⟩ = sign := by
  show BitVec.msb (n := 1 + 11 + 23 + 29) _ = _
  rw [BitVec.msb_append, if_neg (by decide), BitVec.msb_append, if_neg (by decide),
    BitVec.msb_append, if_neg (by decide), BitVec.msb_ofBool]

/-- A NaN is widened with its quiet bit set. -/
theorem ofSingle_of_isNaN {s : Single} (h : s.isNaN = true) :
    ∃ fraction : BitVec 23, fraction = s.bits.setWidth 23 ||| 0x400000#23 ∧
      fraction.getLsbD 22 = true ∧
      Double.ofSingle s = ⟨BitVec.ofBool s.sign ++ 0x7FF#11 ++ fraction ++ 0#29⟩ := by
  refine ⟨_, rfl, ?_, ?_⟩
  · rw [BitVec.getLsbD_or, show (0x400000#23).getLsbD 22 = true by decide, Bool.or_true]
  · rw [Double.ofSingle, if_pos h]

/-- **A NaN comes back quiet**, with its sign and the rest of its payload. -/
theorem toSingle_ofSingle_of_isNaN {s : Single} (h : s.isNaN = true) :
    (Double.ofSingle s).toSingle = ⟨s.bits ||| 0x400000⟩ := by
  obtain ⟨fraction, hFraction, hBit, hDouble⟩ := ofSingle_of_isNaN h
  have hQuiet : fraction ||| 0x400000#23 = fraction := by
    rw [hFraction, BitVec.or_assoc, BitVec.or_self]
  have hKept : (BitVec.ofBool s.sign ++ 0x7FF#11 ++ fraction ++ 0#29).extractLsb' 29 23 =
      fraction := by
    rw [BitVec.extractLsb'_append_eq_of_le (by decide), BitVec.extractLsb'_append_eq_right]
  rw [hDouble, Double.toSingle, isNaN_widened s.sign fraction hBit, if_pos rfl, sign_widened]
  -- the quiet bit lies in the fraction, so setting it in the whole pattern is setting it there
  have hMask : (0x400000 : Long) = 0#1 ++ 0#8 ++ 0x400000#23 := by decide
  have hBits : s.bits ||| 0x400000 = BitVec.ofBool s.sign ++ 0xFF#8 ++ fraction := by
    rw [hFraction, hMask, ← exponent_of_isNaN h]
    conv_lhs => rw [bits_eq s]
    rw [BitVec.or_append, BitVec.or_append, BitVec.or_zero, BitVec.or_zero]
  rw [hKept, hQuiet, hBits]

end Single

end M68kFloat
