import Mathlib.Data.Rat.Floor
import M68kFloat.Operand.Format
import M68kFloat.Proofs.Binary.Comparison

/-!
# Doubles as integers

A double that is stored as a long or a word loses its fraction and is clamped to the integers of the
format (`toSigned_eq`); a byte is the low half of the word, and so wraps as long as the word does
not clamp.  The store counts an infinity like a finite number, which is no matter because the count
is beyond every limit (`saturated_eq_clamp`).

A larger value never becomes a smaller integer (`saturate_mono`), so longs and words keep the order
of the doubles.  Bytes do not.  `integer_stores_saturate` puts this together for the three formats.
-/

namespace M68kFloat

/-! ### Truncated and clamped -/

/-- A number without its fraction. -/
def towardZero (q : ℚ) : ℤ := if q < 0 then ⌈q⌉ else ⌊q⌋

/-- An integer, or the nearest one that has the width. -/
def clamp (width : ℕ) (n : ℤ) : ℤ := max (-2 ^ (width - 1)) (min (2 ^ (width - 1) - 1) n)

/-- A value as a signed integer of a width.  An infinity is the last integer on its side. -/
def saturate (width : ℕ) : WithBotTop ℚ → ℤ
  | ⊥ => -2 ^ (width - 1)
  | (q : ℚ) => clamp width (towardZero q)
  | ⊤ => 2 ^ (width - 1) - 1

theorem towardZero_of_nonneg {q : ℚ} (h : 0 ≤ q) : towardZero q = ⌊q⌋ := if_neg (not_lt.mpr h)

theorem towardZero_neg (q : ℚ) : towardZero (-q) = -towardZero q := by
  rcases lt_trichotomy q 0 with hNeg | rfl | hPos
  · rw [towardZero_of_nonneg (neg_nonneg.mpr hNeg.le), towardZero, if_pos hNeg, Int.floor_neg]
  · rfl
  · rw [towardZero, if_pos (neg_neg_of_pos hPos), towardZero_of_nonneg hPos.le, Int.ceil_neg]

theorem towardZero_mono {q q' : ℚ} (h : q ≤ q') : towardZero q ≤ towardZero q' := by
  by_cases hNeg : q < 0
  · rw [towardZero, if_pos hNeg]
    by_cases hNeg' : q' < 0
    · rw [towardZero, if_pos hNeg']
      exact Int.ceil_le_ceil h
    · rw [towardZero, if_neg hNeg']
      have hCeil : ⌈q⌉ ≤ 0 := Int.ceil_le.mpr hNeg.le
      have hFloor : 0 ≤ ⌊q'⌋ := Int.floor_nonneg.mpr (not_lt.mp hNeg')
      exact hCeil.trans hFloor
  · have hNonneg := not_lt.mp hNeg
    rw [towardZero_of_nonneg hNonneg, towardZero_of_nonneg (hNonneg.trans h)]
    exact Int.floor_le_floor h

theorem clamp_mono (width : ℕ) {n n' : ℤ} (h : n ≤ n') : clamp width n ≤ clamp width n' :=
  max_le_max le_rfl (min_le_min le_rfl h)

theorem saturate_bounds (width : ℕ) (x : WithBotTop ℚ) :
    -2 ^ (width - 1) ≤ saturate width x ∧ saturate width x ≤ 2 ^ (width - 1) - 1 := by
  have hLimit : (0 : ℤ) < 2 ^ (width - 1) := by positivity
  cases x using WithBotTop.rec with
  | bot =>
    show _ ≤ -2 ^ (width - 1) ∧ -2 ^ (width - 1) ≤ _
    omega
  | coe q =>
    show _ ≤ clamp width _ ∧ clamp width _ ≤ _
    rw [clamp]
    omega
  | top =>
    show _ ≤ 2 ^ (width - 1) - 1 ∧ 2 ^ (width - 1) - 1 ≤ _
    omega

/-- **A larger value never becomes a smaller integer.** -/
theorem saturate_mono (width : ℕ) {x y : WithBotTop ℚ} (h : x ≤ y) :
    saturate width x ≤ saturate width y := by
  cases x using WithBotTop.rec with
  | bot => exact (saturate_bounds width y).1
  | top =>
    rw [top_le_iff.mp h]
  | coe q =>
    cases y using WithBotTop.rec with
    | bot => exact absurd (le_bot_iff.mp h) (WithBotTop.coe_ne_bot q)
    | top => exact (saturate_bounds width q).2
    | coe r => exact clamp_mono width (towardZero_mono (WithBotTop.coe_le_coe.mp h))

/-- An integer of the width is the one that its bits stand for. -/
theorem toInt_ofInt_of_bounds {width : ℕ} {n : ℤ} (hWidth : 0 < width)
    (h : -2 ^ (width - 1) ≤ n ∧ n ≤ 2 ^ (width - 1) - 1) : (BitVec.ofInt width n).toInt = n := by
  obtain ⟨k, rfl⟩ : ∃ k, width = k + 1 := ⟨_, (Nat.sub_add_cancel hWidth).symm⟩
  rw [Nat.add_sub_cancel] at h
  rw [BitVec.toInt_ofInt]
  apply Int.bmod_eq_of_le_mul_two
  · push_cast
    rw [pow_succ]
    omega
  · push_cast
    rw [pow_succ]
    omega

namespace Double

/-- What a double is as a signed integer of a width, and zero for a NaN. -/
def saturated (d : Double) (width : ℕ) : ℤ := d.value?.elim 0 (saturate width)

example : saturated ⟨0xC1E0000000100000⟩ 32 = -2 ^ 31 := by decide +kernel

variable {d d' : Double} {width : ℕ}

/-! ### What the store computes -/

theorem least_double : Layout.double.least = (one : ℚ)⁻¹ := by decide +kernel

theorem truncate_eq (d : Double) : d.truncate = towardZero d.rational := by
  have hMagnitude : towardZero ((d.absUnits : ℚ) / one) = (d.absUnits / one : ℕ) := by
    rw [towardZero_of_nonneg (by positivity), Rat.floor_natCast_div_natCast, Int.natCast_div]
  rw [truncate, rational_eq, units, least_double, ← div_eq_mul_inv]
  by_cases hSign : d.sign = true
  · rw [if_pos hSign, if_pos hSign, Int.cast_neg, neg_div, towardZero_neg, Int.cast_natCast,
      hMagnitude]
  · rw [if_neg hSign, if_neg hSign, Int.cast_natCast, hMagnitude]

theorem two_pow_le_infinity :
    2 ^ 64 ≤ Layout.double.units Layout.double.infinity / one := by decide +kernel

/-- The count of an infinity is beyond the limits, so clamping it is enough. -/
theorem saturated_eq_clamp (h : d.isNaN = false) (hWidth : width ≤ 64) :
    d.saturated width = clamp width d.truncate := by
  cases hInfinite : d.isInfinite with
  | false =>
    rw [saturated, value?_of_finite h hInfinite, truncate_eq]
    rfl
  | true =>
    have hMagnitude : d.magnitude = Layout.double.infinity := of_decide_eq_true hInfinite
    have hLimit : 2 ^ (width - 1) ≤ 2 ^ 64 := Nat.pow_le_pow_right (by decide) (by omega)
    have hBeyond := hLimit.trans two_pow_le_infinity
    rw [saturated, value?_of_isInfinite hInfinite, truncate, absUnits, hMagnitude, clamp]
    generalize Layout.double.units Layout.double.infinity / one = whole at hBeyond
    have hBeyond' : (2 : ℤ) ^ (width - 1) ≤ whole := by exact_mod_cast hBeyond
    have hPos : (0 : ℤ) < 2 ^ (width - 1) := by positivity
    cases d.sign with
    | false =>
      show 2 ^ (width - 1) - 1 = max (-2 ^ (width - 1)) (min (2 ^ (width - 1) - 1) (whole : ℤ))
      omega
    | true =>
      show -2 ^ (width - 1) = max (-2 ^ (width - 1)) (min (2 ^ (width - 1) - 1) (-(whole : ℤ)))
      omega

/-- **A double is stored as the integer that its value is truncated and clamped to.** -/
theorem toSigned_eq (d : Double) (hWidth : width ≤ 64) :
    d.toSigned width = BitVec.ofInt width (d.saturated width) := by
  cases h : d.isNaN with
  | false =>
    rw [toSigned, h, saturated_eq_clamp h hWidth, clamp, Nat.one_shiftLeft, Nat.cast_pow]
    rfl
  | true =>
    rw [toSigned, if_pos h, saturated, value?_of_isNaN h]
    rfl

theorem toInt_saturated (d : Double) (hWidth : 0 < width) :
    (BitVec.ofInt width (d.saturated width)).toInt = d.saturated width := by
  rw [saturated]
  cases d.value? with
  | none => exact BitVec.toInt_zero
  | some x => exact toInt_ofInt_of_bounds hWidth (saturate_bounds width x)

theorem saturated_le (h : d.Compares (· ≤ ·) d') (width : ℕ) :
    d.saturated width ≤ d'.saturated width := by
  obtain ⟨x, x', hx, hx', hLe⟩ := h
  rw [saturated, saturated, hx, hx']
  exact saturate_mono width hLe

/-! ### The formats -/

/-- **Integer stores truncate and saturate.**  A long and a word are the value of the double without
its fraction, clamped to the integers of the format, where an infinity is the limit on its side and
a NaN is zero.  A byte is the low byte of the word.  The bits above are clear, and as signed
integers longs and words are in the order of the doubles. -/
theorem integer_stores_saturate (d : Double) :
    Format.long.store d = (BitVec.ofInt 32 (d.saturated 32)).setWidth 64 ∧
      Format.word.store d = (BitVec.ofInt 16 (d.saturated 16)).setWidth 64 ∧
      Format.byte.store d = ((BitVec.ofInt 16 (d.saturated 16)).setWidth 8).setWidth 64 ∧
      ((Format.long.store d).setWidth 32).toInt = d.saturated 32 ∧
      ((Format.word.store d).setWidth 16).toInt = d.saturated 16 ∧
      ∀ d' : Double, d.Compares (· ≤ ·) d' →
        ((Format.long.store d).setWidth 32).toInt ≤ ((Format.long.store d').setWidth 32).toInt ∧
        ((Format.word.store d).setWidth 16).toInt ≤ ((Format.word.store d').setWidth 16).toInt := by
  have hLong (e : Double) : Format.long.store e = (BitVec.ofInt 32 (e.saturated 32)).setWidth 64 :=
    congrArg (BitVec.setWidth 64) (toSigned_eq e (by decide))
  have hWord (e : Double) : Format.word.store e = (BitVec.ofInt 16 (e.saturated 16)).setWidth 64 :=
    congrArg (BitVec.setWidth 64) (toSigned_eq e (by decide))
  have hByte : Format.byte.store d = ((BitVec.ofInt 16 (d.saturated 16)).setWidth 8).setWidth 64 :=
    congrArg (fun n => (BitVec.setWidth 8 n).setWidth 64) (toSigned_eq d (by decide))
  have hLongInt (e : Double) : ((Format.long.store e).setWidth 32).toInt = e.saturated 32 := by
    rw [hLong, BitVec.setWidth_setWidth_of_le _ (by decide), BitVec.setWidth_eq]
    exact toInt_saturated e (by decide)
  have hWordInt (e : Double) : ((Format.word.store e).setWidth 16).toInt = e.saturated 16 := by
    rw [hWord, BitVec.setWidth_setWidth_of_le _ (by decide), BitVec.setWidth_eq]
    exact toInt_saturated e (by decide)
  refine ⟨hLong d, hWord d, hByte, hLongInt d, hWordInt d, fun d' h => ?_⟩
  rw [hLongInt, hLongInt, hWordInt, hWordInt]
  exact ⟨saturated_le h 32, saturated_le h 16⟩

/-- Half a unit below the least long there is still a fraction to lose, and the word is clamped to
a multiple of 256: its low byte is zero. -/
theorem integer_stores_saturate_below_least :
    Format.long.store ⟨0xC1E0000000100000⟩ = 0x80000000 ∧
      Format.word.store ⟨0xC1E0000000100000⟩ = 0x8000 ∧
      Format.byte.store ⟨0xC1E0000000100000⟩ = 0 ∧
      ((Format.long.store ⟨0xC1E0000000100000⟩).setWidth 32).toInt ≤
        ((Format.long.store ⟨0x8000000000000001⟩).setWidth 32).toInt := by
  obtain ⟨hLong, hWord, hByte, -, -, hOrder⟩ := integer_stores_saturate ⟨0xC1E0000000100000⟩
  have hCompares : Compares ⟨0xC1E0000000100000⟩ (· ≤ ·) ⟨0x8000000000000001⟩ :=
    ⟨_, _, value?_of_finite (by decide) (by decide), value?_of_finite (by decide) (by decide),
      WithBotTop.coe_le_coe.mpr (by decide +kernel)⟩
  have hLongSaturated : saturated ⟨0xC1E0000000100000⟩ 32 = -2 ^ 31 := by decide +kernel
  have hWordSaturated : saturated ⟨0xC1E0000000100000⟩ 16 = -2 ^ 15 := by decide +kernel
  rw [hLongSaturated] at hLong
  rw [hWordSaturated] at hWord hByte
  exact ⟨hLong, hWord, hByte, (hOrder _ hCompares).1⟩

end Double

end M68kFloat
