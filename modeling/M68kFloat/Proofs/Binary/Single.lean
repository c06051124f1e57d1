import M68kFloat.Proofs.Binary.Nearest
import M68kFloat.Proofs.Binary.Widening

/-!
# The numbers that singles stand for

A single has its value from its sign, its exponent field and its fraction field, as a double has.
`Single.value?` takes it from the bits.  Put together from a sign and a magnitude word, a single has
the value `Single.valueAt`, which goes away from zero as the word grows (`valueAt_mono`,
`valueAt_anti`).
-/

namespace M68kFloat

/-- The exponent field of a word is full from the infinity on. -/
theorem Layout.exponent_full_iff {layout : Layout} {word : ℕ}
    (h : word < 2 ^ layout.exponent * layout.lead) :
    word / layout.lead = 2 ^ layout.exponent - 1 ↔ layout.infinity ≤ word := by
  have hPos := layout.lead_pos
  have hFields := Nat.two_pow_pos layout.exponent
  have hLast : word / layout.lead < 2 ^ layout.exponent := (Nat.div_lt_iff_lt_mul hPos).mpr h
  rw [infinity, Nat.one_shiftLeft, ← Nat.le_div_iff_mul_le hPos]
  omega

namespace Single

/-! ### The fields of a pattern -/

/-- The exponent field. -/
def exponentField (s : Single) : ℕ := (s.bits.extractLsb' 23 8).toNat

/-- The fraction field. -/
def fractionField (s : Single) : ℕ := (s.bits.extractLsb' 0 23).toNat

/-- The number of a finite single. -/
def rational (s : Single) : ℚ :=
  (if s.sign then -1 else 1) * Layout.single.valueOf s.exponentField s.fractionField

/-- The value of a single: none for a NaN, and otherwise a number or an infinity. -/
def value? (s : Single) : Option (WithBotTop ℚ) :=
  if s.exponentField = 255 then
    if s.fractionField = 0 then some (Double.endOfLine s.sign) else none
  else some (s.rational : WithBotTop ℚ)

example : value? ⟨0x80000001⟩ = some ((-1 / 2 ^ 149 : ℚ) : WithBotTop ℚ) := by decide +kernel

theorem magnitude_lt (s : Single) : s.magnitude < 2 ^ 31 := (s.bits.setWidth 31).isLt

theorem exponentField_eq (s : Single) : s.exponentField = s.magnitude / Layout.single.lead := by
  simp only [exponentField, magnitude, BitVec.extractLsb'_toNat, BitVec.toNat_setWidth,
    Nat.shiftRight_eq_div_pow, lead_single]
  omega

theorem fractionField_eq (s : Single) : s.fractionField = s.magnitude % Layout.single.lead := by
  simp only [fractionField, magnitude, BitVec.extractLsb'_toNat, BitVec.toNat_setWidth,
    Nat.shiftRight_eq_div_pow, lead_single]
  omega

theorem exponentField_eq_full_iff (s : Single) :
    s.exponentField = 255 ↔ Layout.single.infinity ≤ s.magnitude := by
  rw [exponentField_eq]
  exact Layout.exponent_full_iff (magnitude_lt s)

theorem rational_eq (s : Single) :
    s.rational = (if s.sign then -1 else 1) * (s.absUnits * Layout.single.least) := by
  rw [rational, exponentField_eq, fractionField_eq, Layout.valueOf_eq_units, absUnits]

theorem abs_rational (s : Single) : |s.rational| = s.absUnits * Layout.single.least := by
  have hNonneg : 0 ≤ (s.absUnits : ℚ) * Layout.single.least :=
    mul_nonneg (Nat.cast_nonneg _) Layout.single.least_pos.le
  rw [rational_eq]
  cases s.sign <;> simp [abs_of_nonneg hNonneg]

/-- A single that stands for a number is finite. -/
theorem of_value?_coe {s : Single} {y : ℚ} (h : s.value? = some (y : WithBotTop ℚ)) :
    s.magnitude < Layout.single.infinity ∧ y = s.rational := by
  rw [value?] at h
  by_cases hFull : s.exponentField = 255
  · rw [if_pos hFull] at h
    split at h
    · exact absurd (Option.some.inj h) (Double.endOfLine_ne_coe _ _)
    · cases h
  · rw [if_neg hFull] at h
    rw [exponentField_eq_full_iff, not_le] at hFull
    exact ⟨hFull, (WithBotTop.coe_injective (Option.some.inj h)).symm⟩

theorem value?_of_finite {s : Single} (h : s.magnitude < Layout.single.infinity) :
    s.value? = some (s.rational : WithBotTop ℚ) := by
  rw [value?, if_neg]
  rw [exponentField_eq_full_iff]
  omega

theorem value?_of_infinite {s : Single} (h : s.magnitude = Layout.single.infinity) :
    s.value? = some (Double.endOfLine s.sign) := by
  have hFull : s.exponentField = 255 := (exponentField_eq_full_iff s).mpr (by omega)
  have hFraction : s.fractionField = 0 := by
    rw [fractionField_eq, h]
    decide
  rw [value?, if_pos hFull, if_pos hFraction]

theorem value?_of_isNaN {s : Single} (h : s.isNaN = true) : s.value? = none := by
  have hGreater : Layout.single.infinity < s.magnitude := of_decide_eq_true h
  have hFull : s.exponentField = 255 := (exponentField_eq_full_iff s).mpr hGreater.le
  have hFraction : s.fractionField ≠ 0 := by
    have hLess := magnitude_lt s
    rw [infinity_single] at hGreater
    rw [fractionField_eq, lead_single]
    omega
  rw [value?, if_pos hFull, if_neg hFraction]

theorem isNaN_of_value? {s : Single} (h : s.value? = none) : s.isNaN = true := by
  refine decide_eq_true ?_
  by_contra hNot
  rcases Nat.lt_or_eq_of_le (not_lt.mp hNot) with hFinite | hInfinite
  · rw [value?_of_finite hFinite] at h
    cases h
  · rw [value?_of_infinite hInfinite] at h
    cases h

/-! ### Sign and magnitude word -/

theorem sign_ofParts (sign : Bool) (word : ℕ) : (ofParts sign word).sign = sign := by
  simp [Single.sign, ofParts]

theorem magnitude_ofParts (sign : Bool) {word : ℕ} (h : word ≤ Layout.single.infinity) :
    (ofParts sign word).magnitude = word := by
  have hWord : BitVec.setWidth 31 (BitVec.cons sign (BitVec.ofNat 31 word)) = BitVec.ofNat 31 word :=
    BitVec.setWidth_cons
  rw [infinity_single] at h
  simp only [Single.magnitude, ofParts, hWord, BitVec.toNat_ofNat]
  omega

/-- What a magnitude word with a sign stands for. -/
def valueAt (sign : Bool) (word : ℕ) : WithBotTop ℚ :=
  if word = Layout.single.infinity then Double.endOfLine sign
  else ((if sign then -1 else 1) * (Layout.single.units word * Layout.single.least) : ℚ)

theorem value?_ofParts (sign : Bool) {word : ℕ} (h : word ≤ Layout.single.infinity) :
    (ofParts sign word).value? = some (valueAt sign word) := by
  have hMagnitude := magnitude_ofParts sign h
  rcases Nat.lt_or_eq_of_le h with hFinite | hInfinite
  · rw [value?_of_finite (by omega), rational_eq, absUnits, hMagnitude, sign_ofParts, valueAt,
      if_neg hFinite.ne]
  · rw [value?_of_infinite (by omega), sign_ofParts, valueAt, if_pos hInfinite]

theorem valueAt_zero (sign : Bool) : valueAt sign 0 = (0 : ℚ) := by
  rw [valueAt, if_neg (by decide), Layout.units_zero_word, Nat.cast_zero, zero_mul, mul_zero]

variable {word word' : ℕ}

theorem units_mul_least_le (h : word ≤ word') :
    (Layout.single.units word : ℚ) * Layout.single.least ≤
      Layout.single.units word' * Layout.single.least :=
  mul_le_mul_of_nonneg_right
    (Nat.cast_le.mpr (Layout.single.units_strictMono.monotone h)) Layout.single.least_pos.le

theorem valueAt_mono (h : word ≤ word') (hWord : word' ≤ Layout.single.infinity) :
    valueAt false word ≤ valueAt false word' := by
  rcases Nat.lt_or_eq_of_le hWord with hFinite | hInfinite
  · have hFinite' := h.trans_lt hFinite
    rw [valueAt, valueAt, if_neg hFinite'.ne, if_neg hFinite.ne, WithBotTop.coe_le_coe]
    simpa using units_mul_least_le h
  · have hTop : valueAt false word' = ⊤ := if_pos hInfinite
    rw [hTop]
    exact le_top

theorem valueAt_anti (h : word ≤ word') (hWord : word' ≤ Layout.single.infinity) :
    valueAt true word' ≤ valueAt true word := by
  rcases Nat.lt_or_eq_of_le hWord with hFinite | hInfinite
  · have hFinite' := h.trans_lt hFinite
    rw [valueAt, valueAt, if_neg hFinite.ne, if_neg hFinite'.ne, WithBotTop.coe_le_coe]
    simpa using units_mul_least_le h
  · have hBottom : valueAt true word' = ⊥ := if_pos hInfinite
    rw [hBottom]
    exact bot_le

end Single

end M68kFloat
